import ProtocolRobustness.Yield.PartialFill

/-!
# What an allocator fills

Whole amounts that an allocator divides short: each claim is filled between nothing and its amount,
and together they are filled the units to divide, or at most these when the policy is `:floor`.

* `Fills`            this condition on an allotment;
* `allocate_fills`   it holds for every rounding policy.
-/

namespace PRF.Yield
open LongArith

section
variable {κ : Type} {total : ℚ} {claims : List (Claim κ)} {a : Allotment κ}

/-- amounts of whole units -/
def Whole (claims : List (Claim κ)) : Prop := ∀ claim ∈ claims, ∃ n : ℤ, claim.amount = n

/-- units divided over claims, none above its amount -/
structure Fills (units : ℤ) (exact : Prop) (claims : List (Claim κ)) (as : List (Allotted κ)) :
    Prop where
  perm : (as.map Allotted.claim).Perm claims
  bounds : ∀ x ∈ as, 0 ≤ x.filled ∧ (x.filled : ℚ) ≤ x.claim.amount
  sum_le : (as.map Allotted.filled).sum ≤ units
  sum_eq : exact → (as.map Allotted.filled).sum = units

theorem Divides.sum_filled (h : Divides total claims a) (hs : claimsTotal claims ≠ 0) :
    (a.allocations.map Allotted.filled).sum = ⌊total⌋ := by
  rw [h.filled_eq]
  exact sum_roundedShares (sum_ideals hs) (ideals_ne_nil hs)

theorem ideal_le (h0 : 0 ≤ total) (hle : total ≤ claimsTotal claims)
    (hs : claimsTotal claims ≠ 0) {claim : Claim κ} (hc : 0 ≤ claim.amount) :
    total * (claim.amount / claimsTotal claims) ≤ claim.amount := by
  have hpos : 0 < claimsTotal claims := lt_of_le_of_ne (h0.trans hle) (Ne.symm hs)
  rw [← mul_div_assoc, div_le_iff₀ hpos, mul_comm]
  exact mul_le_mul_of_nonneg_left hle hc

theorem mem_zip_bounds (hadm : Admitted claims) (hw : Whole claims) (h0 : 0 ≤ total)
    (hle : total ≤ claimsTotal claims) (hs : claimsTotal claims ≠ 0) (i : ℕ)
    (hi : i < claims.length) :
    0 ≤ Quota.share (fun i => (ideals total claims).getD i 0) total
        (List.range (ideals total claims).length) i ∧
      ((Quota.share (fun i => (ideals total claims).getD i 0) total
        (List.range (ideals total claims).length) i : ℤ) : ℚ) ≤ claims[i].amount := by
  have hi' : i < (ideals total claims).length := by
    rw [length_ideals]
    exact hi
  have hget : (ideals total claims).getD i 0 = total * (claims[i].amount / claimsTotal claims) := by
    rw [List.getD_eq_getElem?_getD, List.getElem?_eq_getElem hi']
    simp [ideals]
  have hmem : claims[i] ∈ claims := List.getElem_mem hi
  have hge := ideals_nonneg h0 hadm _ (List.getElem_mem hi')
  have hq : ((List.range (ideals total claims).length).map
      fun i => (ideals total claims).getD i 0).sum = total := by
    rw [map_getD_range, sum_ideals hs]
  have hceil := Quota.share_le_ceil hq i
  have hfloor : ⌊(ideals total claims).getD i 0⌋
      ≤ Quota.share (fun i => (ideals total claims).getD i 0) total
        (List.range (ideals total claims).length) i := Quota.floor_le_share i
  constructor
  · refine le_trans (Int.floor_nonneg.mpr ?_) hfloor
    rw [List.getD_eq_getElem?_getD, List.getElem?_eq_getElem hi']
    exact hge
  · obtain ⟨n, hn⟩ := hw _ hmem
    have hle' := ideal_le h0 hle hs (hadm _ hmem).1
    rw [← hget, hn] at hle'
    rw [hn]
    exact_mod_cast hceil.trans (Int.ceil_le.mpr hle')

theorem Divides.fills (h : Divides total claims a) (hadm : Admitted claims) (hw : Whole claims)
    (h0 : 0 ≤ total) (hle : total ≤ claimsTotal claims) (hs : claimsTotal claims ≠ 0)
    (exact : Prop) : Fills ⌊total⌋ exact claims a.allocations where
  perm := h.claims_eq ▸ List.Perm.refl _
  bounds := by
    intro x hx
    obtain ⟨i, hi, rfl⟩ := List.getElem_of_mem hx
    have hlen : a.allocations.length = claims.length := by
      rw [← h.claims_eq, List.length_map]
    have hi' : i < claims.length := hlen ▸ hi
    have hc : a.allocations[i].claim = claims[i] := by
      have := List.getElem_of_eq h.claims_eq (i := i) (by rw [List.length_map]; exact hi)
      rwa [List.getElem_map] at this
    have hf := List.getElem_of_eq h.filled_eq (i := i) (by rw [List.length_map]; exact hi)
    rw [List.getElem_map] at hf
    rw [hc, hf]
    unfold roundedShares
    rw [List.getElem_map, List.getElem_range]
    exact mem_zip_bounds hadm hw h0 hle hs i hi'
  sum_le := (h.sum_filled hs).le
  sum_eq := fun _ => h.sum_filled hs

theorem floors_fill (hadm : Admitted claims) (h0 : 0 ≤ total) (hle : total ≤ claimsTotal claims)
    (hs : claimsTotal claims ≠ 0) (hc : a.allocations.map Allotted.claim = claims)
    (hf : a.allocations.map Allotted.filled = (ideals total claims).map Int.floor) :
    Fills ⌊total⌋ False claims a.allocations where
  perm := hc ▸ List.Perm.refl _
  bounds := by
    intro x hx
    have hall : a.allocations.map (fun x => (x.claim, x.filled))
        = claims.map fun claim => (claim, ⌊total * (claim.amount / claimsTotal claims)⌋) := by
      have hz : a.allocations.map (fun x => (x.claim, x.filled))
          = (a.allocations.map Allotted.claim).zip (a.allocations.map Allotted.filled) := by
        rw [List.zip_map']
      rw [hz, hc, hf]
      unfold ideals
      rw [List.map_map]
      conv_lhs =>
        lhs
        rw [← List.map_id claims]
      rw [List.zip_map']
      rfl
    have hx' := List.mem_map_of_mem (f := fun x : Allotted κ => (x.claim, x.filled)) hx
    rw [hall] at hx'
    obtain ⟨claim, hclaim, he⟩ := List.mem_map.mp hx'
    obtain ⟨h1, h2⟩ := Prod.mk.inj he
    rw [← h1, ← h2]
    have hadm' := hadm claim hclaim
    constructor
    · exact Int.floor_nonneg.mpr (mul_nonneg h0 (div_nonneg hadm'.1 hadm.total_nonneg))
    · exact (Int.floor_le _).trans (ideal_le h0 hle hs hadm'.1)
  sum_le := by
    have hleft := Quota.leftover_nonneg (q := fun i => (ideals total claims).getD i 0)
      (l := List.range (ideals total claims).length) (by rw [map_getD_range, sum_ideals hs])
    rw [leftover_eq] at hleft
    rw [hf]
    omega
  sum_eq := False.elim

theorem sum_unfilled (claims : List (Claim κ)) :
    ((unfilled claims).map Allotted.filled).sum = 0 := by
  unfold unfilled
  rw [List.map_map]
  show (claims.map fun _ => (0 : ℤ)).sum = 0
  rw [List.map_const', List.sum_replicate, smul_zero]

theorem unfilled_fills (hadm : Admitted claims) (exact : Prop) :
    Fills 0 exact claims (unfilled claims) where
  perm := by
    unfold unfilled
    rw [List.map_map]
    exact (List.map_id claims).symm ▸ List.Perm.refl _
  bounds := by
    intro x hx
    obtain ⟨claim, hc, rfl⟩ := List.mem_map.mp hx
    exact ⟨le_rfl, by simpa using (hadm claim hc).1⟩
  sum_le := (sum_unfilled claims).le
  sum_eq := fun _ => sum_unfilled claims

theorem Fills.append {u v : ℤ} {exact : Prop} {cs ds : List (Claim κ)} {as bs : List (Allotted κ)}
    (h : Fills u exact cs as) (h' : Fills v exact ds bs) (hp : (cs ++ ds).Perm claims) :
    Fills (u + v) exact claims (as ++ bs) where
  perm := by
    rw [List.map_append]
    exact (h.perm.append h'.perm).trans hp
  bounds := by
    intro x hx
    rcases List.mem_append.mp hx with hx | hx
    · exact h.bounds x hx
    · exact h'.bounds x hx
  sum_le := by
    rw [List.map_append, List.sum_append]
    have := h.sum_le
    have := h'.sum_le
    omega
  sum_eq := by
    intro he
    rw [List.map_append, List.sum_append, h.sum_eq he, h'.sum_eq he]

end

/-! ## requested maps as claims -/

section
variable {m : Amounts}

/-- positive amounts whose total fits a long -/
structure Sound (m : Amounts) : Prop where
  pos : ∀ e ∈ m, 0 < e.2
  keys : (m.map Prod.fst).Nodup
  fits : m.total < 2 ^ 63

theorem Sound.amount_le (h : Sound m) {e : Bucket × ℤ} (he : e ∈ m) : e.2 ≤ m.total := by
  apply List.single_le_sum
  · intro v hv
    obtain ⟨e, he, rfl⟩ := List.mem_map.mp hv
    exact (h.pos e he).le
  · exact List.mem_map_of_mem he

theorem Sound.total_nonneg (h : Sound m) : 0 ≤ m.total := by
  apply List.sum_nonneg
  intro v hv
  obtain ⟨e, he, rfl⟩ := List.mem_map.mp hv
  exact (h.pos e he).le

theorem Sound.perm (h : Sound m) {m' : Amounts} (hp : m.Perm m') : Sound m' where
  pos := fun e he => h.pos e (hp.mem_iff.mpr he)
  keys := (hp.map Prod.fst).nodup_iff.mp h.keys
  fits := by
    have : m'.total = m.total := ((hp.map Prod.snd).sum_eq).symm
    rw [this]
    exact h.fits

theorem total_filter_le (h : ∀ e ∈ m, 0 < e.2) (p : Bucket × ℤ → Bool) :
    Amounts.total (m.filter p) ≤ m.total := by
  unfold Amounts.total
  induction m with
  | nil => exact le_rfl
  | cons e m ih =>
    have hpos := h e List.mem_cons_self
    have hm := ih fun e he => h e (List.mem_cons_of_mem _ he)
    rw [List.filter_cons]
    split
    · rw [List.map_cons, List.sum_cons, List.map_cons, List.sum_cons]
      omega
    · rw [List.map_cons, List.sum_cons]
      omega

theorem Sound.filter (h : Sound m) (p : Bucket × ℤ → Bool) : Sound (m.filter p) where
  pos := fun e he => h.pos e (List.mem_of_mem_filter he)
  keys := h.keys.sublist (List.filter_sublist.map Prod.fst)
  fits := lt_of_le_of_lt (total_filter_le h.pos p) h.fits

theorem Sound.sumRequested (h : Sound m) : sumRequested m = some m.total := by
  apply sumLongs_of
  · intro v hv
    obtain ⟨e, he, rfl⟩ := List.mem_map.mp hv
    exact (h.pos e he).le
  · exact h.fits

theorem claimsTotal_claimsOf (m : Amounts) : claimsTotal (claimsOf m) = (m.total : ℚ) := by
  unfold claimsTotal claimsOf Amounts.total
  induction m with
  | nil => rfl
  | cons e m ih =>
    rw [List.map_cons, List.map_cons, List.sum_cons, List.map_cons, List.sum_cons, ih, Int.cast_add]

theorem whole_claimsOf (m : Amounts) : Whole (claimsOf m) := by
  intro claim hc
  obtain ⟨e, _, rfl⟩ := List.mem_map.mp hc
  exact ⟨e.2, rfl⟩

theorem basis_claimsOf (m : Amounts) : ∀ claim ∈ claimsOf m, claim.basis = none := by
  intro claim hc
  obtain ⟨e, _, rfl⟩ := List.mem_map.mp hc
  rfl

theorem Sound.admitted (h : Sound m) : Admitted (claimsOf m) := by
  intro claim hc
  obtain ⟨e, he, rfl⟩ := List.mem_map.mp hc
  have hle := h.amount_le he
  have hfits := h.fits
  refine ⟨Int.cast_nonneg (h.pos e he).le, ?_⟩
  show ⌊(e.2 : ℚ)⌋ < 2 ^ 63
  rw [Int.floor_intCast]
  omega

theorem claimsOf_filter (m : Amounts) (p : Bucket → Bool) :
    (claimsOf m).filter (fun claim => p claim.key) = claimsOf (m.filter fun e => p e.1) := by
  unfold claimsOf
  rw [List.filter_map]
  rfl

theorem claimsOf_perm {m' : Amounts} (hp : m.Perm m') : (claimsOf m).Perm (claimsOf m') :=
  hp.map _

section
variable {t : ℤ}

theorem cast_facts (ht : 0 ≤ t) (hlt : t ≤ m.total) (h : Sound m) (hs : m.total ≠ 0) :
    (0 : ℚ) ≤ t ∧ ⌊(t : ℚ)⌋ < 2 ^ 63 ∧ (t : ℚ) ≤ claimsTotal (claimsOf m) ∧
      claimsTotal (claimsOf m) ≠ 0 ∧ ⌊claimsTotal (claimsOf m)⌋ < 2 ^ 63 := by
  rw [claimsTotal_claimsOf, Int.floor_intCast, Int.floor_intCast]
  have hfits := h.fits
  exact ⟨Int.cast_nonneg ht, by omega, Int.cast_le.mpr hlt, Int.cast_ne_zero.mpr hs, hfits⟩

theorem floorAndCarry_fills (ht : 0 ≤ t) (hlt : t ≤ m.total) (h : Sound m) (hs : m.total ≠ 0) :
    ∃ a, floorAndCarryAlloc (t : ℚ) (claimsOf m) = some a ∧
      Fills t True (claimsOf m) a.allocations := by
  obtain ⟨h0, htop, hle, hne, -⟩ := cast_facts ht hlt h hs
  obtain ⟨a, ha, hd⟩ := floorAndCarryAlloc_divides h0 htop h.admitted hne
  have hf := hd.fills h.admitted (whole_claimsOf m) h0 hle hne True
  rw [Int.floor_intCast] at hf
  exact ⟨a, ha, hf⟩

theorem largestRemainder_fills (ht : 0 ≤ t) (hlt : t ≤ m.total) (h : Sound m)
    (hs : m.total ≠ 0) :
    ∃ a, largestRemainderAlloc (t : ℚ) (claimsOf m) = some a ∧
      Fills t True (claimsOf m) a.allocations := by
  obtain ⟨h0, htop, hle, hne, htop'⟩ := cast_facts ht hlt h hs
  obtain ⟨a, ha, hd⟩ :=
    largestRemainderAlloc_divides h0 htop h.admitted (basis_claimsOf m) hne htop'
  have hf := hd.fills h.admitted (whole_claimsOf m) h0 hle hne True
  rw [Int.floor_intCast] at hf
  exact ⟨a, ha, hf⟩

theorem floor_fills (ht : 0 ≤ t) (hlt : t ≤ m.total) (h : Sound m) (hs : m.total ≠ 0) :
    ∃ a, floorAlloc (t : ℚ) (claimsOf m) = some a ∧
      Fills t False (claimsOf m) a.allocations := by
  obtain ⟨h0, htop, hle, hne, -⟩ := cast_facts ht hlt h hs
  obtain ⟨a, ha, hc, hf⟩ := floorAlloc_floors h0 htop h.admitted hne
  have hfill := floors_fill h.admitted h0 hle hne hc hf
  rw [Int.floor_intCast] at hfill
  exact ⟨a, ha, hfill⟩

theorem total_filter_add (m : Amounts) (p : Bucket × ℤ → Bool) :
    Amounts.total (m.filter p) + Amounts.total (m.filter fun e => !p e) = m.total :=
  Apportion.sum_filter_add m p Prod.snd

theorem Sound.total_eq_zero_iff (h : Sound m) : m.total = 0 ↔ m = [] := by
  constructor
  · intro h0
    cases m with
    | nil => rfl
    | cons e m =>
      have := h.pos e List.mem_cons_self
      have := h.amount_le List.mem_cons_self
      omega
  · rintro rfl
    rfl

theorem quantize_total (h : Sound m) :
    quantizeBaseUnits (((claimsOf m).map Claim.amount).sum) = some (m.total, 0) := by
  have hsum : ((claimsOf m).map Claim.amount).sum = (m.total : ℚ) := claimsTotal_claimsOf m
  rw [hsum, quantizeBaseUnits_of (Int.cast_nonneg h.total_nonneg)
    (by rw [Int.floor_intCast]; exact h.fits), Int.floor_intCast, Int.fract_intCast]

theorem Fills.sumLongs {exact : Prop} {claims : List (Claim Bucket)}
    {as : List (Allotted Bucket)} (h : Fills t exact claims as) (ht : t < 2 ^ 63) :
    sumLongs (as.map Allotted.filled) = some (as.map Allotted.filled).sum := by
  apply sumLongs_of
  · intro u hu
    obtain ⟨x, hx, rfl⟩ := List.mem_map.mp hu
    exact (h.bounds x hx).1
  · exact lt_of_le_of_lt h.sum_le ht

theorem Fills.sum_nonneg {exact : Prop} {claims : List (Claim Bucket)}
    {as : List (Allotted Bucket)} (h : Fills t exact claims as) :
    0 ≤ (as.map Allotted.filled).sum := by
  apply List.sum_nonneg
  intro u hu
  obtain ⟨x, hx, rfl⟩ := List.mem_map.mp hu
  exact (h.bounds x hx).1

theorem principalProtective_fills (ht : 0 ≤ t) (hlt : t ≤ m.total) (h : Sound m)
    (hs : m.total ≠ 0) :
    ∃ a, principalProtectiveFloorAlloc (t : ℚ) (claimsOf m) (fun claim => claim.key = .principal)
        = some a ∧ Fills t True (claimsOf m) a.allocations := by
  obtain ⟨h0, htop, -, -, -⟩ := cast_facts ht hlt h hs
  let P : Amounts := m.filter fun e => e.1 = .principal
  let Y : Amounts := m.filter fun e => !decide (e.1 = .principal)
  have hP : Sound P := h.filter _
  have hY : Sound Y := h.filter _
  have hPY : P.total + Y.total = m.total := total_filter_add m fun e => decide (e.1 = .principal)
  have hP0 := hP.total_nonneg
  have hY0 := hY.total_nonneg
  have hfits := h.fits
  have hcP : (claimsOf m).filter (fun claim => decide (claim.key = .principal)) = claimsOf P :=
    claimsOf_filter m fun k => decide (k = .principal)
  have hcY : (claimsOf m).filter (fun claim => !decide (claim.key = .principal)) = claimsOf Y :=
    claimsOf_filter m fun k => !decide (k = .principal)
  -- the principal part
  have hprincipal : ∃ as, cond (claimsOf P).isEmpty (some [])
      ((floorAndCarryAlloc ((min t P.total : ℤ) : ℚ) (claimsOf P)).map Allotment.allocations)
        = some as ∧ Fills (min t P.total) True (claimsOf P) as := by
    by_cases hnil : P = []
    · rw [hnil]
      refine ⟨[], rfl, ?_⟩
      have h0 : min t (Amounts.total []) = 0 := min_eq_right ht
      rw [h0]
      exact unfilled_fills (show Admitted (claimsOf []) from nofun) True
    · have hne : P.total ≠ 0 := fun h0 => hnil (hP.total_eq_zero_iff.mp h0)
      obtain ⟨a, ha, hf⟩ := floorAndCarry_fills (le_min ht hP0) (min_le_right t P.total) hP hne
      refine ⟨a.allocations, ?_, hf⟩
      have hb : (claimsOf P).isEmpty = false := by simpa [claimsOf] using hnil
      rw [hb, ha]
      rfl
  -- the part of the others
  have hyield : ∃ as, cond (!(claimsOf Y).isEmpty && decide (0 < t - min t P.total))
      ((largestRemainderAlloc ((t - min t P.total : ℤ) : ℚ) (claimsOf Y)).map Allotment.allocations)
      (some (unfilled (claimsOf Y)))
        = some as ∧ Fills (t - min t P.total) True (claimsOf Y) as := by
    by_cases hpos : 0 < t - min t P.total
    · have hne : Y.total ≠ 0 := by omega
      have hnil : Y ≠ [] := fun h0 => hne (hY.total_eq_zero_iff.mpr h0)
      obtain ⟨a, ha, hf⟩ := largestRemainder_fills hpos.le (show _ ≤ Y.total by omega) hY hne
      refine ⟨a.allocations, ?_, hf⟩
      have hb : (claimsOf Y).isEmpty = false := by simpa [claimsOf] using hnil
      rw [hb, decide_eq_true hpos, ha]
      rfl
    · refine ⟨unfilled (claimsOf Y), by rw [decide_eq_false hpos, Bool.and_false]; rfl, ?_⟩
      rw [show t - min t P.total = 0 by omega]
      exact unfilled_fills hY.admitted True
  obtain ⟨ps, hps, hfp⟩ := hprincipal
  obtain ⟨ys, hys, hfy⟩ := hyield
  have hperm : (claimsOf P ++ claimsOf Y).Perm (claimsOf m) := by
    rw [← hcP, ← hcY]
    exact List.filter_append_perm _ _
  have hfills := hfp.append hfy hperm
  rw [show min t P.total + (t - min t P.total) = t by omega] at hfills
  have hsp := hfp.sum_nonneg
  have hsy := hfy.sum_nonneg
  have hsp' := hfp.sum_le
  have hsy' := hfy.sum_le
  refine ⟨⟨ps ++ ys, t, (ps.map Allotted.filled).sum + (ys.map Allotted.filled).sum,
    t - ((ps.map Allotted.filled).sum + (ys.map Allotted.filled).sum), 0⟩, ?_, hfills⟩
  unfold principalProtectiveFloorAlloc
  rw [hcP, hcY, ratio_of h0 htop]
  simp only [Option.bind_eq_bind, Option.bind_some, quantizeBaseUnits_of h0 htop,
    Int.floor_intCast, mapM_ratio hP.admitted, quantize_total hP,
    long?_nonneg (show 0 ≤ t - min t P.total by omega) (by omega),
    max_eq_right (show 0 ≤ t - min t P.total by omega)]
  rw [hps, hys]
  simp only [Option.bind_some, hfp.sumLongs (by omega), hfy.sumLongs (by omega)]
  rw [long?_nonneg (by omega) (by omega)]
  simp only [Option.bind_some]
  rw [long?_nonneg (by omega) (by omega)]
  rfl

/-- **Every allocator fills its claims within their amounts, and all but `:floor` fill exactly the
units to divide.** -/
theorem allocate_fills (rounding : Rounding) (ht : 0 ≤ t) (hlt : t ≤ m.total) (h : Sound m)
    (hs : m.total ≠ 0) :
    ∃ a, allocate rounding t (claimsOf m) = some a ∧
      Fills t (rounding ≠ .floor) (claimsOf m) a.allocations := by
  have hweaken : ∀ {as}, Fills t True (claimsOf m) as →
      Fills t (rounding ≠ .floor) (claimsOf m) as :=
    fun hf => ⟨hf.perm, hf.bounds, hf.sum_le, fun _ => hf.sum_eq trivial⟩
  cases rounding with
  | floor =>
    obtain ⟨a, ha, hf⟩ := floor_fills ht hlt h hs
    exact ⟨a, ha, hf.perm, hf.bounds, hf.sum_le, fun hne => absurd rfl hne⟩
  | largestRemainder =>
    obtain ⟨a, ha, hf⟩ := largestRemainder_fills ht hlt h hs
    exact ⟨a, ha, hweaken hf⟩
  | principalProtectiveFloor =>
    obtain ⟨a, ha, hf⟩ := principalProtective_fills ht hlt h hs
    exact ⟨a, ha, hweaken hf⟩
  | floorAndCarry =>
    obtain ⟨a, ha, hf⟩ := floorAndCarry_fills ht hlt h hs
    exact ⟨a, ha, hweaken hf⟩
  | other name =>
    obtain ⟨a, ha, hf⟩ := floorAndCarry_fills ht hlt h hs
    exact ⟨a, ha, hweaken hf⟩

end

end

end PRF.Yield
