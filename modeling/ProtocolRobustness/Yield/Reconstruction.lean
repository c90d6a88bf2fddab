import ProtocolRobustness.Yield.Settlement

/-!
# Two engines on one decision

The verifier rebuilds the fills of a decision from the available liquidity, the requested map and
the policy.  It reports nothing exactly when its fills are those of the decision.

* `settles_agrees_iff`   this, for a decision of the producer;
* `SplitTie`             equal remainders of the realized and the deferred yield, with a unit for
                         one of the two;
* `reconstruction_agrees_iff`            the engines differ in principal-first exactly there, and on
                                         a negative liquidity;
* `reconstruction_agrees_counterexample` one unit over two equal yields.
-/

namespace PRF.Yield
open LongArith Amounts Bytes

/-! ## the comparison -/

theorem mismatch_eq_nil_iff (field : Field) (agrees : Bool) (expected actual : FieldValue) :
    mismatch field agrees expected actual = [] ↔ agrees = true := by
  unfold mismatch
  cases agrees with
  | false => exact iff_of_false nofun nofun
  | true => exact iff_of_true rfl rfl

theorem mismatchesOf_eq_nil_iff (available : ℤ) (policy : Policy) (e : Expected) (d : Decision) :
    mismatchesOf available policy e d = [] ↔
      e.settlementMode = d.settlementMode ∧ e.requested.same d.requested = true ∧
      e.filled.nonzero.same d.filled.nonzero = true ∧
      e.deferred.nonzero.same d.deferred.nonzero = true ∧
      e.haircut.nonzero.same d.haircut.nonzero = true ∧
      e.unrealized.nonzero.same d.unrealized.nonzero = true ∧
      policy = d.policy ∧ available = d.evidence.availableLiquidity := by
  unfold mismatchesOf
  simp only [List.append_eq_nil_iff, mismatch_eq_nil_iff, decide_eq_true_eq, and_assoc]

section
variable {tieKey : Bucket → ByteString} {m filled : Amounts} {available : ℤ} {policy : Policy}
  {d : Decision}

theorem expectedMode_iff (h : Sound m) {f deferred : Amounts} (hw : Within m f)
    (hk : deferred.map Prod.fst = m.map Prod.fst)
    (hd : ∀ k, amountOf deferred k = amountOf m k - amountOf f k) :
    (if deferred.any fun e => 0 < e.2 then SettlementMode.partialFill else .fullFill) = .fullFill
      ↔ ∀ k, amountOf deferred k = 0 := by
  have hn : (deferred.map Prod.fst).Nodup := hk ▸ h.keys
  have hany : (deferred.any fun e => 0 < e.2) = true ↔ ¬ ∀ k, amountOf deferred k = 0 := by
    rw [List.any_eq_true]
    constructor
    · rintro ⟨⟨k, v⟩, he, hv⟩ h0
      have := h0 k
      rw [amountOf_of_mem hn he] at this
      have hv' : 0 < v := of_decide_eq_true hv
      omega
    · intro h0
      rw [not_forall] at h0
      obtain ⟨k, hk0⟩ := h0
      rcases amountOf_cases hn k with hmem | ⟨-, hz⟩
      · have hb := hw.bounds k
        have := hd k
        exact ⟨_, hmem, decide_eq_true (show 0 < amountOf deferred k by omega)⟩
      · exact absurd hz hk0
  split
  · next hp => exact iff_of_false nofun (hany.mp hp)
  · next hp => exact iff_of_true rfl (not_not.mp (mt hany.mpr hp))

/-- **The verifier reports nothing exactly when its fills are those of the decision.** -/
theorem settles_agrees_iff (h : Sound m) (hd : Decides available m filled policy d) {f : Amounts}
    (hf : reconstructFilled tieKey available m policy = some f) (hw : Within m f) :
    (∃ r, semanticReconstruction tieKey available d.requested d.policy d = some r ∧
        r.mismatches = []) ↔
      ∀ k, amountOf f k = amountOf filled k := by
  obtain ⟨deferred, hdo, hdk, hdv⟩ := deferredOf_of h f fun k _ => hw.bounds k
  have hdf := deferred_eq hw hdv
  have hn : (deferred.map Prod.fst).Nodup := hdk ▸ h.keys
  have hrun : ∀ r, semanticReconstruction tieKey available d.requested d.policy d = some r ↔
      r = ⟨⟨if deferred.any fun e => 0 < e.2 then .partialFill else .fullFill, m, f, deferred, [],
        []⟩, mismatchesOf available policy
        ⟨if deferred.any fun e => 0 < e.2 then .partialFill else .fullFill, m, f, deferred, [], []⟩
        d⟩ := by
    intro r
    unfold semanticReconstruction
    rw [hd.requested_eq, hd.policy_eq, hf]
    simp only [Option.bind_eq_bind, Option.bind_some, hdo]
    rw [Option.some_inj, eq_comm]
  simp only [hrun, exists_eq_left, mismatchesOf_eq_nil_iff]
  have hkeys : (d.filled.map Prod.fst).Nodup := hd.filled_eq.symm ▸ hd.within.keys
  rw [same_nonzero_iff hw.keys hkeys, same_nonzero_iff hn hd.deferred_keys, hd.filled_eq,
    hd.requested_eq, hd.haircut_eq, hd.unrealized_eq, hd.policy_eq, hd.liquidity_eq]
  constructor
  · rintro ⟨-, -, hfill, -⟩
    exact hfill
  · intro hfill
    have hdef : ∀ k, amountOf deferred k = amountOf d.deferred k := by
      intro k
      rw [hdf k, hd.deferred_eq k, hfill k]
    refine ⟨?_, (same_iff m m).mpr fun _ => rfl, hfill, hdef, rfl, rfl, rfl, rfl⟩
    -- the modes agree: each is full fill when nothing is deferred
    have h1 := expectedMode_iff h hw hdk hdf
    have h2 := (hd.settles h).mode_iff
    simp only [hdef] at h1
    have h12 := h1.trans h2.symm
    cases hm : d.settlementMode with
    | fullFill => exact h12.mpr hm
    | partialFill =>
      by_contra hne
      have hfull : (if deferred.any fun e => 0 < e.2 then SettlementMode.partialFill
          else .fullFill) = .fullFill := by
        split at hne
        · exact absurd rfl hne
        · next hp => exact if_neg hp
      rw [h12.mp hfull] at hm
      cases hm

/-! ## the modes that agree -/

theorem reconstructLoop_of {buckets : List Bucket} {remaining : ℤ} {f g f' g' : Amounts}
    (h : waterfallLoop m remaining f g buckets = some (f', g')) :
    reconstructLoop m remaining buckets f = some f' := by
  induction buckets generalizing remaining f g with
  | nil =>
    unfold waterfallLoop at h
    cases h
    rfl
  | cons bucket buckets ih =>
    unfold waterfallLoop at h
    unfold reconstructLoop
    by_cases hr : remaining = 0
    · rw [if_pos hr] at h ⊢
      cases h
      rfl
    · rw [if_neg hr] at h ⊢
      simp only [Option.bind_eq_bind, Option.bind_eq_some_iff] at h ⊢
      obtain ⟨left, hleft, short, -, hrec⟩ := h
      exact ⟨left, hleft, ih hrec⟩

theorem reconstruct_full (h : Sound m) (hle : m.total ≤ available) :
    reconstructFilled tieKey available m policy = some m := by
  unfold reconstructFilled
  rw [h.sumRequested]
  exact if_pos hle

theorem reconstruct_short (h : Sound m) (hlt : ¬ m.total ≤ available) :
    reconstructFilled tieKey available m policy = match policy.mode with
      | .proRata => (allocate policy.roundingPolicy available
          (claimsOf (byTieKey tieKey m))).map filledOf
      | .principalFirst => reconstructPrincipalFirst tieKey available m policy
      | .waterfall => reconstructLoop m available policy.fillOrder [] := by
  unfold reconstructFilled
  rw [h.sumRequested]
  exact if_neg hlt

end

/-! ## who gets the units -/

section
variable {A : Amounts} {t : ℤ}

theorem principalProtective_divides (h : Sound A) (hp : Bucket.principal ∉ A.map Prod.fst)
    (ht : 0 < t) (hle : t ≤ A.total) :
    ∃ a, principalProtectiveFloorAlloc (t : ℚ) (claimsOf A) (fun claim => claim.key = .principal)
        = some a ∧ Divides t (claimsOf A) a := by
  obtain ⟨h0, htop, -, hne, htop'⟩ := cast_facts ht.le hle h (by omega)
  obtain ⟨a, ha, hd⟩ :=
    largestRemainderAlloc_divides h0 htop h.admitted (basis_claimsOf A) hne htop'
  have hnone : (claimsOf A).filter (fun claim => decide (claim.key = .principal)) = [] := by
    rw [List.filter_eq_nil_iff]
    intro claim hc hk
    obtain ⟨e, he, rfl⟩ := List.mem_map.mp hc
    exact hp ((of_decide_eq_true hk) ▸ List.mem_map_of_mem he)
  have hall : (claimsOf A).filter (fun claim => !decide (claim.key = .principal)) = claimsOf A := by
    rw [List.filter_eq_self]
    intro claim hc
    obtain ⟨e, he, rfl⟩ := List.mem_map.mp hc
    rw [decide_eq_false]
    · rfl
    · exact fun hk => hp (hk ▸ List.mem_map_of_mem he)
  have hnil : (claimsOf A).isEmpty = false := by
    cases hA : A with
    | nil =>
      rw [hA] at hle
      exact absurd hle (not_le.mpr ht)
    | cons e A => rfl
  have hfill := hd.fills h.admitted (whole_claimsOf A) h0 (by
    rw [claimsTotal_claimsOf]
    exact_mod_cast hle) hne True
  rw [Int.floor_intCast] at hfill
  have hsum := hfill.sumLongs (by have := h.fits; omega)
  rw [hfill.sum_eq trivial] at hsum
  have hfits := h.fits
  refine ⟨⟨a.allocations, t, t, 0, 0⟩, ?_, hd.claims_eq, hd.filled_eq⟩
  have hz : quantizeBaseUnits (([] : List ℚ).sum) = some (0, 0) := by
    rw [List.sum_nil, quantizeBaseUnits_of le_rfl (by norm_num)]
    norm_num
  unfold principalProtectiveFloorAlloc
  simp only [hnone, hall, ratio_of h0 htop, quantizeBaseUnits_of h0 htop, Int.floor_intCast,
    Option.bind_eq_bind, Option.bind_some, List.mapM_nil, Option.pure_def, hz,
    min_eq_right ht.le, sub_zero, long?_nonneg ht.le (lt_of_le_of_lt hle hfits),
    max_eq_right ht.le, hnil, decide_eq_true ht]
  show (((largestRemainderAlloc (t : ℚ) (claimsOf A)).map Allotment.allocations).bind _) = _
  rw [ha]
  show ((sumLongs (a.allocations.map Allotted.filled)).bind _) = _
  rw [hsum]
  show ((long? (0 + t)).bind _) = _
  rw [zero_add, long?_nonneg ht.le (by omega)]
  show ((long? (t - t)).bind _) = _
  rw [sub_self, long?_nonneg le_rfl (by norm_num)]
  rfl

theorem allocate_divides {rounding : Rounding} (hr : rounding ≠ .floor) (h : Sound A)
    (hp : Bucket.principal ∉ A.map Prod.fst) (ht : 0 < t) (hle : t ≤ A.total) :
    ∃ a, allocate rounding t (claimsOf A) = some a ∧ Divides t (claimsOf A) a := by
  obtain ⟨h0, htop, -, hne, htop'⟩ := cast_facts ht.le hle h (by omega)
  cases rounding with
  | floor => exact absurd rfl hr
  | largestRemainder =>
    exact largestRemainderAlloc_divides h0 htop h.admitted (basis_claimsOf A) hne htop'
  | principalProtectiveFloor => exact principalProtective_divides h hp ht hle
  | floorAndCarry => exact floorAndCarryAlloc_divides h0 htop h.admitted hne
  | other name => exact floorAndCarryAlloc_divides h0 htop h.admitted hne

theorem ideals_claimsOf (t : ℚ) (A : Amounts) :
    ideals t (claimsOf A) = A.map fun e => t * (e.2 / A.total) := by
  unfold ideals
  rw [claimsTotal_claimsOf]
  unfold claimsOf
  rw [List.map_map]
  rfl

/-- the pairs of a filled map -/
theorem Divides.pairs {a : Allotment Bucket} (h : Sound A) (hd : Divides t (claimsOf A) a)
    (hf : Fills t True (claimsOf A) a.allocations) :
    filledOf a = (A.map Prod.fst).zip (roundedShares t (ideals t (claimsOf A))) := by
  rw [hf.filledOf_eq h, ← hd.filled_eq]
  have hk : A.map Prod.fst = a.allocations.map fun x => x.claim.key := by
    have := congrArg (List.map Claim.key) hd.claims_eq
    rw [List.map_map] at this
    unfold claimsOf at this
    rw [List.map_map] at this
    exact this.symm
  rw [hk, List.zip_map']

end

/-! ## two yields in two orders -/

/-- the units of three claimants in the two orders of the first two, by their fractional parts:
who comes first only matters when the two tie and one of them is left out -/
theorem split_iff {x y z : ℚ} {n : ℕ} (hx : 0 ≤ x ∧ x < 1) (hy : 0 ≤ y ∧ y < 1)
    (hz : 0 ≤ z ∧ z < 1) (hn : (n : ℚ) = x + y + z) :
    (((if x < y then 1 else 0) + (if x < z then 1 else 0) < n ↔
        (if x < z then 1 else 0) + (if x ≤ y then 1 else 0) < n) ∧
      ((if y < z then 1 else 0) + (if y ≤ x then 1 else 0) < n ↔
        (if y < x then 1 else 0) + (if y < z then 1 else 0) < n)) ↔
      ¬ (x = y ∧ 1 ≤ 3 * x ∧ 3 * x < 2) := by
  rcases lt_trichotomy x y with h | h | h
  · rw [if_pos h, if_pos h.le, if_neg h.not_ge, if_neg h.not_gt, add_comm 1]
    exact iff_of_true ⟨Iff.rfl, by rw [add_comm]⟩ fun hc => h.ne hc.1
  · subst h
    rw [if_neg (lt_irrefl x), if_pos le_rfl]
    have h3 : n < 3 := by
      have : (n : ℚ) < 3 := by linarith [hx.2, hz.2]
      exact_mod_cast this
    by_cases hxz : x < z
    · rw [if_pos hxz]
      interval_cases n
      · refine iff_of_true (by omega) fun hc => ?_
        push_cast at hn
        linarith [hc.2.1]
      · refine iff_of_true (by omega) fun hc => ?_
        push_cast at hn
        linarith [hc.2.1]
      · refine iff_of_false (by omega) fun hc => hc ⟨rfl, ?_, ?_⟩
        · push_cast at hn
          linarith [hz.2]
        · push_cast at hn
          linarith
    · rw [if_neg hxz]
      rw [not_lt] at hxz
      interval_cases n
      · refine iff_of_true (by omega) fun hc => ?_
        push_cast at hn
        linarith [hc.2.1]
      · refine iff_of_false (by omega) fun hc => hc ⟨rfl, ?_, ?_⟩
        · push_cast at hn
          linarith
        · push_cast at hn
          linarith [hz.1]
      · refine iff_of_true (by omega) fun hc => ?_
        push_cast at hn
        linarith [hc.2.2]
  · rw [if_neg h.not_gt, if_neg h.not_ge, if_pos h.le, if_pos h]
    exact iff_of_true ⟨by rw [add_comm], by rw [add_comm]⟩ fun hc => h.ne' hc.1

section
variable {t : ℚ} {x y z : ℚ}

theorem before_two (q : ℕ → ℚ) :
    Quota.before q (List.range 2) 0 = (if Int.fract (q 0) < Int.fract (q 1) then 1 else 0) ∧
      Quota.before q (List.range 2) 1 = if Int.fract (q 1) ≤ Int.fract (q 0) then 1 else 0 := by
  show Quota.before q [0, 1] 0 = _ ∧ Quota.before q [0, 1] 1 = _
  simp [Quota.before, List.countP_cons]

theorem before_three (q : ℕ → ℚ) :
    Quota.before q (List.range 3) 0 = (if Int.fract (q 0) < Int.fract (q 1) then 1 else 0)
        + (if Int.fract (q 0) < Int.fract (q 2) then 1 else 0) ∧
      Quota.before q (List.range 3) 1 = (if Int.fract (q 1) < Int.fract (q 2) then 1 else 0)
        + (if Int.fract (q 1) ≤ Int.fract (q 0) then 1 else 0) ∧
      Quota.before q (List.range 3) 2 = (if Int.fract (q 2) ≤ Int.fract (q 1) then 1 else 0)
        + if Int.fract (q 2) ≤ Int.fract (q 0) then 1 else 0 := by
  show Quota.before q [0, 1, 2] 0 = _ ∧ Quota.before q [0, 1, 2] 1 = _ ∧
    Quota.before q [0, 1, 2] 2 = _
  refine ⟨?_, ?_, ?_⟩
  · simp [Quota.before, List.countP_cons, add_comm]
  · simp [Quota.before, List.countP_cons]
  · simp [Quota.before]

/-- the units above the floors of a list of exact shares -/
def unitsOver (t : ℚ) (ideal : List ℚ) : ℕ := (⌊t⌋ - (ideal.map Int.floor).sum).toNat

theorem roundedShares_two (t x y : ℚ) :
    roundedShares t [x, y] =
      [⌊x⌋ + (if (if Int.fract x < Int.fract y then 1 else 0) < unitsOver t [x, y]
        then 1 else 0),
       ⌊y⌋ + if (if Int.fract y ≤ Int.fract x then 1 else 0) < unitsOver t [x, y]
        then 1 else 0] := by
  have hleft : (Quota.leftover (fun i => [x, y].getD i 0) t (List.range 2)).toNat
      = unitsOver t [x, y] := congrArg Int.toNat (leftover_eq t [x, y])
  obtain ⟨h0, h1⟩ := before_two fun i => [x, y].getD i 0
  show [Quota.share _ t (List.range 2) 0, Quota.share _ t (List.range 2) 1] = _
  rw [Quota.share_eq List.nodup_range (by decide), Quota.share_eq List.nodup_range (by decide),
    hleft, h0, h1]
  rfl

theorem roundedShares_three (t x y z : ℚ) :
    roundedShares t [x, y, z] =
      [⌊x⌋ + (if (if Int.fract x < Int.fract y then 1 else 0)
          + (if Int.fract x < Int.fract z then 1 else 0) < unitsOver t [x, y, z] then 1 else 0),
       ⌊y⌋ + (if (if Int.fract y < Int.fract z then 1 else 0)
          + (if Int.fract y ≤ Int.fract x then 1 else 0) < unitsOver t [x, y, z] then 1 else 0),
       ⌊z⌋ + if (if Int.fract z ≤ Int.fract y then 1 else 0)
          + (if Int.fract z ≤ Int.fract x then 1 else 0) < unitsOver t [x, y, z]
        then 1 else 0] := by
  have hleft : (Quota.leftover (fun i => [x, y, z].getD i 0) t (List.range 3)).toNat
      = unitsOver t [x, y, z] := congrArg Int.toNat (leftover_eq t [x, y, z])
  obtain ⟨h0, h1, h2⟩ := before_three fun i => [x, y, z].getD i 0
  show [Quota.share _ t (List.range 3) 0, Quota.share _ t (List.range 3) 1,
    Quota.share _ t (List.range 3) 2] = _
  rw [Quota.share_eq List.nodup_range (by decide), Quota.share_eq List.nodup_range (by decide),
    Quota.share_eq List.nodup_range (by decide), hleft, h0, h1, h2]
  rfl

theorem unitsOver_cast {t : ℤ} {ideal : List ℚ} (hsum : ideal.sum = t) :
    (unitsOver t ideal : ℚ) = (ideal.map Int.fract).sum := by
  have hadd := Quota.sum_floor_add_fract (fun x : ℚ => x) ideal
  have hnn := Quota.sum_fract_nonneg (fun x : ℚ => x) ideal
  rw [List.map_id', hsum] at hadd
  have hle : (ideal.map Int.floor).sum ≤ t := by
    have : (((ideal.map Int.floor).sum : ℤ) : ℚ) ≤ t := by linarith
    exact_mod_cast this
  unfold unitsOver
  rw [Int.floor_intCast]
  have hcast : ((t - (ideal.map Int.floor).sum).toNat : ℤ) = t - (ideal.map Int.floor).sum :=
    Int.toNat_of_nonneg (by omega)
  have hq : ((t - (ideal.map Int.floor).sum).toNat : ℚ) = ((t - (ideal.map Int.floor).sum : ℤ) : ℚ) := by
    exact_mod_cast hcast
  rw [hq, Int.cast_sub]
  linarith

theorem fract_share (t v : ℤ) {s : ℤ} (hs : 0 < s) :
    Int.fract ((t : ℚ) * ((v : ℚ) / s)) = ((t * v % s : ℤ) : ℚ) / s := by
  obtain ⟨n, rfl⟩ := Int.eq_ofNat_of_zero_le hs.le
  rw [← mul_div_assoc, ← Int.cast_mul]
  exact Int.fract_div_intCast_eq_div_intCast_mod

/-- a tie of remainders with a unit for one of the two -/
def Tied (t a b s : ℤ) : Prop := t * a % s = t * b % s ∧ s ≤ 3 * (t * a % s) ∧ 3 * (t * a % s) < 2 * s

instance (t a b s : ℤ) : Decidable (Tied t a b s) := inferInstanceAs (Decidable (_ ∧ _ ∧ _))

theorem tied_iff (t a b : ℤ) {s : ℤ} (hs : 0 < s) :
    Tied t a b s ↔ Int.fract ((t : ℚ) * ((a : ℚ) / s)) = Int.fract ((t : ℚ) * ((b : ℚ) / s)) ∧
      1 ≤ 3 * Int.fract ((t : ℚ) * ((a : ℚ) / s)) ∧ 3 * Int.fract ((t : ℚ) * ((a : ℚ) / s)) < 2 := by
  have hq : (0 : ℚ) < s := Int.cast_pos.mpr hs
  rw [fract_share t a hs, fract_share t b hs, div_left_inj' hq.ne', Int.cast_inj, ← mul_div_assoc,
    le_div_iff₀ hq, div_lt_iff₀ hq, one_mul]
  unfold Tied
  constructor
  · rintro ⟨h1, h2, h3⟩
    exact ⟨h1, by exact_mod_cast h2, by exact_mod_cast h3⟩
  · rintro ⟨h1, h2, h3⟩
    exact ⟨h1, by exact_mod_cast h2, by exact_mod_cast h3⟩

/-- the requested yields, the realized one before the deferred one or after it -/
def pairOf (a b : ℤ) (rest : Amounts) : Amounts :=
  (.realizedYield, a) :: (.deferredYield, b) :: rest
def pairOf' (a b : ℤ) (rest : Amounts) : Amounts :=
  (.deferredYield, b) :: (.realizedYield, a) :: rest

theorem pairOf_perm (a b : ℤ) (rest : Amounts) : (pairOf a b rest).Perm (pairOf' a b rest) :=
  List.Perm.swap _ _ _

theorem pairOf_total (a b : ℤ) (rest : Amounts) :
    (pairOf' a b rest).total = (pairOf a b rest).total :=
  ((pairOf_perm a b rest).map Prod.snd).sum_eq.symm

section
variable {a b : ℤ} {rest : Amounts} {t : ℤ} {rounding : Rounding}

theorem floor_pairs {A : Amounts} (h : Sound A) (ht : 0 < t) (hle : t ≤ A.total) :
    (allocate .floor t (claimsOf A)).map filledOf
      = some (A.map fun e => (e.1, ⌊(t : ℚ) * (e.2 / A.total)⌋)) := by
  obtain ⟨h0, htop, hle', hne, -⟩ := cast_facts ht.le hle h (by omega)
  obtain ⟨x, hx, hc, hf⟩ := floorAlloc_floors h0 htop h.admitted hne
  have hfill := floors_fill h.admitted h0 hle' hne hc hf
  have hk : x.allocations.map (fun y => y.claim.key) = A.map Prod.fst := by
    have := congrArg (List.map Claim.key) hc
    rw [List.map_map] at this
    unfold claimsOf at this
    rw [List.map_map] at this
    exact this
  show (floorAlloc (t : ℚ) (claimsOf A)).map filledOf = _
  rw [hx]
  show some (filledOf x) = _
  rw [hfill.filledOf_eq h, ← List.zip_map', hk, hf, ideals_claimsOf, List.map_map, List.zip_map']
  rfl

theorem floor_agrees (h : Sound (pairOf a b rest)) (ht : 0 < t)
    (hle : t ≤ (pairOf a b rest).total) :
    ∃ f f', (allocate .floor t (claimsOf (pairOf a b rest))).map filledOf = some f ∧
      (allocate .floor t (claimsOf (pairOf' a b rest))).map filledOf = some f' ∧
      ∀ k, amountOf f k = amountOf f' k := by
  have hp := pairOf_perm a b rest
  have htot := pairOf_total a b rest
  refine ⟨_, _, floor_pairs h ht hle, floor_pairs (h.perm hp) ht (htot ▸ hle), fun k => ?_⟩
  rw [htot]
  unfold amountOf
  rw [Table.find_perm _ (hp.map _)]
  rw [List.map_map]
  exact h.keys

theorem rounded_pairs {A : Amounts} (hr : rounding ≠ .floor) (h : Sound A)
    (hp : Bucket.principal ∉ A.map Prod.fst) (ht : 0 < t) (hle : t ≤ A.total) :
    (allocate rounding t (claimsOf A)).map filledOf
      = some ((A.map Prod.fst).zip
          (roundedShares t (A.map fun e => (t : ℚ) * ((e.2 : ℚ) / A.total)))) := by
  obtain ⟨h0, -, hle', hne, -⟩ := cast_facts ht.le hle h (by omega)
  obtain ⟨x, hx, hd⟩ := allocate_divides hr h hp ht hle
  have hf := hd.fills h.admitted (whole_claimsOf A) h0 hle' hne True
  rw [Int.floor_intCast] at hf
  rw [hx]
  show some (filledOf x) = _
  rw [hd.pairs h hf, ideals_claimsOf]

theorem sum_shares {A : Amounts} (h : Sound A) (ht : 0 < t) (hle : t ≤ A.total) :
    (A.map fun e => (t : ℚ) * ((e.2 : ℚ) / A.total)).sum = t := by
  obtain ⟨-, -, -, hne, -⟩ := cast_facts ht.le hle h (by omega)
  rw [← ideals_claimsOf]
  exact sum_ideals hne

theorem add_unit_inj (n : ℤ) (p q : Prop) [Decidable p] [Decidable q] :
    (n + if p then 1 else 0) = (n + if q then 1 else 0) ↔ (p ↔ q) := by
  by_cases hp : p <;> by_cases hq : q <;> simp [hp, hq]

theorem fract_mem (x : ℚ) : 0 ≤ Int.fract x ∧ Int.fract x < 1 :=
  ⟨Int.fract_nonneg x, Int.fract_lt_one x⟩

theorem amounts_two_iff (u v u' v' : ℤ) :
    (∀ k, amountOf [(.realizedYield, u), (.deferredYield, v)] k
      = amountOf [(.deferredYield, v'), (.realizedYield, u')] k) ↔ u = u' ∧ v = v' := by
  constructor
  · exact fun h => ⟨h .realizedYield, h .deferredYield⟩
  · rintro ⟨rfl, rfl⟩ k
    simp only [amountOf_cons]
    by_cases h1 : Bucket.realizedYield = k
    · rw [if_pos h1, if_neg (by rw [← h1]; decide), if_pos h1]
    · rw [if_neg h1, if_neg h1]

theorem amounts_three_iff (u v w u' v' w' : ℤ) :
    (∀ k, amountOf [(.realizedYield, u), (.deferredYield, v), (.unrealizedYield, w)] k
      = amountOf [(.deferredYield, v'), (.realizedYield, u'), (.unrealizedYield, w')] k) ↔
      u = u' ∧ v = v' ∧ w = w' := by
  constructor
  · exact fun h => ⟨h .realizedYield, h .deferredYield, h .unrealizedYield⟩
  · rintro ⟨rfl, rfl, rfl⟩ k
    simp only [amountOf_cons]
    by_cases h1 : Bucket.realizedYield = k
    · rw [if_pos h1, if_neg (by rw [← h1]; decide), if_pos h1]
    · rw [if_neg h1, if_neg h1]

theorem split_two_iff {x y : ℚ} {n : ℕ} (hx : 0 ≤ x ∧ x < 1) (hy : 0 ≤ y ∧ y < 1)
    (hn : (n : ℚ) = x + y) :
    (((if x < y then 1 else 0) < n ↔ (if x ≤ y then 1 else 0) < n) ∧
      ((if y ≤ x then 1 else 0) < n ↔ (if y < x then 1 else 0) < n)) ↔
      ¬ (x = y ∧ 1 ≤ 3 * x ∧ 3 * x < 2) := by
  have h := split_iff hx hy (z := 0) ⟨le_rfl, one_pos⟩ (by rw [hn, add_zero])
  simpa only [if_neg hx.1.not_gt, if_neg hy.1.not_gt, add_zero, zero_add] using h

/-- **Two orders of the same yields agree unless the units end between the first two.** -/
theorem rounded_agrees_iff (hr : rounding ≠ .floor) (h : Sound (pairOf a b rest))
    (hrest : rest = [] ∨ ∃ c, rest = [(.unrealizedYield, c)]) (ht : 0 < t)
    (hle : t ≤ (pairOf a b rest).total) :
    ∃ f f', (allocate rounding t (claimsOf (pairOf a b rest))).map filledOf = some f ∧
      (allocate rounding t (claimsOf (pairOf' a b rest))).map filledOf = some f' ∧
      ((∀ k, amountOf f k = amountOf f' k) ↔ ¬ Tied t a b (pairOf a b rest).total) := by
  have hp := pairOf_perm a b rest
  have htot := pairOf_total a b rest
  have hs := h.perm hp
  have hle' : t ≤ (pairOf' a b rest).total := htot ▸ hle
  have hprin : Bucket.principal ∉ (pairOf a b rest).map Prod.fst := by
    rcases hrest with rfl | ⟨c, rfl⟩ <;> simp [pairOf]
  have hprin' : Bucket.principal ∉ (pairOf' a b rest).map Prod.fst := by
    rcases hrest with rfl | ⟨c, rfl⟩ <;> simp [pairOf']
  have hsum := sum_shares h ht hle
  have hsum' := sum_shares hs ht hle'
  refine ⟨_, _, rounded_pairs hr h hprin ht hle, rounded_pairs hr hs hprin' ht hle', ?_⟩
  rw [tied_iff t a b (lt_of_lt_of_le ht hle)]
  rw [htot] at hsum' ⊢
  generalize (pairOf a b rest).total = s at *
  rcases hrest with rfl | ⟨c, rfl⟩
  · have hn := unitsOver_cast hsum
    have hn' := unitsOver_cast hsum'
    simp only [pairOf, pairOf', List.map_cons, List.map_nil, List.sum_cons, List.sum_nil,
      add_zero] at hn hn' ⊢
    generalize (t : ℚ) * ((a : ℚ) / s) = x at *
    generalize (t : ℚ) * ((b : ℚ) / s) = y at *
    have he : unitsOver t [y, x] = unitsOver t [x, y] := by
      rw [add_comm, ← hn] at hn'
      exact_mod_cast hn'
    rw [roundedShares_two, roundedShares_two, he]
    refine (amounts_two_iff _ _ _ _).trans ?_
    rw [add_unit_inj, add_unit_inj]
    exact split_two_iff (fract_mem x) (fract_mem y) hn
  · have hn := unitsOver_cast hsum
    have hn' := unitsOver_cast hsum'
    simp only [pairOf, pairOf', List.map_cons, List.map_nil, List.sum_cons, List.sum_nil,
      add_zero] at hn hn' ⊢
    generalize (t : ℚ) * ((a : ℚ) / s) = x at *
    generalize (t : ℚ) * ((b : ℚ) / s) = y at *
    generalize (t : ℚ) * ((c : ℚ) / s) = z at *
    have he : unitsOver t [y, x, z] = unitsOver t [x, y, z] := by
      rw [← add_assoc, add_comm (Int.fract y), add_assoc, ← hn] at hn'
      exact_mod_cast hn'
    rw [roundedShares_three, roundedShares_three, he]
    refine (amounts_three_iff _ _ _ _ _ _).trans ?_
    rw [add_unit_inj, add_unit_inj, add_unit_inj]
    rw [← split_iff (fract_mem x) (fract_mem y) (fract_mem z) (by rw [hn, add_assoc])]
    constructor
    · exact fun h => ⟨h.1, h.2.1⟩
    · exact fun h => ⟨h.1, h.2, by rw [add_comm]⟩

end

end

/-! ## principal first -/

/-- the order of the canonical ids of the yields -/
structure TieOrder (tieKey : Bucket → ByteString) : Prop where
  deferred_realized : compareBytes (tieKey .deferredYield) (tieKey .realizedYield) = .lt
  realized_unrealized : compareBytes (tieKey .realizedYield) (tieKey .unrealizedYield) = .lt

section
variable {tieKey : Bucket → ByteString}

theorem TieOrder.le_realized (h : TieOrder tieKey) :
    leBytes (tieKey .deferredYield) (tieKey .realizedYield) := by
  unfold leBytes
  rw [h.deferred_realized]
  decide

theorem TieOrder.not_le (h : TieOrder tieKey) :
    ¬ leBytes (tieKey .realizedYield) (tieKey .deferredYield) := by
  unfold leBytes
  rw [← compareBytes_swap, h.deferred_realized]
  decide

theorem TieOrder.le_unrealized (h : TieOrder tieKey) :
    leBytes (tieKey .realizedYield) (tieKey .unrealizedYield) := by
  unfold leBytes
  rw [h.realized_unrealized]
  decide

theorem TieOrder.deferred_unrealized (h : TieOrder tieKey) :
    leBytes (tieKey .deferredYield) (tieKey .unrealizedYield) :=
  IsTrans.trans _ _ _ h.le_realized h.le_unrealized

theorem byTieKey_pairOf (h : TieOrder tieKey) (a b : ℤ) {rest : Amounts}
    (hrest : rest = [] ∨ ∃ c, rest = [(.unrealizedYield, c)]) :
    byTieKey tieKey (pairOf a b rest) = pairOf' a b rest := by
  have hmid : (rest.insertionSort (byKey fun e : Bucket × ℤ => tieKey e.1)).orderedInsert
      (byKey fun e : Bucket × ℤ => tieKey e.1) (.deferredYield, b) = (.deferredYield, b) :: rest := by
    rcases hrest with rfl | ⟨c, rfl⟩
    · rfl
    · exact List.orderedInsert_cons_of_le _ _ h.deferred_unrealized
  have hlast : rest.orderedInsert (byKey fun e : Bucket × ℤ => tieKey e.1) (.realizedYield, a)
      = (.realizedYield, a) :: rest := by
    rcases hrest with rfl | ⟨c, rfl⟩
    · rfl
    · exact List.orderedInsert_cons_of_le _ _ h.le_unrealized
  have hnot : ¬ byKey (fun e : Bucket × ℤ => tieKey e.1) (.realizedYield, a) (.deferredYield, b) :=
    h.not_le
  unfold byTieKey pairOf pairOf'
  rw [List.insertionSort_cons, List.insertionSort_cons, hmid,
    List.orderedInsert_of_not_le _ _ hnot, hlast]

theorem yieldsOf_requestedList (h : TieOrder tieKey) (pos : Position)
    (treatment : UnrealizedYieldTreatment) :
    (∃ rest, (rest = [] ∨ ∃ c, rest = [(.unrealizedYield, c)]) ∧
      yieldsOf (requestedList pos treatment) = pairOf (claimable pos treatment .realizedYield)
        (claimable pos treatment .deferredYield) rest ∧
      byTieKey tieKey (yieldsOf (requestedList pos treatment))
        = pairOf' (claimable pos treatment .realizedYield)
          (claimable pos treatment .deferredYield) rest) ∨
    ((claimable pos treatment .realizedYield = 0 ∨ claimable pos treatment .deferredYield = 0) ∧
      byTieKey tieKey (yieldsOf (requestedList pos treatment))
        = yieldsOf (requestedList pos treatment)) := by
  have hlist : yieldsOf (requestedList pos treatment)
      = nonzero ([Bucket.realizedYield, .deferredYield, .unrealizedYield].map fun k =>
        (k, claimable pos treatment k)) := by
    unfold yieldsOf requestedList nonzero
    rw [List.filter_comm]
    rfl
  rw [hlist]
  generalize claimable pos treatment = v
  by_cases hr : v .realizedYield = 0
  · right
    have hskip : nonzero ([Bucket.realizedYield, .deferredYield, .unrealizedYield].map fun k =>
        (k, v k)) = nonzero [(.deferredYield, v .deferredYield), (.unrealizedYield, v .unrealizedYield)] := by
      simp [nonzero, hr]
    rw [hskip]
    refine ⟨Or.inl hr, List.Pairwise.insertionSort_eq (List.Pairwise.filter _ ?_)⟩
    exact List.pairwise_pair.mpr h.deferred_unrealized
  · by_cases hd : v .deferredYield = 0
    · right
      have hskip : nonzero ([Bucket.realizedYield, .deferredYield, .unrealizedYield].map fun k =>
          (k, v k)) = nonzero [(.realizedYield, v .realizedYield), (.unrealizedYield, v .unrealizedYield)] := by
        simp [nonzero, hr, hd]
      rw [hskip]
      refine ⟨Or.inr hd, List.Pairwise.insertionSort_eq (List.Pairwise.filter _ ?_)⟩
      exact List.pairwise_pair.mpr h.le_unrealized
    · left
      have hrest : nonzero [(.unrealizedYield, v .unrealizedYield)] = [] ∨
          ∃ c, nonzero [(Bucket.unrealizedYield, v .unrealizedYield)] = [(.unrealizedYield, c)] := by
        by_cases hu : v .unrealizedYield = 0
        · left
          simp [nonzero, hu]
        · right
          exact ⟨v .unrealizedYield, by simp [nonzero, hu]⟩
      have hpair : nonzero ([Bucket.realizedYield, .deferredYield, .unrealizedYield].map fun k =>
          (k, v k)) = pairOf (v .realizedYield) (v .deferredYield)
            (nonzero [(.unrealizedYield, v .unrealizedYield)]) := by
        simp [nonzero, pairOf, hr, hd, List.filter_cons]
      refine ⟨_, hrest, hpair, ?_⟩
      rw [hpair, byTieKey_pairOf h _ _ hrest]

/-- the realized and the deferred yield tie for the units the principal leaves, and one of the two
gets a unit less -/
structure SplitTie (available : ℤ) (requested : Amounts) (policy : Policy) : Prop where
  mode : policy.mode = .principalFirst
  rounding : policy.roundingPolicy ≠ .floor
  left : amountOf requested .principal < available
  short : available < requested.total
  tied : Tied (available - amountOf requested .principal) (amountOf requested .realizedYield)
    (amountOf requested .deferredYield) (yieldsOf requested).total

section
variable {m : Amounts} {available : ℤ} {policy : Policy}

theorem amountOf_put_principal {p : ℤ} (hp : 0 ≤ p) {yields : Amounts}
    (hn : Bucket.principal ∉ yields.map Prod.fst) (k : Bucket) :
    amountOf (if 0 < p then Table.put yields .principal p else yields) k
      = amountOf ((.principal, p) :: yields) k := by
  rw [amountOf_cons]
  by_cases h0 : 0 < p
  · rw [if_pos h0, amountOf_put]
  · rw [if_neg h0]
    split
    · next he =>
      rw [← he, amountOf_of_not_mem hn]
      omega
    · rfl

theorem reconstructPrincipalFirst_of (tieKey : Bucket → ByteString) (policy : Policy)
    (h : Sound m) (h0 : 0 ≤ available) (htop : available < 2 ^ 63)
    (hlt : ¬ m.total ≤ available) :
    ∃ yields, cond (0 < available - min (amountOf m .principal) available)
        ((allocate policy.roundingPolicy (available - min (amountOf m .principal) available)
          (claimsOf (byTieKey tieKey (yieldsOf m)))).map filledOf) (some []) = some yields ∧
      ∃ f, reconstructPrincipalFirst tieKey available m policy = some f ∧ Within m f ∧
        ∀ k, amountOf f k
          = amountOf ((.principal, min (amountOf m .principal) available) :: yields) k := by
  have hp0 := h.amountOf_nonneg .principal
  have hadd := total_eq_principal_add h.keys
  have hy := sound_yieldsOf h
  have hy0 := hy.total_nonneg
  have hp : (yieldsOf m).Perm (byTieKey tieKey (yieldsOf m)) := (List.perm_insertionSort _ _).symm
  have hs := hy.perm hp
  have htot : (byTieKey tieKey (yieldsOf m)).total = (yieldsOf m).total :=
    (hp.map Prod.snd).sum_eq.symm
  obtain ⟨yields, hyields, hw, hsub, -, -⟩ := yields_fill hs policy.roundingPolicy
    (show 0 ≤ available - min (amountOf m .principal) available by omega) (by omega)
  have hwy : Within (yieldsOf m) yields := hw.perm hy hp
  have hsub' : ∀ k ∈ yields.map Prod.fst, k ∈ (yieldsOf m).map Prod.fst :=
    fun k hk => (hp.map Prod.fst).mem_iff.mpr (hsub k hk)
  have hn : Bucket.principal ∉ yields.map Prod.fst := fun hk => principal_not_mem m (hsub' _ hk)
  have hwf := within_principal h
    (show 0 ≤ min (amountOf m .principal) available ∧ _ ≤ amountOf m .principal by omega) hwy hsub'
  have hread := amountOf_put_principal
    (show 0 ≤ min (amountOf m .principal) available by omega) hn
  refine ⟨yields, hyields, _, ?_, ⟨?_, ?_⟩, hread⟩
  · -- the yields are not empty when something is left for them
    have hcond : cond (decide (0 < available - min (amountOf m .principal) available)
        && !(claimsOf (byTieKey tieKey (yieldsOf m))).isEmpty)
        ((allocate policy.roundingPolicy (available - min (amountOf m .principal) available)
          (claimsOf (byTieKey tieKey (yieldsOf m)))).map filledOf) (some []) = some yields := by
      by_cases hr : 0 < available - min (amountOf m .principal) available
      · have hne : (claimsOf (byTieKey tieKey (yieldsOf m))).isEmpty = false := by
          cases hl : byTieKey tieKey (yieldsOf m) with
          | nil =>
            rw [hl] at htot
            have h00 : Amounts.total [] = 0 := rfl
            omega
          | cons e l => rfl
        rw [hne, Bool.not_false, Bool.and_true]
        exact hyields
      · rw [decide_eq_false hr] at hyields ⊢
        exact hyields
    unfold reconstructPrincipalFirst
    dsimp only
    rw [long?_nonneg (show 0 ≤ available - min (amountOf m .principal) available by omega) (by omega)]
    simp only [Option.bind_eq_bind, Option.bind_some, hcond]
  · split
    · exact Table.nodup_put hwy.keys _ _
    · exact hwy.keys
  · intro k
    rw [hread k]
    exact hwf.bounds k

theorem cons_principal_iff (p : ℤ) (f g : Amounts) :
    (∀ k, amountOf ((.principal, p) :: f) k = amountOf ((.principal, p) :: g) k) ↔
      ∀ k, k ≠ .principal → amountOf f k = amountOf g k := by
  constructor
  · intro h k hk
    have := h k
    rwa [amountOf_cons, amountOf_cons, if_neg (Ne.symm hk), if_neg (Ne.symm hk)] at this
  · intro h k
    rw [amountOf_cons, amountOf_cons]
    split
    · rfl
    · next hk => exact h k (Ne.symm hk)

theorem zero_principal {A f : Amounts} {t : ℤ} (hA : Sound A)
    (hn : Bucket.principal ∉ A.map Prod.fst) (ht : 0 < t) (hle : t ≤ A.total)
    (hf : (allocate policy.roundingPolicy t (claimsOf A)).map filledOf = some f) :
    amountOf f .principal = 0 := by
  obtain ⟨a, ha, hfills⟩ := allocate_fills policy.roundingPolicy ht.le hle hA (by omega)
  rw [ha] at hf
  have he : filledOf a = f := Option.some.inj hf
  exact he ▸ (hfills.within hA).eq_zero hn

theorem principalFirst_agrees (hkey : TieOrder tieKey) (pos : Position)
    (treatment : UnrealizedYieldTreatment) (hm : m = requestedList pos treatment) (h : Sound m)
    (h0 : 0 ≤ available) (htop : available < 2 ^ 63) (hmode : policy.mode = .principalFirst)
    (hlt : ¬ m.total ≤ available) {yields : Amounts}
    (hy : cond (0 < available - min (amountOf m .principal) available)
      ((allocate policy.roundingPolicy (available - min (amountOf m .principal) available)
        (claimsOf (yieldsOf m))).map filledOf) (some []) = some yields) :
    ∃ f, reconstructPrincipalFirst tieKey available m policy = some f ∧ Within m f ∧
      ((∀ k, amountOf f k
        = amountOf ((.principal, min (amountOf m .principal) available) :: yields) k) ↔
        ¬ SplitTie available m policy) := by
  have hp0 := h.amountOf_nonneg .principal
  have hadd := total_eq_principal_add h.keys
  obtain ⟨yields', hy', f, hf, hw, hread⟩ :=
    reconstructPrincipalFirst_of tieKey policy h h0 htop hlt
  refine ⟨f, hf, hw, ?_⟩
  simp only [hread]
  by_cases hr : 0 < available - min (amountOf m .principal) available
  · rw [decide_eq_true hr] at hy hy'
    have hmin : min (amountOf m .principal) available = amountOf m .principal := by omega
    rw [hmin] at hy hy' hr
    rw [hmin, cons_principal_iff]
    have hys := sound_yieldsOf h
    have hle : available - amountOf m .principal ≤ (yieldsOf m).total := by omega
    have ha : amountOf m .realizedYield = claimable pos treatment .realizedYield :=
      hm ▸ amountOf_requestedList pos treatment _
    have hb : amountOf m .deferredYield = claimable pos treatment .deferredYield :=
      hm ▸ amountOf_requestedList pos treatment _
    have hcases := yieldsOf_requestedList hkey pos treatment
    rw [← hm, ← ha, ← hb] at hcases
    rcases hcases with ⟨rest, hrest, hY, hY'⟩ | ⟨hzero, hY⟩
    · rw [hY] at hy hle hys
      rw [hY'] at hy'
      have hnp : Bucket.principal ∉ (pairOf (amountOf m .realizedYield) (amountOf m .deferredYield)
          rest).map Prod.fst := hY ▸ principal_not_mem m
      by_cases hfloor : policy.roundingPolicy = .floor
      · obtain ⟨g, g', hg, hg', hgg⟩ := floor_agrees hys hr hle
        rw [hfloor] at hy hy'
        have he : g = yields := Option.some.inj (hg.symm.trans hy)
        have he' : g' = yields' := Option.some.inj (hg'.symm.trans hy')
        subst he he'
        exact iff_of_true (fun k _ => (hgg k).symm) fun htie => htie.rounding hfloor
      · obtain ⟨g, g', hg, hg', hgg⟩ := rounded_agrees_iff hfloor hys hrest hr hle
        have he : g = yields := Option.some.inj (hg.symm.trans hy)
        have he' : g' = yields' := Option.some.inj (hg'.symm.trans hy')
        subst he he'
        -- the principal is in neither of the two fills
        have hall : (∀ k, k ≠ Bucket.principal → amountOf g' k = amountOf g k) ↔
            ∀ k, amountOf g k = amountOf g' k := by
          constructor
          · intro hk k
            by_cases hkp : k = .principal
            · rw [hkp, zero_principal hys hnp hr hle hg,
                zero_principal (hys.perm (pairOf_perm _ _ _))
                  (fun h => hnp (((pairOf_perm _ _ _).map Prod.fst).mem_iff.mpr h)) hr
                  ((pairOf_total _ _ _).symm ▸ hle) hg']
            · exact (hk k hkp).symm
          · exact fun hk k _ => (hk k).symm
        rw [hall, hgg, ← hY]
        refine not_congr ⟨fun htied => ?_, fun htie => htie.tied⟩
        exact ⟨hmode, hfloor, by omega, by omega, htied⟩
    · -- the claims are the same, and without one of the two yields nothing ties
      rw [hY] at hy'
      have he : yields' = yields := Option.some.inj (hy'.symm.trans hy)
      rw [he]
      refine iff_of_true (fun _ _ => rfl) fun htie => ?_
      have htied := htie.tied
      unfold Tied at htied
      rcases hzero with hz | hz
      · rw [hz, mul_zero, Int.zero_emod] at htied
        omega
      · rw [hz, mul_zero, Int.zero_emod] at htied
        rw [htied.1] at htied
        omega
  · rw [decide_eq_false hr] at hy hy'
    have he : yields' = yields := Option.some.inj (hy'.symm.trans hy)
    rw [he]
    refine iff_of_true (fun _ => rfl) fun htie => ?_
    have := htie.left
    omega

end

end

/-! ## decisions of the producer -/

theorem fits_of_foldlM {us : List ℤ} {s r : ℤ} (hs : Fits s)
    (h : us.foldlM (fun s u => long? (s + u)) s = some r) : r = s + us.sum ∧ Fits r := by
  induction us generalizing s with
  | nil =>
    cases h
    exact ⟨(add_zero _).symm, hs⟩
  | cons u us ih =>
    rw [List.foldlM_cons] at h
    obtain ⟨s', hs', hr⟩ := Option.bind_eq_some_iff.mp h
    unfold long? at hs'
    split at hs'
    · next hfit =>
      cases hs'
      have := ih hfit hr
      rw [List.sum_cons, ← add_assoc]
      exact this
    · cases hs'

theorem total_of_sumRequested {m : Amounts} {r : ℤ} (h : sumRequested m = some r) :
    r = m.total ∧ Fits r := by
  have := fits_of_foldlM (by decide) h
  rwa [zero_add] at this

section
variable {tieKey : Bucket → ByteString} {available : ℤ} {policy : Policy} {d : Decision}

theorem total_fits_of_decision {pos : Position} {options : PolicyOptions} (h : pos.WellFormed)
    (hd : calculateFulfillment tieKey available pos options = some d) :
    claimableTotal pos options.merged.unrealizedYieldTreatment < 2 ^ 63 := by
  have htotal := total_requestedList pos options.merged.unrealizedYieldTreatment
  have hkeys : ((requestedList pos options.merged.unrealizedYieldTreatment).map Prod.fst).Nodup :=
    (keys_all pos _).sublist (List.filter_sublist.map Prod.fst)
  unfold calculateFulfillment at hd
  dsimp only at hd
  obtain ⟨liquidity, -, hd⟩ := Option.bind_eq_some_iff.mp hd
  rw [requestedOf_eq h] at hd
  generalize requestedList pos options.merged.unrealizedYieldTreatment = m at *
  rw [← htotal]
  change (if m.isEmpty = true then _ else _) = some d at hd
  split at hd
  · next hempty =>
    rw [List.isEmpty_iff.mp hempty]
    decide
  · split at hd
    · obtain ⟨r, hr, -⟩ := Option.bind_eq_some_iff.mp hd
      obtain ⟨rfl, hfit⟩ := total_of_sumRequested hr
      exact hfit.2
    · obtain ⟨remaining, -, hd⟩ := Option.bind_eq_some_iff.mp hd
      obtain ⟨r, hr, hd⟩ := Option.bind_eq_some_iff.mp hd
      obtain ⟨rfl, -⟩ := total_of_sumRequested hr
      obtain ⟨total, htot, -⟩ := Option.bind_eq_some_iff.mp hd
      rw [total_eq_principal_add hkeys] at htot
      unfold long? at htot
      split at htot
      · next hfit => exact hfit.2
      · cases htot
    · obtain ⟨r, hr, -⟩ := Option.bind_eq_some_iff.mp hd
      obtain ⟨rfl, hfit⟩ := total_of_sumRequested hr
      exact hfit.2

theorem decision_agrees (hkey : TieOrder tieKey) (hav : Fits available) {pos : Position}
    {options : PolicyOptions} (h : pos.WellFormed)
    (hn : options.merged.mode = .waterfall → options.merged.fillOrder.Nodup)
    (hd : calculateFulfillment tieKey available pos options = some d) :
    ∃ m filled f, Sound m ∧ Decides (max 0 available) m filled options.merged d ∧
      reconstructFilled tieKey (max 0 available) m options.merged = some f ∧ Within m f ∧
      ((∀ k, amountOf f k = amountOf filled k) ↔
        ¬ SplitTie (max 0 available) m options.merged) := by
  have hs := requestedList_sound h (total_fits_of_decision h hd)
  have h0 : 0 ≤ max 0 available := le_max_left _ _
  have htop : max 0 available < 2 ^ 63 := max_lt (by decide) hav.2
  unfold calculateFulfillment at hd
  dsimp only at hd
  rw [long?_of hav, requestedOf_eq h] at hd
  simp only [Option.bind_eq_bind, Option.bind_some] at hd
  generalize hm : requestedList pos options.merged.unrealizedYieldTreatment = m at *
  have hfull : m.total ≤ max 0 available → ∀ {filled}, Decides (max 0 available) m filled
      options.merged d → ∃ f, reconstructFilled tieKey (max 0 available) m options.merged = some f ∧
        Within m f ∧ ((∀ k, amountOf f k = amountOf filled k) ↔
          ¬ SplitTie (max 0 available) m options.merged) := by
    intro hle filled hdec
    refine ⟨m, reconstruct_full hs hle, hs.within_self, ?_⟩
    rw [hdec.full hle]
    exact iff_of_true (fun _ => rfl) fun htie => absurd hle (not_le.mpr htie.short)
  by_cases hempty : m.isEmpty = true
  · rw [if_pos hempty] at hd
    rw [List.isEmpty_iff] at hempty
    subst hempty
    have hdec : Decides (max 0 available) [] [] options.merged d := by
      cases hd
      exact fullFill_decides hs h0 rfl
    obtain ⟨f, hf⟩ := hfull h0 hdec
    exact ⟨[], [], f, hs, hdec, hf⟩
  · rw [if_neg hempty] at hd
    have hother : options.merged.mode ≠ .principalFirst →
        ¬ SplitTie (max 0 available) m options.merged := fun hne htie => hne htie.mode
    cases hmode : options.merged.mode with
    | proRata =>
      rw [hmode] at hd hother
      obtain ⟨d', filled, hd', hdec, hshort⟩ := proRata_decides tieKey hs h0 htop hmode
      obtain rfl : d' = d := Option.some.inj (hd'.symm.trans hd)
      by_cases hle : m.total ≤ max 0 available
      · obtain ⟨f, hf⟩ := hfull hle hdec
        exact ⟨m, filled, f, hs, hdec, hf⟩
      · refine ⟨m, filled, filled, hs, hdec, ?_, hdec.within,
          iff_of_true (fun _ => rfl) (hother nofun)⟩
        rw [reconstruct_short hs hle, hmode]
        exact hshort hle
    | principalFirst =>
      rw [hmode] at hd
      obtain ⟨d', filled, hd', hdec, hshort⟩ := principalFirst_decides hs h0 htop hmode
      obtain rfl : d' = d := Option.some.inj (hd'.symm.trans hd)
      by_cases hle : m.total ≤ max 0 available
      · obtain ⟨f, hf⟩ := hfull hle hdec
        exact ⟨m, filled, f, hs, hdec, hf⟩
      · obtain ⟨yields, hy, rfl⟩ := hshort hle
        obtain ⟨f, hf, hw, hiff⟩ :=
          principalFirst_agrees hkey pos _ hm.symm hs h0 htop hmode hle hy
        refine ⟨m, _, f, hs, hdec, ?_, hw, hiff⟩
        rw [reconstruct_short hs hle, hmode]
        exact hf
    | waterfall =>
      rw [hmode] at hd hother
      obtain ⟨d', filled, hd', hdec, hshort⟩ := waterfall_decides hs h0 htop hmode (hn hmode)
      obtain rfl : d' = d := Option.some.inj (hd'.symm.trans hd)
      by_cases hle : m.total ≤ max 0 available
      · obtain ⟨f, hf⟩ := hfull hle hdec
        exact ⟨m, filled, f, hs, hdec, hf⟩
      · obtain ⟨deferred, hloop⟩ := hshort hle
        refine ⟨m, filled, filled, hs, hdec, ?_, hdec.within,
          iff_of_true (fun _ => rfl) (hother nofun)⟩
        rw [reconstruct_short hs hle, hmode]
        exact reconstructLoop_of hloop

end

/-- **The two engines agree but for split ties and negative liquidity.** -/
theorem reconstruction_agrees_iff {tieKey : Bucket → ByteString} (hkey : TieOrder tieKey)
    {available : ℤ} (hav : Fits available) {pos : Position} (h : pos.WellFormed)
    {options : PolicyOptions}
    (hn : options.merged.mode = .waterfall → options.merged.fillOrder.Nodup) {d : Decision}
    (hd : calculateFulfillment tieKey available pos options = some d) :
    (∃ r, semanticReconstruction tieKey available d.requested d.policy d = some r ∧
        r.mismatches = []) ↔
      0 ≤ available ∧ ¬ SplitTie available d.requested d.policy := by
  obtain ⟨m, filled, f, hs, hdec, hf, hw, hiff⟩ := decision_agrees hkey hav h hn hd
  by_cases h0 : 0 ≤ available
  · rw [max_eq_right h0] at hdec hf hiff
    rw [settles_agrees_iff hs hdec hf hw, hiff, hdec.requested_eq, hdec.policy_eq]
    exact (and_iff_right h0).symm
  · refine iff_of_false ?_ fun hc => h0 hc.1
    rintro ⟨r, hr, hnil⟩
    unfold semanticReconstruction at hr
    obtain ⟨g, -, hr⟩ := Option.bind_eq_some_iff.mp hr
    obtain ⟨deferred, -, hr⟩ := Option.bind_eq_some_iff.mp hr
    cases hr
    -- the evidence has the clamped liquidity
    obtain ⟨-, -, -, -, -, -, -, hliq⟩ := (mismatchesOf_eq_nil_iff _ _ _ _).mp hnil
    rw [hdec.liquidity_eq] at hliq
    omega

/-- One unit over a realized and a deferred yield of one unit each: the producer takes them in the
order of the map and fills the realized one, the verifier by canonical id and fills the deferred
one. -/
theorem reconstruction_agrees_counterexample :
    ∃ d r, calculateFulfillment Bucket.canonicalKey 1 ⟨0, 0, 1, 0, 1⟩
        ⟨some .principalFirst, none, none, none⟩ = some d ∧
      semanticReconstruction Bucket.canonicalKey 1 d.requested d.policy d = some r ∧
      r.mismatches.map Mismatch.field = [.filled, .deferred] := by
  have hrun : (calculateFulfillment Bucket.canonicalKey 1 ⟨0, 0, 1, 0, 1⟩
      ⟨some .principalFirst, none, none, none⟩).bind (fun d =>
        (semanticReconstruction Bucket.canonicalKey 1 d.requested d.policy d).map fun r =>
          r.mismatches.map Mismatch.field) = some [.filled, .deferred] := by
    decide +kernel
  obtain ⟨d, hd, hrun⟩ := Option.bind_eq_some_iff.mp hrun
  obtain ⟨r, hr, hfields⟩ := Option.map_eq_some_iff.mp hrun
  exact ⟨d, r, hd, hr, hfields⟩

end PRF.Yield
