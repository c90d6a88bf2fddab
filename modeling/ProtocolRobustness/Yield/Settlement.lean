import ProtocolRobustness.Yield.Fills

/-!
# Conservation of a settlement

Every bucket of a decision is filled between nothing and what is requested of it, the rest is
deferred, and the buckets together are filled what there is.

* `Settles`                          this condition on a decision;
* `calculateFulfillment_settles`     every decision meets it, and there is one unless the total
                                     requested leaves 64 bits;
* `calculateFulfillment_counterexample`   what is requested outside the fill order is filled when
                                     the liquidity covers everything; a negative liquidity and
                                     negative yields.
-/

namespace PRF.Yield
open LongArith Amounts

/-! ## reading amounts -/

namespace Amounts

section
variable {m m' : Amounts}

theorem amountOf_of_mem (hm : (m.map Prod.fst).Nodup) {k : Bucket} {v : ℤ} (h : (k, v) ∈ m) :
    amountOf m k = v := by
  unfold amountOf
  rw [Table.find_of_mem hm h]
  rfl

theorem amountOf_of_not_mem {k : Bucket} (h : k ∉ m.map Prod.fst) : amountOf m k = 0 := by
  unfold amountOf
  rw [(Table.find_eq_none_iff m k).mpr h]
  rfl

theorem amountOf_cases (hm : (m.map Prod.fst).Nodup) (k : Bucket) :
    (k, amountOf m k) ∈ m ∨ k ∉ m.map Prod.fst ∧ amountOf m k = 0 := by
  by_cases h : k ∈ m.map Prod.fst
  · obtain ⟨e, he, rfl⟩ := List.mem_map.mp h
    left
    rw [amountOf_of_mem hm he]
    exact he
  · exact Or.inr ⟨h, amountOf_of_not_mem h⟩

theorem amountOf_put (m : Amounts) (k k' : Bucket) (v : ℤ) :
    amountOf (Table.put m k v) k' = if k = k' then v else amountOf m k' := by
  unfold amountOf
  rw [Table.find_put]
  split <;> rfl

theorem find_nonzero (hm : (m.map Prod.fst).Nodup) (k : Bucket) :
    Table.find m.nonzero k = if amountOf m k = 0 then none else some (amountOf m k) := by
  have hn : (m.nonzero.map Prod.fst).Nodup := hm.sublist (List.filter_sublist.map Prod.fst)
  by_cases h : amountOf m k = 0
  · rw [if_pos h, Table.find_eq_none_iff]
    intro hk
    obtain ⟨e, he, rfl⟩ := List.mem_map.mp hk
    obtain ⟨he, hne⟩ := List.mem_filter.mp he
    rw [amountOf_of_mem hm he] at h
    exact (of_decide_eq_true hne) h
  · rw [if_neg h]
    apply Table.find_of_mem hn
    rcases amountOf_cases hm k with hmem | ⟨_, h0⟩
    · exact List.mem_filter.mpr ⟨hmem, decide_eq_true h⟩
    · exact absurd h0 h

theorem total_nonzero (m : Amounts) : m.nonzero.total = m.total := by
  unfold total nonzero
  induction m with
  | nil => rfl
  | cons e m ih =>
    rw [List.filter_cons, List.map_cons, List.sum_cons]
    by_cases h : e.2 = 0
    · rw [if_neg (by simpa using h), ih, h, zero_add]
    · rw [if_pos (by simpa using h), List.map_cons, List.sum_cons, ih]

theorem total_congr (hm : (m.map Prod.fst).Nodup) (hm' : (m'.map Prod.fst).Nodup)
    (h : ∀ k, amountOf m k = amountOf m' k) : m.total = m'.total := by
  rw [← total_nonzero m, ← total_nonzero m']
  refine List.Perm.sum_eq (List.Perm.map _ (Table.perm_of_find ?_ ?_ fun k => ?_))
  · exact hm.sublist (List.filter_sublist.map Prod.fst)
  · exact hm'.sublist (List.filter_sublist.map Prod.fst)
  · rw [find_nonzero hm, find_nonzero hm', h k]

theorem same_iff (m m' : Amounts) : same m m' = true ↔ ∀ k, Table.find m k = Table.find m' k := by
  unfold same
  rw [List.all_eq_true]
  constructor
  · intro h k
    by_cases hk : k ∈ m.map Prod.fst ++ m'.map Prod.fst
    · exact of_decide_eq_true (h k hk)
    · rw [List.mem_append, not_or] at hk
      rw [(Table.find_eq_none_iff m k).mpr hk.1, (Table.find_eq_none_iff m' k).mpr hk.2]
  · exact fun h k _ => decide_eq_true (h k)

theorem same_nonzero_iff (hm : (m.map Prod.fst).Nodup) (hm' : (m'.map Prod.fst).Nodup) :
    same m.nonzero m'.nonzero = true ↔ ∀ k, amountOf m k = amountOf m' k := by
  rw [same_iff]
  constructor
  · intro h k
    have hk := h k
    rw [find_nonzero hm, find_nonzero hm'] at hk
    by_cases h0 : amountOf m k = 0 <;> by_cases h0' : amountOf m' k = 0
    · rw [h0, h0']
    · rw [if_pos h0, if_neg h0'] at hk
      cases hk
    · rw [if_neg h0, if_pos h0'] at hk
      cases hk
    · rw [if_neg h0, if_neg h0'] at hk
      exact Option.some.inj hk
  · intro h k
    rw [find_nonzero hm, find_nonzero hm', h k]

end

end Amounts

/-! ## filled and deferred -/

/-- amounts between nothing and what is requested -/
structure Within (m filled : Amounts) : Prop where
  keys : (filled.map Prod.fst).Nodup
  bounds : ∀ k, 0 ≤ amountOf filled k ∧ amountOf filled k ≤ amountOf m k

section
variable {m : Amounts}

theorem Sound.amountOf_nonneg (h : Sound m) (k : Bucket) : 0 ≤ amountOf m k := by
  rcases amountOf_cases h.keys k with hmem | ⟨_, h0⟩
  · exact (h.pos _ hmem).le
  · exact h0.ge

theorem Sound.amountOf_le (h : Sound m) (k : Bucket) : amountOf m k ≤ m.total := by
  rcases amountOf_cases h.keys k with hmem | ⟨_, h0⟩
  · exact h.amount_le hmem
  · exact h0.le.trans h.total_nonneg

theorem Sound.within_self (h : Sound m) : Within m m :=
  ⟨h.keys, fun k => ⟨h.amountOf_nonneg k, le_rfl⟩⟩

theorem Sound.within_nil (h : Sound m) : Within m [] :=
  ⟨List.nodup_nil, fun k => ⟨le_rfl, h.amountOf_nonneg k⟩⟩

section
variable {t : ℤ} {exact : Prop} {a : Allotment Bucket}

theorem Fills.keys_perm (hf : Fills t exact (claimsOf m) a.allocations) :
    (a.allocations.map fun x => x.claim.key).Perm (m.map Prod.fst) := by
  have h := hf.perm.map Claim.key
  rw [List.map_map] at h
  unfold claimsOf at h
  rw [List.map_map] at h
  exact h

theorem Fills.filledOf_eq (h : Sound m) (hf : Fills t exact (claimsOf m) a.allocations) :
    filledOf a = a.allocations.map fun x => (x.claim.key, x.filled) := by
  apply Table.into_fresh []
  rw [List.nil_append, List.map_map]
  exact hf.keys_perm.nodup_iff.mpr h.keys

theorem Fills.sub (h : Sound m) (hf : Fills t exact (claimsOf m) a.allocations) :
    ∀ k ∈ (filledOf a).map Prod.fst, k ∈ m.map Prod.fst := by
  intro k hk
  rw [hf.filledOf_eq h, List.map_map] at hk
  exact hf.keys_perm.mem_iff.mp hk

theorem Fills.within (h : Sound m) (hf : Fills t exact (claimsOf m) a.allocations) :
    Within m (filledOf a) := by
  have hkeys : ((filledOf a).map Prod.fst).Nodup := by
    rw [hf.filledOf_eq h, List.map_map]
    exact hf.keys_perm.nodup_iff.mpr h.keys
  refine ⟨hkeys, fun k => ?_⟩
  rcases amountOf_cases hkeys k with hmem | ⟨_, h0⟩
  · rw [hf.filledOf_eq h] at hmem ⊢
    obtain ⟨x, hx, he⟩ := List.mem_map.mp hmem
    obtain ⟨hk, hv⟩ := Prod.mk.inj he
    have hb := hf.bounds x hx
    obtain ⟨e, hemem, hclaim⟩ :=
      List.mem_map.mp (hf.perm.mem_iff.mp (List.mem_map_of_mem hx))
    rw [← hclaim] at hb hk
    have hle : (x.filled : ℚ) ≤ e.2 := hb.2
    rw [← hv, ← hk, amountOf_of_mem h.keys hemem]
    exact ⟨hb.1, Int.cast_le.mp hle⟩
  · rw [h0]
    exact ⟨le_rfl, h.amountOf_nonneg k⟩

theorem Fills.total_filledOf (h : Sound m) (hf : Fills t exact (claimsOf m) a.allocations) :
    (filledOf a).total = (a.allocations.map Allotted.filled).sum := by
  unfold Amounts.total
  rw [hf.filledOf_eq h, List.map_map]
  rfl

end

theorem deferredOf_of (h : Sound m) (filled : Amounts)
    (hb : ∀ k ∈ m.map Prod.fst, 0 ≤ amountOf filled k ∧ amountOf filled k ≤ amountOf m k) :
    ∃ deferred, deferredOf m filled = some deferred ∧ deferred.map Prod.fst = m.map Prod.fst ∧
      ∀ k, amountOf deferred k = if k ∈ m.map Prod.fst then amountOf m k - amountOf filled k
        else 0 := by
  have hkeys : ((m.map fun e => (e.1, e.2 - amountOf filled e.1)).map Prod.fst) = m.map Prod.fst := by
    rw [List.map_map]
    rfl
  have hmap : (m.mapM fun e => (long? (e.2 - amountOf filled e.1)).map fun n => (e.1, max 0 n))
      = some (m.map fun e => (e.1, e.2 - amountOf filled e.1)) := by
    apply Fallible.mapM_some
    rintro ⟨k, v⟩ he
    have hk := hb k (List.mem_map_of_mem he)
    rw [amountOf_of_mem h.keys he] at hk
    have hle := h.amount_le he
    have hfits := h.fits
    show (long? (v - amountOf filled k)).map _ = _
    rw [long?_nonneg (by omega) (by dsimp only at hle; omega)]
    show some (k, max 0 (v - amountOf filled k)) = _
    rw [max_eq_right (by omega)]
  have hinto : Table.into [] (m.map fun e => (e.1, e.2 - amountOf filled e.1))
      = m.map fun e => (e.1, e.2 - amountOf filled e.1) := by
    apply Table.into_fresh []
    rw [List.nil_append, hkeys]
    exact h.keys
  refine ⟨m.map fun e => (e.1, e.2 - amountOf filled e.1), ?_, hkeys, fun k => ?_⟩
  · unfold deferredOf
    rw [hmap]
    show some (Table.into [] _) = _
    rw [hinto]
  · split
    · next hk =>
      obtain ⟨⟨k, v⟩, he, rfl⟩ := List.mem_map.mp hk
      rw [amountOf_of_mem h.keys he]
      apply amountOf_of_mem
      · rw [hkeys]
        exact h.keys
      · exact List.mem_map.mpr ⟨(k, v), he, rfl⟩
    · next hk =>
      apply amountOf_of_not_mem
      rw [hkeys]
      exact hk

theorem Within.eq_zero {filled : Amounts} (hw : Within m filled) {k : Bucket}
    (hk : k ∉ m.map Prod.fst) : amountOf filled k = 0 := by
  have h := hw.bounds k
  rw [amountOf_of_not_mem hk] at h
  omega

theorem Within.perm (h : Sound m) {m' filled : Amounts} (hp : m.Perm m') (hw : Within m' filled) :
    Within m filled where
  keys := hw.keys
  bounds := by
    intro k
    have hk : amountOf m k = amountOf m' k :=
      congrArg (Option.getD · 0) (Table.find_perm h.keys hp k)
    rw [hk]
    exact hw.bounds k

theorem deferred_eq {filled deferred : Amounts} (hw : Within m filled)
    (hd : ∀ k, amountOf deferred k = if k ∈ m.map Prod.fst then amountOf m k - amountOf filled k
      else 0) (k : Bucket) : amountOf deferred k = amountOf m k - amountOf filled k := by
  rw [hd k]
  split
  · rfl
  · next hk => rw [hw.eq_zero hk, amountOf_of_not_mem hk, sub_zero]

end

/-! ## decisions -/

/-- the buckets a mode serves -/
def served (policy : Policy) (requested : Amounts) : Amounts :=
  match policy.mode with
  | .waterfall => requested.filter fun e => e.1 ∈ policy.fillOrder
  | .proRata | .principalFirst => requested

structure Settles (available : ℤ) (d : Decision) : Prop where
  bounds : ∀ k, 0 ≤ amountOf d.filled k ∧ amountOf d.filled k ≤ amountOf d.requested k
  parts : ∀ k, amountOf d.filled k + amountOf d.deferred k = amountOf d.requested k
  within : d.filled.total ≤ available
  exact : d.policy.roundingPolicy ≠ .floor → d.filled.total =
    if d.requested.total ≤ available then d.requested.total
    else min available (served d.policy d.requested).total
  mode_iff : d.settlementMode = .fullFill ↔ ∀ k, amountOf d.deferred k = 0

/-- a decision that fills these amounts of a requested map -/
structure Decides (available : ℤ) (m filled : Amounts) (policy : Policy) (d : Decision) :
    Prop where
  requested_eq : d.requested = m
  policy_eq : d.policy = policy
  filled_eq : d.filled = filled
  within : Within m filled
  deferred_keys : (d.deferred.map Prod.fst).Nodup
  deferred_eq : ∀ k, amountOf d.deferred k = amountOf m k - amountOf filled k
  haircut_eq : d.haircut = []
  unrealized_eq : d.unrealized = []
  liquidity_eq : d.evidence.availableLiquidity = available
  mode_iff : d.settlementMode = .fullFill ↔ m.total ≤ available
  full : m.total ≤ available → filled = m
  total_le : filled.total ≤ available
  exact : policy.roundingPolicy ≠ .floor → filled.total =
    if m.total ≤ available then m.total else min available (served policy m).total

section
variable {m : Amounts} {available : ℤ} {policy : Policy} {evidence : Evidence}

theorem Decides.settles (h : Sound m) {filled : Amounts} {d : Decision}
    (hd : Decides available m filled policy d) : Settles available d where
  bounds := by
    rw [hd.filled_eq, hd.requested_eq]
    exact hd.within.bounds
  parts := fun k => by
    rw [hd.filled_eq, hd.requested_eq, hd.deferred_eq k]
    omega
  within := hd.filled_eq.symm ▸ hd.total_le
  exact := by
    rw [hd.filled_eq, hd.requested_eq, hd.policy_eq]
    exact hd.exact
  mode_iff := by
    rw [hd.mode_iff]
    constructor
    · intro hle k
      rw [hd.deferred_eq k, hd.full hle, sub_self]
    · intro h0
      -- nothing deferred: the fills are the requests, and they are covered
      have hfull : ∀ k, amountOf filled k = amountOf m k := by
        intro k
        have hk := hd.deferred_eq k
        rw [h0 k] at hk
        omega
      rw [← total_congr hd.within.keys h.keys hfull]
      exact hd.total_le

theorem fullFill_decides (h : Sound m) (hle : m.total ≤ available)
    (hev : evidence.availableLiquidity = available) :
    Decides available m m policy (fullFill m policy evidence) where
  requested_eq := rfl
  policy_eq := rfl
  filled_eq := rfl
  within := h.within_self
  deferred_keys := List.nodup_nil
  deferred_eq := fun _ => (sub_self _).symm
  haircut_eq := rfl
  unrealized_eq := rfl
  liquidity_eq := hev
  mode_iff := iff_of_true rfl hle
  full := fun _ => rfl
  total_le := hle
  exact := fun _ => (if_pos hle).symm

theorem partialFill_decides (hlt : ¬ m.total ≤ available) {filled deferred : Amounts}
    (hw : Within m filled) (hk : (deferred.map Prod.fst).Nodup)
    (hd : ∀ k, amountOf deferred k = amountOf m k - amountOf filled k)
    (hle : filled.total ≤ available)
    (hexact : policy.roundingPolicy ≠ .floor →
      filled.total = min available (served policy m).total)
    (hev : evidence.availableLiquidity = available) :
    Decides available m filled policy (partialFill m filled deferred policy evidence) where
  requested_eq := rfl
  policy_eq := rfl
  filled_eq := rfl
  within := hw
  deferred_keys := hk
  deferred_eq := hd
  haircut_eq := rfl
  unrealized_eq := rfl
  liquidity_eq := hev
  mode_iff := iff_of_false nofun hlt
  full := fun hle => absurd hle hlt
  total_le := hle
  exact := fun hr => (hexact hr).trans (if_neg hlt).symm

theorem shortage_eq_zero_iff : max 0 (m.total - available) = 0 ↔ m.total ≤ available := by
  omega

theorem long?_shortage (h : Sound m) (h0 : 0 ≤ available) (htop : available < 2 ^ 63) :
    long? (m.total - available) = some (m.total - available) := by
  have htotal := h.total_nonneg
  have hfits := h.fits
  exact long?_of ⟨by omega, by omega⟩

theorem proRata_decides (tieKey : Bucket → Bytes.ByteString) (h : Sound m) (h0 : 0 ≤ available)
    (htop : available < 2 ^ 63) (hmode : policy.mode = .proRata) :
    ∃ d filled, calculateFulfillmentProRata tieKey available m policy = some d ∧
      Decides available m filled policy d ∧
      (¬ m.total ≤ available → (allocate policy.roundingPolicy available
        (claimsOf (byTieKey tieKey m))).map filledOf = some filled) := by
  unfold calculateFulfillmentProRata
  rw [h.sumRequested]
  simp only [Option.bind_eq_bind, Option.bind_some, long?_shortage h h0 htop]
  by_cases hle : m.total ≤ available
  · exact ⟨_, m, if_pos (shortage_eq_zero_iff.mpr hle), fullFill_decides h hle rfl,
      fun hn => absurd hle hn⟩
  · have hp : m.Perm (byTieKey tieKey m) := (List.perm_insertionSort _ _).symm
    have hs := h.perm hp
    have htot : (byTieKey tieKey m).total = m.total := (hp.map Prod.snd).sum_eq.symm
    obtain ⟨a, ha, hf⟩ := allocate_fills policy.roundingPolicy h0
      (show available ≤ (byTieKey tieKey m).total by omega) hs (by omega)
    have hf' : Fills available (policy.roundingPolicy ≠ .floor) (claimsOf m) a.allocations :=
      ⟨hf.perm.trans (claimsOf_perm hp.symm), hf.bounds, hf.sum_le, hf.sum_eq⟩
    obtain ⟨deferred, hdo, hdk, hd⟩ := deferredOf_of h _ fun k _ => (hf'.within h).bounds k
    rw [if_neg (mt shortage_eq_zero_iff.mp hle), ha]
    simp only [Option.bind_some, hdo]
    refine ⟨_, filledOf a, rfl, ?_, fun _ => rfl⟩
    apply partialFill_decides hle (hf'.within h) (hdk ▸ h.keys) (deferred_eq (hf'.within h) hd)
    · rw [hf'.total_filledOf h]
      exact hf'.sum_le
    · intro hr
      rw [hf'.total_filledOf h, hf'.sum_eq hr]
      unfold served
      rw [hmode]
      show available = min available m.total
      omega
    · rfl

/-! ### principal first -/

theorem sound_yieldsOf (h : Sound m) : Sound (yieldsOf m) := h.filter _

theorem principal_not_mem (m : Amounts) : Bucket.principal ∉ (yieldsOf m).map Prod.fst := by
  intro hk
  obtain ⟨e, he, hp⟩ := List.mem_map.mp hk
  exact (of_decide_eq_true (List.mem_filter.mp he).2) hp

theorem mem_yieldsOf {k : Bucket} (hk : k ≠ .principal) :
    k ∈ (yieldsOf m).map Prod.fst ↔ k ∈ m.map Prod.fst := by
  constructor
  · intro h
    obtain ⟨e, he, rfl⟩ := List.mem_map.mp h
    exact List.mem_map_of_mem (List.mem_of_mem_filter he)
  · intro h
    obtain ⟨e, he, rfl⟩ := List.mem_map.mp h
    exact List.mem_map_of_mem (List.mem_filter.mpr ⟨he, decide_eq_true hk⟩)

theorem amountOf_yieldsOf (h : Sound m) {k : Bucket} (hk : k ≠ .principal) :
    amountOf (yieldsOf m) k = amountOf m k := by
  rcases amountOf_cases h.keys k with hmem | ⟨hn, h0⟩
  · exact amountOf_of_mem (sound_yieldsOf h).keys (List.mem_filter.mpr ⟨hmem, decide_eq_true hk⟩)
  · rw [h0]
    exact amountOf_of_not_mem fun hy => hn ((mem_yieldsOf hk).mp hy)

theorem total_eq_principal_add (hkeys : (m.map Prod.fst).Nodup) :
    amountOf m .principal + (yieldsOf m).total = m.total := by
  have hadd := total_filter_add m fun e => decide (e.1 = .principal)
  have hy : (m.filter fun e => !decide (e.1 = Bucket.principal)) = yieldsOf m := by
    unfold yieldsOf
    congr 1
    funext e
    rw [decide_not]
  have hp : Amounts.total (m.filter fun e => decide (e.1 = Bucket.principal))
      = amountOf m .principal := by
    have hs : ((m.filter fun e => decide (e.1 = Bucket.principal)).map Prod.fst).Nodup :=
      hkeys.sublist (List.filter_sublist.map Prod.fst)
    rcases amountOf_cases hkeys .principal with hmem | ⟨hn, h0⟩
    · have hone : ([(Bucket.principal, amountOf m .principal)].map Prod.fst).Nodup :=
        List.nodup_singleton _
      have := total_congr hs hone fun k => ?_
      · rw [this]
        exact add_zero _
      · by_cases hk : Bucket.principal = k
        · subst hk
          rw [amountOf_of_mem hs (List.mem_filter.mpr ⟨hmem, decide_eq_true rfl⟩)]
          exact (amountOf_of_mem hone List.mem_cons_self).symm
        · rw [amountOf_of_not_mem, amountOf_of_not_mem]
          · rw [List.map_cons, List.map_nil, List.mem_singleton]
            exact fun he => hk he.symm
          · intro hmem'
            obtain ⟨e, he, rfl⟩ := List.mem_map.mp hmem'
            exact hk (of_decide_eq_true (List.mem_filter.mp he).2).symm
    · have hnil : (m.filter fun e => decide (e.1 = Bucket.principal)) = [] := by
        rw [List.filter_eq_nil_iff]
        intro e he hk
        exact hn ((of_decide_eq_true hk) ▸ List.mem_map_of_mem he)
      rw [hnil, h0]
      rfl
  rw [hy, hp] at hadd
  exact hadd

theorem into_principal {p : ℤ} {yields : Amounts} (hw : Within (yieldsOf m) yields)
    (hsub : ∀ k ∈ yields.map Prod.fst, k ∈ (yieldsOf m).map Prod.fst) :
    Table.into [(.principal, p)] yields = (.principal, p) :: yields := by
  apply Table.into_fresh
  rw [List.singleton_append, List.map_cons, List.nodup_cons]
  exact ⟨fun hk => principal_not_mem m (hsub _ hk), hw.keys⟩

theorem amountOf_cons (k : Bucket) (v : ℤ) (f : Amounts) (k' : Bucket) :
    amountOf ((k, v) :: f) k' = if k = k' then v else amountOf f k' := by
  unfold amountOf
  rw [Table.find_cons]
  split <;> rfl

theorem within_principal (h : Sound m) {p : ℤ} (hp : 0 ≤ p ∧ p ≤ amountOf m .principal)
    {yields : Amounts} (hw : Within (yieldsOf m) yields)
    (hsub : ∀ k ∈ yields.map Prod.fst, k ∈ (yieldsOf m).map Prod.fst) :
    Within m ((.principal, p) :: yields) where
  keys := by
    rw [List.map_cons, List.nodup_cons]
    exact ⟨fun hk => principal_not_mem m (hsub _ hk), hw.keys⟩
  bounds := by
    intro k
    rw [amountOf_cons]
    split
    · next he => exact he ▸ hp
    · next he =>
      rw [← amountOf_yieldsOf h (Ne.symm he)]
      exact hw.bounds k

theorem yields_fill (hs : Sound m) (rounding : Rounding) {r : ℤ} (h0 : 0 ≤ r)
    (hlt : r ≤ m.total) :
    ∃ yields, cond (0 < r) ((allocate rounding r (claimsOf m)).map filledOf) (some [])
        = some yields ∧ Within m yields ∧
      (∀ k ∈ yields.map Prod.fst, k ∈ m.map Prod.fst) ∧ yields.total ≤ r ∧
      (rounding ≠ .floor → yields.total = r) := by
  by_cases hr : 0 < r
  · obtain ⟨a, ha, hf⟩ := allocate_fills rounding h0 hlt hs (by omega)
    refine ⟨filledOf a, ?_, hf.within hs, hf.sub hs, ?_, ?_⟩
    · rw [decide_eq_true hr, ha]
      rfl
    · rw [hf.total_filledOf hs]
      exact hf.sum_le
    · intro hne
      rw [hf.total_filledOf hs]
      exact hf.sum_eq hne
  · have hr0 : r = 0 := by omega
    refine ⟨[], by rw [decide_eq_false hr]; rfl, hs.within_nil, nofun, h0, fun _ => hr0.symm⟩

theorem amountOf_into_deferred (h : Sound m) {p : ℤ} (hp : 0 ≤ p) {deferred : Amounts}
    (hk : deferred.map Prod.fst = (yieldsOf m).map Prod.fst) (k : Bucket) :
    amountOf (Table.into (cond (0 < p) [(.principal, p)] []) deferred) k
      = if Bucket.principal = k then p else amountOf deferred k := by
  have hn : Bucket.principal ∉ deferred.map Prod.fst := hk ▸ principal_not_mem m
  have hnd : (deferred.map Prod.fst).Nodup := hk ▸ (sound_yieldsOf h).keys
  by_cases h0 : 0 < p
  · rw [decide_eq_true h0]
    show amountOf (Table.into [(.principal, p)] deferred) k = _
    rw [Table.into_fresh, List.singleton_append, amountOf_cons]
    rw [List.singleton_append, List.map_cons, List.nodup_cons]
    exact ⟨hn, hnd⟩
  · rw [decide_eq_false h0]
    show amountOf (Table.into [] deferred) k = _
    rw [Table.into_fresh [] deferred (by rwa [List.nil_append]), List.nil_append]
    split
    · next he =>
      subst he
      rw [amountOf_of_not_mem hn]
      omega
    · rfl

theorem principalFirst_decides (h : Sound m) (h0 : 0 ≤ available) (htop : available < 2 ^ 63)
    (hmode : policy.mode = .principalFirst) :
    ∃ d filled, calculateFulfillmentPrincipalFirst available m policy = some d ∧
      Decides available m filled policy d ∧
      (¬ m.total ≤ available → ∃ yields,
        cond (0 < available - min (amountOf m .principal) available)
          ((allocate policy.roundingPolicy (available - min (amountOf m .principal) available)
            (claimsOf (yieldsOf m))).map filledOf) (some []) = some yields ∧
        filled = (.principal, min (amountOf m .principal) available) :: yields) := by
  have hp0 := h.amountOf_nonneg .principal
  have hadd := total_eq_principal_add h.keys
  have hy0 := (sound_yieldsOf h).total_nonneg
  have hfits := h.fits
  unfold calculateFulfillmentPrincipalFirst
  dsimp only
  rw [long?_nonneg (show 0 ≤ available - min (amountOf m .principal) available by omega) (by omega)]
  simp only [Option.bind_eq_bind, Option.bind_some, (sound_yieldsOf h).sumRequested]
  rw [hadd, long?_nonneg h.total_nonneg hfits]
  simp only [Option.bind_some, long?_shortage h h0 htop]
  by_cases hle : m.total ≤ available
  · exact ⟨_, m, if_pos (shortage_eq_zero_iff.mpr hle), fullFill_decides h hle rfl,
      fun hn => absurd hle hn⟩
  · rw [if_neg (mt shortage_eq_zero_iff.mp hle), long?_nonneg
      (show 0 ≤ amountOf m .principal - min (amountOf m .principal) available by omega) (by omega)]
    obtain ⟨yields, hy, hw, hsub, hyle, hyeq⟩ := yields_fill (sound_yieldsOf h) policy.roundingPolicy
      (show 0 ≤ available - min (amountOf m .principal) available by omega) (by omega)
    simp only [Option.bind_some, hy, into_principal hw hsub]
    have hwf := within_principal h
      (show 0 ≤ min (amountOf m .principal) available ∧ _ ≤ amountOf m .principal by omega) hw hsub
    obtain ⟨deferred, hdo, hdk, hd⟩ := deferredOf_of (sound_yieldsOf h)
      ((.principal, min (amountOf m .principal) available) :: yields) fun k hk => by
        have hne : k ≠ .principal := fun he => principal_not_mem m (he ▸ hk)
        rw [amountOf_cons, if_neg (Ne.symm hne)]
        exact hw.bounds k
    simp only [hdo, Option.bind_some]
    rw [show max 0 (amountOf m .principal - min (amountOf m .principal) available)
      = amountOf m .principal - min (amountOf m .principal) available by omega]
    refine ⟨_, _, rfl, ?_, fun _ => ⟨yields, rfl, rfl⟩⟩
    apply partialFill_decides hle hwf
    · apply Table.nodup_into
      cases decide (0 < amountOf m .principal - min (amountOf m .principal) available)
      · exact List.nodup_nil
      · exact List.nodup_singleton _
    · intro k
      rw [amountOf_into_deferred h (by omega) hdk, amountOf_cons]
      by_cases hk : Bucket.principal = k
      · rw [if_pos hk, if_pos hk, hk]
      · rw [if_neg hk, if_neg hk, hd k, amountOf_cons, if_neg hk, amountOf_yieldsOf h (Ne.symm hk)]
        split
        · rfl
        · next hy =>
          have hm := mt (mem_yieldsOf (Ne.symm hk)).mpr hy
          rw [hw.eq_zero hy, amountOf_of_not_mem hm, sub_zero]
    · show min (amountOf m .principal) available + yields.total ≤ available
      omega
    · intro hr
      show min (amountOf m .principal) available + yields.total = _
      unfold served
      rw [hyeq hr, hmode]
      show _ = min available m.total
      omega
    · rfl

/-! ### waterfall -/

/-- what the buckets of a list are requested -/
def requestedIn (m : Amounts) (buckets : List Bucket) : ℤ := (buckets.map (amountOf m)).sum

/-- the tables of the loop over the buckets still to come: a bucket already seen is filled a
positive part of its amount, and the rest of it is deferred -/
structure LoopTables (m filled deferred : Amounts) (buckets : List Bucket) : Prop where
  keys : (filled.map Prod.fst).Nodup
  deferred_keys : (deferred.map Prod.fst).Nodup
  fresh : ∀ k ∈ buckets, k ∉ filled.map Prod.fst ∧ k ∉ deferred.map Prod.fst
  seen : ∀ k ∈ filled.map Prod.fst, 0 < amountOf filled k ∧ 0 ≤ amountOf deferred k ∧
    amountOf filled k + amountOf deferred k = amountOf m k
  kept : ∀ k, k ∉ filled.map Prod.fst → k ∉ deferred.map Prod.fst

theorem LoopTables.start (m : Amounts) (buckets : List Bucket) : LoopTables m [] [] buckets where
  keys := List.nodup_nil
  deferred_keys := List.nodup_nil
  fresh := fun _ _ => ⟨nofun, nofun⟩
  seen := nofun
  kept := fun _ _ => nofun

theorem mem_keys_put (f : Amounts) (k : Bucket) (v : ℤ) (k' : Bucket) :
    k' ∈ (Table.put f k v).map Prod.fst ↔ k' = k ∨ k' ∈ f.map Prod.fst := by
  rw [Table.keys_put]
  split
  · next hk =>
    constructor
    · exact Or.inr
    · rintro (rfl | h)
      · exact hk
      · exact h
  · rw [List.mem_append, List.mem_singleton, or_comm]

/-- one turn of the loop that fills something -/
theorem LoopTables.put {filled deferred : Amounts} {bucket : Bucket} {buckets : List Bucket}
    (ht : LoopTables m filled deferred (bucket :: buckets)) (hn : bucket ∉ buckets) {v w : ℤ}
    (hv : 0 < v) (hw : 0 ≤ w) (hvw : v + w = amountOf m bucket) :
    LoopTables m (Table.put filled bucket v)
      (if 0 < w then Table.put deferred bucket w else deferred) buckets := by
  have hfresh := ht.fresh bucket List.mem_cons_self
  have hdef : ∀ k, amountOf (if 0 < w then Table.put deferred bucket w else deferred) k
      = if bucket = k then w else amountOf deferred k := by
    intro k
    by_cases h0 : 0 < w
    · rw [if_pos h0, amountOf_put]
    · rw [if_neg h0]
      split
      · next he =>
        rw [← he, amountOf_of_not_mem hfresh.2]
        omega
      · rfl
  have hmem : ∀ k, k ∈ (if 0 < w then Table.put deferred bucket w else deferred).map Prod.fst →
      k = bucket ∨ k ∈ deferred.map Prod.fst := by
    intro k hk
    split at hk
    · exact (mem_keys_put _ _ _ _).mp hk
    · exact Or.inr hk
  constructor
  · exact Table.nodup_put ht.keys bucket v
  · split
    · exact Table.nodup_put ht.deferred_keys bucket w
    · exact ht.deferred_keys
  · intro k hk
    have hne : k ≠ bucket := fun he => hn (he ▸ hk)
    have hold := ht.fresh k (List.mem_cons_of_mem _ hk)
    constructor
    · rw [mem_keys_put, not_or]
      exact ⟨hne, hold.1⟩
    · intro hd
      rcases hmem k hd with he | hd
      · exact hne he
      · exact hold.2 hd
  · intro k hk
    rw [amountOf_put, hdef]
    by_cases he : bucket = k
    · subst he
      rw [if_pos rfl, if_pos rfl]
      exact ⟨hv, hw, hvw⟩
    · rw [if_neg he, if_neg he]
      rcases (mem_keys_put _ _ _ _).mp hk with he' | hk
      · exact absurd he'.symm he
      · exact ht.seen k hk
  · intro k hk hd
    rw [mem_keys_put, not_or] at hk
    rcases hmem k hd with he | hd
    · exact hk.1 he
    · exact ht.kept k hk.2 hd

theorem total_put {f : Amounts} {k : Bucket} (hk : k ∉ f.map Prod.fst) (v : ℤ) :
    Amounts.total (Table.put f k v) = f.total + v := by
  unfold Amounts.total
  rw [Table.put_fresh hk, List.map_append, List.sum_append]
  show _ + (v + 0) = _
  rw [add_zero]

/-- **The loop fills its buckets in order, as far as the liquidity goes.** -/
theorem waterfallLoop_spec (h : Sound m) {buckets : List Bucket} (hn : buckets.Nodup)
    {remaining : ℤ} (h0 : 0 ≤ remaining) (htop : remaining < 2 ^ 63) {filled deferred : Amounts}
    (ht : LoopTables m filled deferred buckets) :
    ∃ f d, waterfallLoop m remaining filled deferred buckets = some (f, d) ∧
      LoopTables m f d [] ∧ f.total = filled.total + min remaining (requestedIn m buckets) := by
  induction buckets generalizing remaining filled deferred with
  | nil =>
    refine ⟨filled, deferred, rfl, ht, ?_⟩
    show _ = filled.total + min remaining 0
    omega
  | cons bucket buckets ih =>
    rw [List.nodup_cons] at hn
    have hreq : 0 ≤ requestedIn m buckets := by
      apply List.sum_nonneg
      intro v hv
      obtain ⟨k, _, rfl⟩ := List.mem_map.mp hv
      exact h.amountOf_nonneg k
    have hamount := h.amountOf_nonneg bucket
    have hle := h.amountOf_le bucket
    have hfits := h.fits
    have hcons : requestedIn m (bucket :: buckets) = amountOf m bucket + requestedIn m buckets :=
      List.sum_cons
    unfold waterfallLoop
    by_cases hr : remaining = 0
    · rw [if_pos hr]
      refine ⟨filled, deferred, rfl, ⟨ht.keys, ht.deferred_keys, nofun, ht.seen, ht.kept⟩, ?_⟩
      omega
    · rw [if_neg hr]
      dsimp only
      rw [long?_nonneg (show 0 ≤ remaining - min (amountOf m bucket) remaining by omega) (by omega),
        long?_nonneg (show 0 ≤ amountOf m bucket - min (amountOf m bucket) remaining by omega)
          (by omega)]
      simp only [Option.bind_eq_bind, Option.bind_some]
      by_cases hz : amountOf m bucket = 0
      · -- nothing is requested of this bucket
        rw [if_neg (by omega), if_neg (by omega)]
        obtain ⟨f, d, hl, ht', htotal⟩ := ih hn.2
          (show 0 ≤ remaining - min (amountOf m bucket) remaining by omega) (by omega)
          ⟨ht.keys, ht.deferred_keys, fun k hk => ht.fresh k (List.mem_cons_of_mem _ hk), ht.seen,
            ht.kept⟩
        exact ⟨f, d, hl, ht', by omega⟩
      · rw [if_pos (show 0 < min (amountOf m bucket) remaining by omega), max_eq_right (by omega)]
        obtain ⟨f, d, hl, ht', htotal⟩ := ih hn.2
          (show 0 ≤ remaining - min (amountOf m bucket) remaining by omega) (by omega)
          (ht.put hn.1 (show 0 < min (amountOf m bucket) remaining by omega)
            (show 0 ≤ amountOf m bucket - min (amountOf m bucket) remaining by omega) (by omega))
        rw [total_put (ht.fresh bucket List.mem_cons_self).1] at htotal
        exact ⟨f, d, hl, ht', by omega⟩

theorem LoopTables.within (h : Sound m) {f d : Amounts} (ht : LoopTables m f d []) : Within m f where
  keys := ht.keys
  bounds := by
    intro k
    by_cases hk : k ∈ f.map Prod.fst
    · have := ht.seen k hk
      omega
    · rw [amountOf_of_not_mem hk]
      exact ⟨le_rfl, h.amountOf_nonneg k⟩

/-- the untouched buckets are deferred whole -/
theorem LoopTables.deferred (hm : (m.map Prod.fst).Nodup) {f d : Amounts}
    (ht : LoopTables m f d []) (k : Bucket) :
    amountOf (Table.into d (m.filter fun e => e.1 ∉ f.map Prod.fst)) k
      = amountOf m k - amountOf f k := by
  have hnd : ((m.filter fun e => e.1 ∉ f.map Prod.fst).map Prod.fst).Nodup :=
    hm.sublist (List.filter_sublist.map Prod.fst)
  have hread : amountOf (Table.into d (m.filter fun e => e.1 ∉ f.map Prod.fst)) k
      = ((Table.find (m.filter fun e => e.1 ∉ f.map Prod.fst) k).or (Table.find d k)).getD 0 :=
    congrArg (Option.getD · 0) (Table.find_into d hnd k)
  rw [hread]
  by_cases hk : k ∈ f.map Prod.fst
  · have hnone : Table.find (m.filter fun e => e.1 ∉ f.map Prod.fst) k = none := by
      rw [Table.find_eq_none_iff]
      intro hk'
      obtain ⟨e, he, rfl⟩ := List.mem_map.mp hk'
      exact (of_decide_eq_true (List.mem_filter.mp he).2) hk
    have hseen := ht.seen k hk
    rw [hnone, Option.none_or]
    show amountOf d k = _
    omega
  · rw [amountOf_of_not_mem hk, sub_zero, (Table.find_eq_none_iff d k).mpr (ht.kept k hk),
      Option.or_none]
    rcases amountOf_cases hm k with hmem | ⟨hn, h0⟩
    · rw [Table.find_of_mem hnd (List.mem_filter.mpr ⟨hmem, decide_eq_true hk⟩)]
      rfl
    · rw [h0, (Table.find_eq_none_iff _ k).mpr]
      · rfl
      · intro hk'
        obtain ⟨e, he, rfl⟩ := List.mem_map.mp hk'
        exact hn (List.mem_map_of_mem (List.mem_of_mem_filter he))

theorem requestedIn_eq (h : Sound m) {buckets : List Bucket} (hn : buckets.Nodup) :
    requestedIn m buckets = Amounts.total (m.filter fun e => e.1 ∈ buckets) := by
  have hkeys : ((buckets.map fun k => (k, amountOf m k)).map Prod.fst) = buckets := by
    rw [List.map_map]
    exact List.map_id buckets
  have htotal : requestedIn m buckets = Amounts.total (buckets.map fun k => (k, amountOf m k)) := by
    unfold requestedIn Amounts.total
    rw [List.map_map]
    rfl
  have hf : ((m.filter fun e => e.1 ∈ buckets).map Prod.fst).Nodup :=
    h.keys.sublist (List.filter_sublist.map Prod.fst)
  rw [htotal]
  refine total_congr (hkeys.symm ▸ hn) hf fun k => ?_
  by_cases hk : k ∈ buckets
  · have hone := amountOf_of_mem (hkeys.symm ▸ hn)
      (List.mem_map_of_mem (f := fun k => (k, amountOf m k)) hk)
    rw [hone]
    rcases amountOf_cases h.keys k with hmem | ⟨hm, h0⟩
    · exact (amountOf_of_mem hf (List.mem_filter.mpr ⟨hmem, decide_eq_true hk⟩)).symm
    · rw [h0, amountOf_of_not_mem]
      intro hk'
      obtain ⟨e, he, rfl⟩ := List.mem_map.mp hk'
      exact hm (List.mem_map_of_mem (List.mem_of_mem_filter he))
  · rw [amountOf_of_not_mem (by rwa [hkeys]), amountOf_of_not_mem]
    intro hk'
    obtain ⟨e, he, rfl⟩ := List.mem_map.mp hk'
    exact hk (of_decide_eq_true (List.mem_filter.mp he).2)

theorem waterfall_decides (h : Sound m) (h0 : 0 ≤ available) (htop : available < 2 ^ 63)
    (hmode : policy.mode = .waterfall) (hn : policy.fillOrder.Nodup) :
    ∃ d filled, calculateFulfillmentWaterfall available m policy = some d ∧
      Decides available m filled policy d ∧
      (¬ m.total ≤ available → ∃ deferred,
        waterfallLoop m available [] [] policy.fillOrder = some (filled, deferred)) := by
  unfold calculateFulfillmentWaterfall
  rw [h.sumRequested]
  simp only [Option.bind_eq_bind, Option.bind_some, long?_shortage h h0 htop]
  by_cases hle : m.total ≤ available
  · exact ⟨_, m, if_pos (shortage_eq_zero_iff.mpr hle), fullFill_decides h hle rfl,
      fun hn => absurd hle hn⟩
  · obtain ⟨f, d, hl, ht, htotal⟩ :=
      waterfallLoop_spec h hn h0 htop (LoopTables.start m policy.fillOrder)
    have htotal' : f.total = min available (requestedIn m policy.fillOrder) := by
      rw [htotal]
      exact zero_add _
    rw [if_neg (mt shortage_eq_zero_iff.mp hle), hl]
    refine ⟨_, f, rfl, ?_, fun _ => ⟨d, rfl⟩⟩
    apply partialFill_decides hle (ht.within h) (Table.nodup_into ht.deferred_keys _)
      (ht.deferred h.keys)
    · omega
    · intro _
      unfold served
      rw [hmode, htotal', requestedIn_eq h hn]
    · rfl

end

/-! ## from the position -/

/-- the claimable amount of a bucket -/
def claimable (pos : Position) (treatment : UnrealizedYieldTreatment) : Bucket → ℤ
  | .principal => max 0 (pos.principal - pos.principalImpairment)
  | .realizedYield => pos.realizedYield
  | .deferredYield => pos.deferredYield
  | .unrealizedYield => if treatment = .claimable then max 0 pos.unrealizedYield else 0
  | .other _ => 0

def claimableTotal (pos : Position) (treatment : UnrealizedYieldTreatment) : ℤ :=
  claimable pos treatment .principal + claimable pos treatment .realizedYield
    + claimable pos treatment .deferredYield + claimable pos treatment .unrealizedYield

/-- a position of longs, none of its yields negative -/
structure Position.WellFormed (pos : Position) : Prop where
  principal : Fits pos.principal
  impairment : Fits pos.principalImpairment
  net : Fits (pos.principal - pos.principalImpairment)
  realized : 0 ≤ pos.realizedYield ∧ pos.realizedYield < 2 ^ 63
  deferred : 0 ≤ pos.deferredYield ∧ pos.deferredYield < 2 ^ 63
  unrealized : Fits pos.unrealizedYield

section
variable {pos : Position} {policy : Policy}

/-- the claimable amounts that are not zero, in the order of the buckets -/
def requestedList (pos : Position) (treatment : UnrealizedYieldTreatment) : Amounts :=
  nonzero ([Bucket.principal, .realizedYield, .deferredYield, .unrealizedYield].map fun k =>
    (k, claimable pos treatment k))

theorem requestedOf_eq (h : pos.WellFormed) :
    requestedOf pos policy = some (requestedList pos policy.unrealizedYieldTreatment) := by
  have hp : claimablePrincipal pos = some (claimable pos policy.unrealizedYieldTreatment .principal) := by
    unfold claimablePrincipal
    rw [long?_of h.principal, long?_of h.impairment]
    show (long? (pos.principal - pos.principalImpairment) >>= _) = _
    rw [long?_of h.net]
    rfl
  have hr : claimableRealizedYield pos = some pos.realizedYield :=
    long?_nonneg h.realized.1 h.realized.2
  have hu : claimableUnrealizedYield pos = some (max 0 pos.unrealizedYield) := by
    unfold claimableUnrealizedYield
    rw [long?_of h.unrealized]
    rfl
  unfold requestedOf
  rw [hp, hr, long?_nonneg h.deferred.1 h.deferred.2, hu]
  by_cases ht : policy.unrealizedYieldTreatment = .claimable
  · rw [ht]
    rfl
  · rw [decide_eq_false ht]
    have hz : claimable pos policy.unrealizedYieldTreatment .unrealizedYield = 0 := if_neg ht
    show some (nonzero ([(.principal, _), (.realizedYield, _), (.deferredYield, _)] ++ []))
      = some (nonzero ([(.principal, _), (.realizedYield, _), (.deferredYield, _)]
        ++ [(.unrealizedYield, claimable pos policy.unrealizedYieldTreatment .unrealizedYield)]))
    rw [hz]
    unfold nonzero
    rw [List.filter_append, List.filter_append]
    rfl

theorem claimable_nonneg (h : pos.WellFormed) (treatment : UnrealizedYieldTreatment) (k : Bucket) :
    0 ≤ claimable pos treatment k := by
  have hr := h.realized
  have hd := h.deferred
  cases k with
  | principal => exact le_max_left _ _
  | realizedYield => exact hr.1
  | deferredYield => exact hd.1
  | unrealizedYield =>
    show 0 ≤ if treatment = .claimable then max 0 pos.unrealizedYield else 0
    split
    · exact le_max_left _ _
    · exact le_rfl
  | other name => exact le_rfl

theorem keys_all (pos : Position) (treatment : UnrealizedYieldTreatment) :
    (([Bucket.principal, .realizedYield, .deferredYield, .unrealizedYield].map fun k =>
      (k, claimable pos treatment k)).map Prod.fst).Nodup := by
  rw [List.map_map]
  show [Bucket.principal, .realizedYield, .deferredYield, .unrealizedYield].Nodup
  decide

theorem total_requestedList (pos : Position) (treatment : UnrealizedYieldTreatment) :
    (requestedList pos treatment).total = claimableTotal pos treatment := by
  unfold requestedList
  rw [total_nonzero]
  simp [Amounts.total, claimableTotal, add_assoc]

theorem amountOf_requestedList (pos : Position) (treatment : UnrealizedYieldTreatment)
    (k : Bucket) : amountOf (requestedList pos treatment) k = claimable pos treatment k := by
  have hfind := find_nonzero (keys_all pos treatment) k
  have hall : amountOf ([Bucket.principal, .realizedYield, .deferredYield, .unrealizedYield].map
      fun k => (k, claimable pos treatment k)) k = claimable pos treatment k := by
    cases k with
    | other name => exact amountOf_of_not_mem (by simp)
    | _ => exact amountOf_of_mem (keys_all pos treatment) (by simp)
  rw [hall] at hfind
  unfold amountOf requestedList
  rw [hfind]
  split
  · next h0 => exact h0.symm
  · rfl

theorem requestedList_sound (h : pos.WellFormed) {treatment : UnrealizedYieldTreatment}
    (hfit : claimableTotal pos treatment < 2 ^ 63) : Sound (requestedList pos treatment) where
  pos := by
    intro e he
    obtain ⟨he, hne⟩ := List.mem_filter.mp he
    obtain ⟨k, _, rfl⟩ := List.mem_map.mp he
    exact lt_of_le_of_ne (claimable_nonneg h treatment k) (Ne.symm (of_decide_eq_true hne))
  keys := (keys_all pos treatment).sublist (List.filter_sublist.map Prod.fst)
  fits := by
    rw [total_requestedList]
    exact hfit

end

end PRF.Yield
