import ProtocolRobustness.Yield.AccrualRuns

/-!
# The contract of the largest remainder allocator

What `largestRemainderAlloc` promises for whole weights: it returns, gives out the whole units of the
total, each claim between the floor and the ceiling of its exact share, and passes nobody over; and
`floorAndCarryAlloc` fills the same amounts.

* `Contract`                   the promise;
* `Weights`                    whole amounts in 64 bits, not all of them zero;
* `Divides.contract`           the rounded shares keep it;
* `largestRemainderAlloc_throws`   a total or a sum of weights over 64 bits is an exception;
* `meets_contract_iff`         so it is kept iff both of them fit.
-/

namespace PRF.Yield
open LongArith

section
variable {κ : Type} {total : ℚ} {claims : List (Claim κ)}

/-! ## the promise -/

def exactShare (total : ℚ) (claims : List (Claim κ)) (claim : Claim κ) : ℚ :=
  total * (claim.amount / claimsTotal claims)

/-- `x`, at place `i`, is served before `y`, at place `j`, when a unit is left over -/
def Precedes (total : ℚ) (claims : List (Claim κ)) (i j : ℕ) (x y : Claim κ) : Prop :=
  Int.fract (exactShare total claims y) < Int.fract (exactShare total claims x) ∨
    Int.fract (exactShare total claims x) = Int.fract (exactShare total claims y) ∧ i < j

structure Contract (total : ℚ) (claims : List (Claim κ)) (a : Allotment κ) : Prop where
  claims_eq : a.allocations.map Allotted.claim = claims
  nonneg : ∀ x ∈ a.allocations, 0 ≤ x.filled
  conserved : (a.allocations.map Allotted.filled).sum = ⌊total⌋
  quota : ∀ x ∈ a.allocations, ⌊exactShare total claims x.claim⌋ ≤ x.filled ∧
    x.filled ≤ ⌈exactShare total claims x.claim⌉
  ranked : ∀ (i j : ℕ) (x y : Allotted κ), a.allocations[i]? = some x → a.allocations[j]? = some y →
    Precedes total claims i j x.claim y.claim → ⌊exactShare total claims y.claim⌋ < y.filled →
    ⌊exactShare total claims x.claim⌋ < x.filled

/-- both allocators return, the first of them keeps the contract and the other fills the same -/
def MeetsContract (total : ℚ) (claims : List (Claim κ)) : Prop :=
  ∃ a b, largestRemainderAlloc total claims = some a ∧ floorAndCarryAlloc total claims = some b ∧
    Contract total claims a ∧ b.allocations.map Allotted.filled = a.allocations.map Allotted.filled

/-- whole amounts in 64 bits, without a basis of their own and not all zero -/
structure Weights (claims : List (Claim κ)) : Prop where
  whole : ∀ claim ∈ claims, claim.amount.den = 1
  nonneg : ∀ claim ∈ claims, 0 ≤ claim.amount
  fits : ∀ claim ∈ claims, claim.amount < 2 ^ 63
  no_basis : ∀ claim ∈ claims, claim.basis = none
  some_amount : ∃ claim ∈ claims, claim.amount ≠ 0

namespace Weights

theorem admitted (h : Weights claims) : Admitted claims := by
  intro claim hc
  refine ⟨h.nonneg claim hc, Int.floor_lt.mpr ?_⟩
  have hlt := h.fits claim hc
  push_cast
  exact hlt

theorem total_pos (h : Weights claims) : 0 < claimsTotal claims := by
  obtain ⟨claim, hc, hne⟩ := h.some_amount
  have hpos : 0 < claim.amount := lt_of_le_of_ne (h.nonneg claim hc) hne.symm
  exact hpos.trans_le (h.admitted.amount_le hc)

theorem total_whole (h : Weights claims) : (claimsTotal claims).den = 1 := by
  have hall : ∀ l : List (Claim κ), (∀ claim ∈ l, claim.amount.den = 1) →
      (claimsTotal l).den = 1 := by
    intro l
    induction l with
    | nil => exact fun _ => rfl
    | cons claim l ih =>
      intro hl
      have hrest := ih fun c hc => hl c (List.mem_cons_of_mem _ hc)
      have hfirst := hl claim List.mem_cons_self
      show (claim.amount + claimsTotal l).den = 1
      rw [← Rat.coe_int_num_of_den_eq_one hfirst, ← Rat.coe_int_num_of_den_eq_one hrest,
        ← Int.cast_add]
      exact Rat.den_intCast _
  exact hall claims h.whole

end Weights

/-! ## the rounded shares keep it -/

section
variable {a : Allotment κ}

/-- what the allocation at a place is -/
theorem Divides.at (h : Divides total claims a) {i : ℕ} {x : Allotted κ}
    (hx : a.allocations[i]? = some x) :
    i < (ideals total claims).length ∧
      exactShare total claims x.claim = (ideals total claims).getD i 0 ∧
      x.filled = Quota.share (fun i => (ideals total claims).getD i 0) total
        (List.range (ideals total claims).length) i := by
  have hclaim : claims[i]? = some x.claim := by
    rw [← h.claims_eq, List.getElem?_map, hx]
    rfl
  have hi : i < (ideals total claims).length := by
    rw [length_ideals]
    exact (List.getElem?_eq_some_iff.mp hclaim).1
  have hfilled : (roundedShares total (ideals total claims))[i]? = some x.filled := by
    rw [← h.filled_eq, List.getElem?_map, hx]
    rfl
  have hideal : (ideals total claims)[i]? = some (exactShare total claims x.claim) := by
    unfold ideals
    rw [List.getElem?_map, hclaim]
    rfl
  refine ⟨hi, ?_, ?_⟩
  · rw [List.getD_eq_getElem?_getD, hideal]
    rfl
  · unfold roundedShares at hfilled
    rw [List.getElem?_map, List.getElem?_range hi] at hfilled
    exact (Option.some.inj hfilled).symm

theorem Divides.over_iff (h : Divides total claims a) {i : ℕ} {x : Allotted κ}
    (hx : a.allocations[i]? = some x) :
    ⌊exactShare total claims x.claim⌋ < x.filled ↔
      i ∈ (Quota.ranked (fun i => (ideals total claims).getD i 0)
        (List.range (ideals total claims).length)).take
        (Quota.leftover (fun i => (ideals total claims).getD i 0) total
          (List.range (ideals total claims).length)).toNat := by
  obtain ⟨hi, hshare, hfilled⟩ := h.at hx
  rw [hshare, hfilled, Quota.share]
  split
  · next hin => exact iff_of_true (by omega) hin
  · next hout => exact iff_of_false (by omega) hout

theorem Divides.contract (h : Divides total claims a) (h0 : 0 ≤ total) (hw : Weights claims) :
    Contract total claims a := by
  have hs : claimsTotal claims ≠ 0 := hw.total_pos.ne'
  have hsum : (ideals total claims).sum = total := sum_ideals hs
  have hpos := ideals_nonneg h0 hw.admitted
  have hq : ((List.range (ideals total claims).length).map
      fun i => (ideals total claims).getD i 0).sum = total := by
    rw [map_getD_range, hsum]
  refine ⟨h.claims_eq, fun x hx => ?_, ?_, fun x hx => ?_, fun i j x y hx hy hpre hover => ?_⟩
  · apply roundedShares_nonneg hpos
    rw [← h.filled_eq]
    exact List.mem_map_of_mem hx
  · rw [h.filled_eq, sum_roundedShares hsum (ideals_ne_nil hs)]
  · obtain ⟨i, hi⟩ := List.getElem?_of_mem hx
    obtain ⟨_, hshare, hfilled⟩ := h.at hi
    rw [hshare, hfilled]
    exact ⟨Quota.floor_le_share i, Quota.share_le_ceil hq i⟩
  · obtain ⟨hi, hxi, _⟩ := h.at hx
    obtain ⟨hj, hyj, _⟩ := h.at hy
    rw [h.over_iff hx]
    unfold Precedes at hpre
    rw [hxi, hyj] at hpre
    refine Quota.mem_take_ranked_of_before List.nodup_range (List.mem_range.mpr hi)
      (hpre.elim le_of_lt fun he => he.1.ge) (fun htie => ?_) ((h.over_iff hy).mp hover)
    have hij : i < j := hpre.elim (fun hlt => absurd htie hlt.ne') And.right
    apply List.sublist_of_subperm_of_pairwise (r := (· < ·)) _ (by simp [hij])
      List.pairwise_lt_range
    apply List.subperm_of_subset
    · simp [hij.ne]
    · simp [hi, hj]

end

/-! ## exceptions -/

theorem ratio_throws {x : ℚ} (hw : x.den = 1) (h : 2 ^ 63 ≤ x) : ratio x = none := by
  have hnum : 2 ^ 63 ≤ x.num := by
    rw [← Rat.coe_int_num_of_den_eq_one hw] at h
    exact_mod_cast h
  unfold ratio long?
  rw [if_pos hw, if_neg fun hf : Fits x.num => not_lt.mpr hnum hf.2]
  rfl

theorem quantizeBaseUnits_throws {x : ℚ} (h0 : 0 ≤ x) (h : 2 ^ 63 ≤ ⌊x⌋) :
    quantizeBaseUnits x = none := by
  have hq : x.num.tdiv x.den = ⌊x⌋ := by
    rw [Rat.floor_def', Int.tdiv_eq_ediv_of_nonneg (Rat.num_nonneg.mpr h0)]
  unfold quantizeBaseUnits
  cases hr : ratio x with
  | none => rfl
  | some r =>
    obtain rfl := Accrual.ratio_eq hr
    show (long? (r.num.tdiv r.den) >>= _) = _
    rw [hq, long?, if_neg fun hf : Fits ⌊r⌋ => not_lt.mpr h hf.2]
    rfl

theorem idealOf_throws {claim : Claim κ} {s : ℚ} (hb : claim.basis = none) (hw : s.den = 1)
    (h : 2 ^ 63 ≤ s) : idealOf total s claim = none := by
  unfold idealOf
  cases ratio claim.amount with
  | none => rfl
  | some amount =>
    show (ratio (claim.basis.getD s) >>= _) = _
    rw [hb]
    show (ratio s >>= _) = _
    rw [ratio_throws hw h]
    rfl

theorem largestRemainderAlloc_throws (h0 : 0 ≤ total) (hw : Weights claims)
    (h : 2 ^ 63 ≤ ⌊total⌋ ∨ 2 ^ 63 ≤ claimsTotal claims) :
    largestRemainderAlloc total claims = none := by
  rw [Option.eq_none_iff_forall_ne_some]
  intro a ha
  unfold largestRemainderAlloc at ha
  simp only [Option.bind_eq_bind, Option.bind_eq_some_iff] at ha
  obtain ⟨t, ht, _, _, _, _, ⟨units, rem⟩, hquantized, amounts, hamounts, ha⟩ := ha
  obtain rfl := Accrual.ratio_eq ht
  obtain rfl : claims.map Claim.amount = amounts :=
    Option.some.inj ((mapM_ratio hw.admitted).symm.trans hamounts)
  rcases h with htop | hsum
  · rw [quantizeBaseUnits_throws h0 htop] at hquantized
    cases hquantized
  · rw [if_neg (show ¬ (claims.map Claim.amount).sum = 0 from hw.total_pos.ne')] at ha
    obtain ⟨ideal, hideal, _⟩ := Option.bind_eq_some_iff.mp ha
    obtain ⟨claim, hc, _⟩ := hw.some_amount
    obtain ⟨x, _, hx⟩ := Fallible.exists_of_mem_left (Fallible.mapM_eq_some_iff.mp hideal) hc
    have hnone : idealOf t (claimsTotal claims) claim = none :=
      idealOf_throws (hw.no_basis claim hc) hw.total_whole hsum
    cases hnone.symm.trans hx

/-- the contract is kept iff the whole units of the total and the sum of the weights fit 64 bits -/
theorem meets_contract_iff (h0 : 0 ≤ total) (hw : Weights claims) :
    MeetsContract total claims ↔ ⌊total⌋ < 2 ^ 63 ∧ claimsTotal claims < 2 ^ 63 := by
  constructor
  · rintro ⟨a, b, ha, _⟩
    by_contra hfits
    have hover : 2 ^ 63 ≤ ⌊total⌋ ∨ 2 ^ 63 ≤ claimsTotal claims := by
      rcases not_and_or.mp hfits with h | h
      · exact Or.inl (not_lt.mp h)
      · exact Or.inr (not_lt.mp h)
    rw [largestRemainderAlloc_throws h0 hw hover] at ha
    cases ha
  · rintro ⟨htop, hsum⟩
    have hs : claimsTotal claims ≠ 0 := hw.total_pos.ne'
    have hfloor : ⌊claimsTotal claims⌋ < 2 ^ 63 := by
      rw [Int.floor_lt]
      push_cast
      exact hsum
    obtain ⟨a, ha, hdiv⟩ :=
      largestRemainderAlloc_divides h0 htop hw.admitted hw.no_basis hs hfloor
    obtain ⟨b, hb, hdiv'⟩ := floorAndCarryAlloc_divides h0 htop hw.admitted hs
    exact ⟨a, b, ha, hb, hdiv.contract h0 hw, by rw [hdiv'.filled_eq, hdiv.filled_eq]⟩

end

/-! ## three equal weights, and two weights of half the range -/

def equalWeights : List (Claim ℕ) := [⟨0, 3, none⟩, ⟨1, 3, none⟩, ⟨2, 3, none⟩]

theorem equalWeights_weights : Weights equalWeights :=
  ⟨by decide, by decide +kernel, by decide +kernel, by decide, by decide +kernel⟩

/-- 10 over three equal weights -/
theorem meets_contract_equal : MeetsContract 10 equalWeights :=
  (meets_contract_iff (by norm_num) equalWeights_weights).mpr ⟨by decide +kernel, by decide +kernel⟩

/-- two weights of 2^62 are a long each, and their sum is not -/
def halfWeights : List (Claim ℕ) := [⟨0, 2 ^ 62, none⟩, ⟨1, 2 ^ 62, none⟩]

theorem halfWeights_throw : 0 ≤ (10 : ℚ) ∧ Weights halfWeights ∧
    largestRemainderAlloc 10 halfWeights = none ∧
    (floorAndCarryAlloc 10 halfWeights).map (fun a => a.allocations.map Allotted.filled) =
      some [5, 5] ∧
    ¬ MeetsContract 10 halfWeights := by
  have hnone : largestRemainderAlloc 10 halfWeights = none :=
    Option.isNone_iff_eq_none.mp (by decide +kernel)
  have hw : Weights halfWeights :=
    ⟨by decide +kernel, by decide +kernel, by decide +kernel, by decide, by decide +kernel⟩
  refine ⟨by norm_num, hw, hnone, by decide +kernel, ?_⟩
  rintro ⟨a, _, ha, _⟩
  rw [hnone] at ha
  cases ha

end PRF.Yield
