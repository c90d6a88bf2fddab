import ProtocolRobustness.Allocation.Kernel
import ProtocolRobustness.Library.CommonDenominator
import ProtocolRobustness.Library.Fallible
import ProtocolRobustness.Library.GroupSum

/-!
# A passing round is a fair lottery

What the fourteen assertions come to when they all hold.

* `amountOf`, `expected`   what an outcome gives a claim, and the lottery on average;
* `buildContext_spec`      a context has distinct ids and a rate for each outcome;
* `Admissible`             the checks of the proposal as statements;
* `expected_eq`            each claimant's expectation is the exact pro-rata share;
* `Settles`                a result covers each claimant once, all or nothing, to the capacity;
* `runKernel_fair`         all of this for a document that passes.
-/

namespace PRF.Allocation
open Bytes Lifecycle Fallible

/-! ## lotteries -/

def Rate.toRat (r : Rate) : ℚ := r.numerator / r.denominator

/-- the entries of an outcome -/
def shares (o : Outcome) : List (String × ℤ) :=
  o.allocations.map fun e => (e.claimId, (e.allocated : ℤ))

/-- what the entries of an outcome under a claim add up to -/
def amountOf (o : Outcome) (claimId : String) : ℤ := GroupSum.net (shares o) claimId

/-- the amounts of a claim in the outcomes, weighted with their rates -/
def expected (c : Context) (claimId : String) : ℚ :=
  ((c.outcomes.zip c.proposedRates).map fun e => e.2.rate.toRat * (amountOf e.1 claimId : ℚ)).sum

/-- one leaf for each claimant, with nothing or the whole amount, to the capacity -/
structure Settles (c : Context) (o : Outcome) (leaves : List Leaf) : Prop where
  covers : leaves.map Leaf.claimId = c.claimants.map Claimant.claimId
  once : (leaves.map Leaf.claimId).Nodup
  allOrNothing : ∀ e ∈ leaves.zip c.claimants, e.1.claimId = e.2.claimId ∧
    (e.1.finalAllocation = 0 ∨ e.1.finalAllocation = e.2.amount)
  selected : ∀ leaf ∈ leaves, (leaf.finalAllocation : ℤ) = amountOf o leaf.claimId
  exhausts : (leaves.map Leaf.finalAllocation).sum = c.capacity

/-! ## what a context is like -/

section
variable {keyBytes : String → ByteString} {prStr : Json → String}

theorem not_hasDuplicates {ids : List String} (h : (!hasDuplicates ids) = true) : ids.Nodup := by
  rw [List.nodup_iff_count_le_one]
  intro id
  by_cases hid : id ∈ ids
  · have hno : hasDuplicates ids = false := by simpa using h
    have hcount := List.any_eq_false.mp hno id hid
    simp at hcount
    omega
  · rw [List.count_eq_zero_of_not_mem hid]
    omega

theorem sortByCanonical_perm {α : Type} (keyBytes : String → ByteString) (key : α → String) (xs : List α) :
    (sortByCanonical keyBytes key xs).Perm xs :=
  List.perm_insertionSort _ xs

theorem canonicalClaimants_nodup {raw : Option Json} {forbid : Bool} {claimants : List Claimant}
    (h : canonicalClaimants keyBytes prStr raw forbid = .ok claimants) :
    (claimants.map Claimant.claimId).Nodup := by
  obtain ⟨raws, _, h⟩ := bind_eq_ok.mp h
  obtain ⟨parsed, _, h⟩ := bind_eq_ok.mp h
  obtain ⟨_, hids, h⟩ := bind_eq_ok.mp h
  obtain ⟨_, _, h⟩ := bind_eq_ok.mp h
  obtain rfl := Except.ok.inj h
  have hperm := (sortByCanonical_perm keyBytes Claimant.claimId parsed).map
    Claimant.claimId
  exact hperm.nodup_iff.mpr (not_hasDuplicates (whenNot_eq_ok.mp hids))

theorem canonicalOutcomes_nodup {raw : Option Json} {outcomes : List Outcome}
    (h : canonicalOutcomes keyBytes prStr raw = .ok outcomes) :
    (outcomes.map Outcome.outcomeId).Nodup := by
  obtain ⟨raws, _, h⟩ := bind_eq_ok.mp h
  obtain ⟨parsed, _, h⟩ := bind_eq_ok.mp h
  obtain ⟨_, hids, h⟩ := bind_eq_ok.mp h
  obtain rfl := Except.ok.inj h
  have hperm := (sortByCanonical_perm keyBytes Outcome.outcomeId (parsed.map fun o =>
    { o with allocations := sortByCanonical keyBytes Entry.claimId o.allocations })).map
    Outcome.outcomeId
  refine hperm.nodup_iff.mpr ?_
  rw [List.map_map]
  exact not_hasDuplicates (whenNot_eq_ok.mp hids)

theorem canonicalProposedRates_aligned {raw : Option Json} {outcomes : List Outcome}
    {rates : List ProposedRate} (h : canonicalProposedRates prStr raw outcomes = .ok rates) :
    rates.map ProposedRate.outcomeId = outcomes.map Outcome.outcomeId := by
  obtain ⟨raws, _, h⟩ := bind_eq_ok.mp h
  obtain ⟨parsed, _, h⟩ := bind_eq_ok.mp h
  obtain ⟨_, hcover, h⟩ := bind_eq_ok.mp h
  obtain rfl := Except.ok.inj h
  rw [whenNot_eq_ok, Bool.and_eq_true, List.all_eq_true] at hcover
  rw [List.map_filterMap]
  refine (List.filterMap_congr fun id hid => ?_).trans List.filterMap_some
  have hkey := of_decide_eq_true (hcover.1 id hid)
  cases hf : Table.find (Table.into [] parsed) id with
  | none => exact absurd hkey ((Table.find_eq_none_iff _ _).mp hf)
  | some rate => rfl

/-- what the construction of a context guarantees -/
structure WellFormed (c : Context) : Prop where
  claimIds : (c.claimants.map Claimant.claimId).Nodup
  outcomeIds : (c.outcomes.map Outcome.outcomeId).Nodup
  aligned : c.proposedRates.map ProposedRate.outcomeId = c.outcomes.map Outcome.outcomeId
  weights : c.totalEligibleWeight = (c.claimants.map Claimant.weight).sum
  positive : 0 < c.totalEligibleWeight

theorem buildContext_spec {input : Json} {c : Context}
    (h : buildContext keyBytes prStr input = .ok c) : WellFormed c := by
  obtain ⟨_, _, h⟩ := bind_eq_ok.mp h
  obtain ⟨policy, _, h⟩ := bind_eq_ok.mp h
  obtain ⟨capacity, _, h⟩ := bind_eq_ok.mp h
  obtain ⟨declaredTotalWeight, _, h⟩ := bind_eq_ok.mp h
  obtain ⟨declaredDenominator, _, h⟩ := bind_eq_ok.mp h
  obtain ⟨allocationId, _, h⟩ := bind_eq_ok.mp h
  obtain ⟨_, _, h⟩ := bind_eq_ok.mp h
  obtain ⟨_, _, h⟩ := bind_eq_ok.mp h
  obtain ⟨_, _, h⟩ := bind_eq_ok.mp h
  obtain ⟨randomness, _, h⟩ := bind_eq_ok.mp h
  obtain ⟨claimants, hclaimants, h⟩ := bind_eq_ok.mp h
  obtain ⟨outcomes, houtcomes, h⟩ := bind_eq_ok.mp h
  obtain ⟨_, _, h⟩ := bind_eq_ok.mp h
  obtain ⟨_, _, h⟩ := bind_eq_ok.mp h
  obtain ⟨_, hpositive, h⟩ := bind_eq_ok.mp h
  obtain ⟨_, _, h⟩ := bind_eq_ok.mp h
  obtain ⟨_, _, h⟩ := bind_eq_ok.mp h
  obtain ⟨rates, hrates, h⟩ := bind_eq_ok.mp h
  obtain rfl := Except.ok.inj h
  exact {
    claimIds := canonicalClaimants_nodup hclaimants
    outcomeIds := canonicalOutcomes_nodup houtcomes
    aligned := canonicalProposedRates_aligned hrates
    weights := rfl
    positive := Nat.pos_of_ne_zero (of_decide_eq_true (whenNot_eq_ok.mp hpositive)) }

end

/-! ## what the checks say -/

/-- the checks of the proposal as statements -/
structure Admissible (c : Context) : Prop where
  sumToOne : (scaledNumerators c.proposedRates).sum = commonDenominator c.proposedRates
  eligible : ∀ o ∈ c.outcomes, ∀ e ∈ o.allocations, e.claimId ∈ c.claimants.map Claimant.claimId
  noDuplicates : ∀ o ∈ c.outcomes, (o.allocations.map Entry.claimId).Nodup
  allOrNothing : ∀ o ∈ c.outcomes, ∀ e ∈ o.allocations, ∀ claimant ∈ c.claimants,
    claimant.claimId = e.claimId → e.allocated = 0 ∨ e.allocated = claimant.amount
  exactCapacity : ∀ o ∈ c.outcomes, c.capacity = (o.allocations.map Entry.allocated).sum
  proportional : ∀ e ∈ (expectedNumerators c).zip (c.claimants.map Claimant.weight),
    e.1 * c.totalEligibleWeight = c.capacity * e.2 * commonDenominator c.proposedRates

theorem amounts_find {c : Context} (hids : (c.claimants.map Claimant.claimId).Nodup)
    {claimant : Claimant} (h : claimant ∈ c.claimants) :
    Table.find (Table.into [] (c.claimants.map fun x => (x.claimId, x.amount))) claimant.claimId
      = some claimant.amount := by
  have hkeys : ((c.claimants.map fun x => (x.claimId, x.amount)).map Prod.fst).Nodup := by
    rw [List.map_map]
    exact hids
  rw [Table.into_fresh [] _ hkeys, List.nil_append]
  exact Table.find_of_mem hkeys (List.mem_map_of_mem h)

theorem admissible_of_checks {c : Context} (hids : (c.claimants.map Claimant.claimId).Nodup)
    (hsum : ratesSumToOne c.proposedRates = true) (heligible : outcomesEligibleOnly c = true)
    (hdup : outcomesNoDuplicateClaims c = true) (hall : outcomesAllOrNothing c = true)
    (hcap : outcomesExactCapacity c = true) (hprop : proportionalProposed c = true) :
    Admissible c := by
  unfold outcomesEligibleOnly at heligible
  unfold outcomesNoDuplicateClaims at hdup
  unfold outcomesAllOrNothing at hall
  unfold outcomesExactCapacity at hcap
  unfold proportionalProposed at hprop
  simp only [List.all_eq_true, decide_eq_true_iff] at heligible hdup hall hcap hprop
  refine ⟨of_decide_eq_true hsum, heligible, hdup, ?_, hcap, hprop⟩
  intro o ho e he claimant hclaimant hid
  have h := hall o ho e he
  rw [← hid, amounts_find hids hclaimant, Bool.or_eq_true, decide_eq_true_iff, decide_eq_true_iff]
    at h
  exact h.imp_right Option.some.inj

/-! ## the amounts of an outcome -/

section
variable {o : Outcome} (hdup : (o.allocations.map Entry.claimId).Nodup) (claimId : String)
include hdup

theorem shares_nodup : ((shares o).map Prod.fst).Nodup := by
  unfold shares
  rw [List.map_map]
  exact hdup

theorem firstAllocated_eq : (firstAllocated o claimId : ℤ) = amountOf o claimId := by
  unfold firstAllocated amountOf
  cases hf : o.allocations.find? fun e => e.claimId = claimId with
  | none =>
    have hno : claimId ∉ (shares o).map Prod.fst := by
      intro h
      unfold shares at h
      rw [List.map_map] at h
      obtain ⟨e, he, rfl⟩ := List.mem_map.mp h
      exact List.find?_eq_none.mp hf e he (by simp)
    rw [GroupSum.net_of_not_mem hno]
    rfl
  | some e =>
    have hid : e.claimId = claimId := by simpa using List.find?_some hf
    have hmem : (claimId, (e.allocated : ℤ)) ∈ shares o :=
      hid ▸ List.mem_map_of_mem (List.mem_of_find?_eq_some hf)
    exact (GroupSum.net_of_mem (shares_nodup hdup) hmem).symm

/-- and so does reading the last one -/
theorem lastAllocated_eq : (lastAllocated o claimId : ℤ) = amountOf o claimId := by
  have hkeys : ((o.allocations.map fun e => (e.claimId, e.allocated)).map Prod.fst).Nodup := by
    rw [List.map_map]
    exact hdup
  unfold lastAllocated amountOf
  rw [Table.into_fresh [] _ hkeys, List.nil_append]
  cases hf : Table.find (o.allocations.map fun e => (e.claimId, e.allocated)) claimId with
  | none =>
    rw [Table.find_eq_none_iff, List.map_map] at hf
    have hno : claimId ∉ (shares o).map Prod.fst := by
      unfold shares
      rw [List.map_map]
      exact hf
    rw [GroupSum.net_of_not_mem hno]
    rfl
  | some n =>
    obtain ⟨e, he, hen⟩ := List.mem_map.mp (Table.mem_of_find hf)
    obtain ⟨rfl, rfl⟩ := Prod.mk.inj hen
    exact (GroupSum.net_of_mem (shares_nodup hdup) (List.mem_map_of_mem he)).symm

theorem lastAllocated_mem : lastAllocated o claimId = 0 ∨
    ∃ e ∈ o.allocations, e.claimId = claimId ∧ lastAllocated o claimId = e.allocated := by
  have hkeys : ((o.allocations.map fun e => (e.claimId, e.allocated)).map Prod.fst).Nodup := by
    rw [List.map_map]
    exact hdup
  unfold lastAllocated
  rw [Table.into_fresh [] _ hkeys, List.nil_append]
  cases hf : Table.find (o.allocations.map fun e => (e.claimId, e.allocated)) claimId with
  | none => exact Or.inl rfl
  | some n =>
    obtain ⟨e, he, hen⟩ := List.mem_map.mp (Table.mem_of_find hf)
    obtain ⟨hid, hn⟩ := Prod.mk.inj hen
    exact Or.inr ⟨e, he, hid, hn.symm⟩

end

/-! ## rates -/

theorem commonDenominator_eq (rates : List ProposedRate) : commonDenominator rates
    = CommonDenominator.common (rates.map fun r => r.rate.denominator) := by
  unfold commonDenominator CommonDenominator.common
  rw [List.foldl_map]
  congr 1
  funext acc r
  have hlcm : Nat.lcm acc r.rate.denominator
      = acc * r.rate.denominator / Nat.gcd acc r.rate.denominator := rfl
  rw [hlcm, Nat.mul_div_right_comm (Nat.gcd_dvd_left _ _)]

section
variable {rates : List ProposedRate}

theorem denominator_dvd {r : ProposedRate} (h : r ∈ rates) :
    r.rate.denominator ∣ commonDenominator rates := by
  rw [commonDenominator_eq]
  exact CommonDenominator.dvd_common (List.mem_map_of_mem h)

theorem commonDenominator_pos : 0 < commonDenominator rates := by
  rw [commonDenominator_eq]
  refine CommonDenominator.common_pos fun d hd => ?_
  obtain ⟨r, _, rfl⟩ := List.mem_map.mp hd
  exact r.rate.pos

/-- **The rates are a probability distribution.** -/
theorem sum_rates (h : (scaledNumerators rates).sum = commonDenominator rates) :
    (rates.map fun r => r.rate.toRat).sum = 1 := by
  have hw := CommonDenominator.weighted_sum (fun r : ProposedRate => r.rate.numerator)
    (fun r => r.rate.denominator) (fun r (hr : r ∈ rates) => denominator_dvd hr)
    (fun r _ => r.rate.pos) fun _ => 1
  simp only [mul_one, Nat.cast_one] at hw
  have hcast : ((scaledNumerators rates).sum : ℚ)
      = commonDenominator rates * (rates.map fun r => r.rate.toRat).sum := hw
  rw [h] at hcast
  have hD : (commonDenominator rates : ℚ) ≠ 0 := by exact_mod_cast commonDenominator_pos.ne'
  exact mul_left_cancel₀ hD (hcast.symm.trans (mul_one _).symm)

end

/-! ## the shares of the claimants -/

theorem expectedNumerator_cast {c : Context} (ha : Admissible c) (claimId : String) :
    ((((c.outcomes.zip (scaledNumerators c.proposedRates)).map fun e =>
      e.2 * firstAllocated e.1 claimId).sum : ℕ) : ℚ)
      = commonDenominator c.proposedRates * expected c claimId := by
  have hw := CommonDenominator.weighted_sum (fun e : Outcome × ProposedRate => e.2.rate.numerator)
    (fun e => e.2.rate.denominator) (D := commonDenominator c.proposedRates)
    (l := c.outcomes.zip c.proposedRates)
    (fun e he => denominator_dvd (List.of_mem_zip he).2) (fun e _ => e.2.rate.pos)
    fun e => firstAllocated e.1 claimId
  unfold scaledNumerators expected
  rw [List.zip_map_right, List.map_map]
  refine Eq.trans hw ?_
  congr 2
  refine List.map_congr_left fun e he => ?_
  have hfirst := firstAllocated_eq (ha.noDuplicates e.1 (List.of_mem_zip he).1) claimId
  show e.2.rate.toRat * (firstAllocated e.1 claimId : ℚ) = _
  rw [← hfirst, Int.cast_natCast]

section
variable {c : Context} (hc : WellFormed c) (ha : Admissible c)
include hc ha

/-- **A claimant's expectation is its exact pro-rata share of the capacity.** -/
theorem expected_eq {claimant : Claimant} (h : claimant ∈ c.claimants) :
    expected c claimant.claimId = (c.capacity : ℚ) * claimant.weight / c.totalEligibleWeight := by
  have hpair : (((c.outcomes.zip (scaledNumerators c.proposedRates)).map fun e =>
      e.2 * firstAllocated e.1 claimant.claimId).sum, claimant.weight)
      ∈ (expectedNumerators c).zip (c.claimants.map Claimant.weight) := by
    unfold expectedNumerators
    rw [List.zip_map']
    exact List.mem_map_of_mem h
  have hcross := ha.proportional _ hpair
  have hcast : ((((c.outcomes.zip (scaledNumerators c.proposedRates)).map fun e =>
      e.2 * firstAllocated e.1 claimant.claimId).sum : ℕ) : ℚ) * c.totalEligibleWeight
      = c.capacity * claimant.weight * commonDenominator c.proposedRates := by
    exact_mod_cast hcross
  have hD : (commonDenominator c.proposedRates : ℚ) ≠ 0 := by
    exact_mod_cast commonDenominator_pos.ne'
  have hW : (c.totalEligibleWeight : ℚ) ≠ 0 := by exact_mod_cast hc.positive.ne'
  rw [expectedNumerator_cast ha] at hcast
  rw [eq_div_iff hW]
  refine mul_left_cancel₀ hD ?_
  linear_combination hcast

/-! ## results -/

/-- **Whichever outcome is drawn, its result settles the round.** -/
theorem settles {o : Outcome} (ho : o ∈ c.outcomes) (contextHash : String) :
    Settles c o (resultLeaves c o contextHash) := by
  have hdup := ha.noDuplicates o ho
  have hids : (resultLeaves c o contextHash).map Leaf.claimId
      = c.claimants.map Claimant.claimId := by
    unfold resultLeaves
    rw [List.map_map]
    rfl
  refine ⟨hids, hids ▸ hc.claimIds, ?_, ?_, ?_⟩
  · intro e he
    have hzip : (resultLeaves c o contextHash).zip c.claimants
        = c.claimants.map fun claimant => (resultLeaf o contextHash claimant, claimant) := by
      unfold resultLeaves
      conv_lhs => rw [← List.map_id c.claimants, List.map_map, List.zip_map']
      rfl
    rw [hzip] at he
    obtain ⟨claimant, hclaimant, rfl⟩ := List.mem_map.mp he
    refine ⟨rfl, ?_⟩
    show lastAllocated o claimant.claimId = 0 ∨ lastAllocated o claimant.claimId = claimant.amount
    rcases lastAllocated_mem hdup claimant.claimId with hzero | ⟨e, he, hid, hlast⟩
    · exact Or.inl hzero
    · rw [hlast]
      exact ha.allOrNothing o ho e he claimant hclaimant hid.symm
  · intro leaf hleaf
    obtain ⟨claimant, _, rfl⟩ := List.mem_map.mp hleaf
    exact lastAllocated_eq hdup claimant.claimId
  · have hshares : ∀ e ∈ shares o, e.1 ∈ c.claimants.map Claimant.claimId := by
      intro e he
      obtain ⟨entry, hentry, rfl⟩ := List.mem_map.mp he
      exact ha.eligible o ho entry hentry
    have hsum := GroupSum.sum_net hc.claimIds hshares
    have hleaves : (((resultLeaves c o contextHash).map Leaf.finalAllocation).sum : ℤ)
        = ((c.claimants.map Claimant.claimId).map (GroupSum.net (shares o))).sum := by
      unfold resultLeaves
      rw [Nat.cast_list_sum, List.map_map, List.map_map, List.map_map]
      congr 1
      exact List.map_congr_left fun claimant _ => lastAllocated_eq hdup claimant.claimId
    have hall : ((shares o).map Prod.snd).sum = (c.capacity : ℤ) := by
      unfold shares
      rw [List.map_map, ha.exactCapacity o ho, Nat.cast_list_sum, List.map_map]
      rfl
    exact_mod_cast hleaves.trans (hsum.trans hall)

end

/-! ## the kernel -/

section
variable {domainHash : String → Value → ByteString} {hashBytes : ByteString → ByteString}
  {keyBytes : String → ByteString} {prStr : Json → String} {fuel : ℕ} {input : Json}

theorem runKernel_spec {p : Published}
    (h : runKernel domainHash hashBytes keyBytes prStr fuel input = some (.passing p)) :
    ∃ c committed, buildContext keyBytes prStr input = .ok c ∧
      compute domainHash hashBytes fuel c = some p.computed ∧
      (runAssertions domainHash hashBytes c committed p.computed
        (input.field "rounding-policy")).all Assertion.result = true := by
  unfold runKernel at h
  dsimp only at h
  split at h
  · cases h
  · next c committed hparsed =>
    obtain ⟨c', hc, hparsed⟩ := bind_eq_ok.mp hparsed
    obtain ⟨committed', _, hparsed⟩ := bind_eq_ok.mp hparsed
    obtain ⟨rfl, rfl⟩ := Prod.mk.inj (Except.ok.inj hparsed)
    obtain ⟨x, hx, hanswer⟩ := Option.bind_eq_some_iff.mp h
    have hanswer := Option.some.inj hanswer
    split at hanswer
    · next hall =>
      obtain rfl := Answer.passing.inj hanswer
      exact ⟨c', committed', hc, hx, hall⟩
    · cases hanswer

theorem compute_spec {c : Context} {x : Computed}
    (h : compute domainHash hashBytes fuel c = some x) :
    x.selectedOutcome ∈ c.outcomes ∧
      x.leaves = resultLeaves c x.selectedOutcome (contextHash domainHash c) ∧
      x.totalAllocated = (x.leaves.map Leaf.finalAllocation).sum ∧
      x.residualCapacity = c.capacity - x.totalAllocated ∧
      x.proposedRatesRoot = proposedRatesRoot domainHash c := by
  obtain ⟨sel, _, h⟩ := Option.bind_eq_some_iff.mp h
  obtain ⟨selected, hselected, h⟩ := Option.bind_eq_some_iff.mp h
  obtain ⟨resultRoot, _, h⟩ := Option.bind_eq_some_iff.mp h
  obtain rfl := Option.some.inj h
  exact ⟨List.mem_of_getElem? hselected, rfl, rfl, rfl, rfl⟩

theorem admissible_of_assertions {c : Context} {committed : Committed} {x : Computed}
    {roundingPolicy : Option Json} (hids : (c.claimants.map Claimant.claimId).Nodup)
    (h : (runAssertions domainHash hashBytes c committed x roundingPolicy).all
      Assertion.result = true) : Admissible c := by
  unfold runAssertions at h
  simp only [List.all_cons, Bool.and_eq_true] at h
  obtain ⟨_, _, _, _, hsum, heligible, hdup, hall, hcap, hprop, _⟩ := h
  exact admissible_of_checks hids hsum heligible hdup hall hcap hprop

/-- **A document that passes is a fair lottery.**  Its rates are a probability distribution over the
outcomes, every claimant may expect its exact pro-rata share, and the result of whichever outcome is
drawn covers each claimant once, all or nothing, to the capacity. -/
theorem runKernel_fair {p : Published}
    (h : runKernel domainHash hashBytes keyBytes prStr fuel input = some (.passing p)) :
    ∃ c, buildContext keyBytes prStr input = .ok c ∧
      p.computed.proposedRatesRoot = proposedRatesRoot domainHash c ∧
      (c.outcomes.map Outcome.outcomeId).Nodup ∧
      c.proposedRates.map ProposedRate.outcomeId = c.outcomes.map Outcome.outcomeId ∧
      (∀ r ∈ c.proposedRates, 0 ≤ r.rate.toRat) ∧
      (c.proposedRates.map fun r => r.rate.toRat).sum = 1 ∧
      c.totalEligibleWeight = (c.claimants.map Claimant.weight).sum ∧
      (∀ claimant ∈ c.claimants, expected c claimant.claimId
        = (c.capacity : ℚ) * claimant.weight / c.totalEligibleWeight) ∧
      (∀ o ∈ c.outcomes, Settles c o (resultLeaves c o (contextHash domainHash c))) ∧
      p.computed.selectedOutcome ∈ c.outcomes ∧
      Settles c p.computed.selectedOutcome p.computed.leaves ∧
      p.computed.totalAllocated = c.capacity ∧ p.computed.residualCapacity = 0 := by
  obtain ⟨c, committed, hcontext, hcompute, hassertions⟩ := runKernel_spec h
  have hc := buildContext_spec hcontext
  have ha := admissible_of_assertions hc.claimIds hassertions
  obtain ⟨hselected, hleaves, htotal, hresidual, hrates⟩ := compute_spec hcompute
  have hsettles := settles hc ha hselected (contextHash domainHash c)
  rw [← hleaves] at hsettles
  have hcapacity : p.computed.totalAllocated = c.capacity := htotal.trans hsettles.exhausts
  refine ⟨c, hcontext, hrates, hc.outcomeIds, hc.aligned, fun r _ => ?_, sum_rates ha.sumToOne,
    hc.weights, fun claimant hclaimant => expected_eq hc ha hclaimant,
    fun o ho => settles hc ha ho _, hselected, hsettles, hcapacity, ?_⟩
  · exact div_nonneg (Nat.cast_nonneg _) (Nat.cast_nonneg _)
  · rw [hresidual, hcapacity, sub_self]

end

/-! ## a coin between two claims -/

/-- 32 bytes that depend on all bytes of a value -/
def checksum (bytes : ByteString) : ByteString :=
  let n := bytes.foldl (fun h b => (h * 263 + b.toNat + 1) % 2 ^ 256) 7
  (List.range 32).map fun i => UInt8.ofNat (n / 256 ^ i % 256)

def taggedChecksum (domain : String) (value : Value) : ByteString :=
  checksum (utf8 domain ++ canonicalBytes value)

def claim (id : String) : Json :=
  .obj [("amount", .int 10), ("claim-id", .str id), ("economic-owner-id", .str id),
    ("weight", .int 1)]

def winner (outcomeId claimId : String) : Json :=
  .obj [("allocations", .arr [.obj [("allocated", .str "10"), ("claim-id", .str claimId)]]),
    ("outcome-id", .str outcomeId)]

def half (outcomeId : String) : Json :=
  .obj [("denominator", .int 2), ("numerator", .int 1), ("outcome-id", .str outcomeId)]

def zeroHex : String := "0x" ++ String.ofList (List.replicate 64 '0')

def coin : Json :=
  .obj [("allocation-id", .str "round-1"), ("authoritative-randomness", .str zeroHex),
    ("capacity", .int 10), ("claimants", .arr [claim "a", claim "b"]),
    ("exact-pro-rata-denominator", .int 2),
    ("outcomes", .arr [winner "heads" "a", winner "tails" "b"]),
    ("policy", .obj [("policy-hash", .str zeroHex), ("policy-id", .str "all-or-nothing")]),
    ("proposed-rates", .arr [half "tails", half "heads"]), ("total-eligible-weight", .str "2")]

/-- the kernel published a certificate that passes -/
def Answer.isPassing : Answer → Bool
  | .passing _ => true
  | .failing _ => false
  | .rejected _ => false

theorem exists_passing {a : Option Answer} (h : a.any Answer.isPassing = true) :
    ∃ p, a = some (.passing p) := by
  cases a with
  | none => cases h
  | some a =>
    cases a with
    | passing p => exact ⟨p, rfl⟩
    | failing _ => cases h
    | rejected _ => cases h

theorem runKernel_fair_coin : ∃ p, runKernel taggedChecksum checksum
      (fun id => canonicalBytes (.str id)) (fun _ => "") 4 coin = some (.passing p) ∧
    ∃ c, buildContext (fun id => canonicalBytes (.str id)) (fun _ => "") coin = .ok c ∧
      (∀ claimant ∈ c.claimants, expected c claimant.claimId
        = (c.capacity : ℚ) * claimant.weight / c.totalEligibleWeight) ∧
      p.computed.totalAllocated = c.capacity := by
  have hpassing : (runKernel taggedChecksum checksum (fun id => canonicalBytes (.str id))
      (fun _ => "") 4 coin).any Answer.isPassing = true := by decide +kernel
  obtain ⟨p, hrun⟩ := exists_passing hpassing
  obtain ⟨c, hc, _, _, _, _, _, _, hfair, _, _, _, htotal, _⟩ := runKernel_fair hrun
  exact ⟨p, hrun, c, hc, hfair, htotal⟩

end PRF.Allocation
