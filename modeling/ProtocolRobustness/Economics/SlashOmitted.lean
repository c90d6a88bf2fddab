import Mathlib.Data.Multiset.Basic
import ProtocolRobustness.Economics.SlashSound

/-!
# What payouts that are left out change

The final allocations of some payouts, beside those of the same payouts with others.

* `get_deductions`, `get_settlements`   the sums over the payouts;
* `terms_prefix_iff`   payouts that agree with others place by place;
* `Neutral`            payouts that take from every allocation what they put into it;
* `same_final_iff`     leaving payouts out changes no final allocation, exactly when they are neutral.
-/

set_option linter.unusedSectionVars false

namespace PRF.Economics
open LongArith

section
variable {ι : Type} [LinearOrder ι] {ps qs kept omitted : List (Payout ι)} {base : HostAmounts ι}

/-- what a payout puts into an allocation -/
def Payout.settled (p : Payout ι) (id : ι) : ℤ := if p.allocationId = some id then p.amount.value else 0

theorem get_foldl_merge (m : HostAmounts ι) (id : ι) :
    (ps.foldl (fun acc p => acc.merge p.funding) m).get id
      = m.get id + (ps.map fun p => p.funding.get id).sum := by
  induction ps generalizing m with
  | nil => simp
  | cons p ps ih =>
    rw [List.foldl_cons, ih, HostAmounts.get_merge, List.map_cons, List.sum_cons, add_assoc]

theorem get_deductions (ps : List (Payout ι)) (id : ι) :
    (deductions ps).get id = (ps.map fun p => p.funding.get id).sum := by
  rw [deductions, get_foldl_merge]
  exact zero_add _

theorem get_settle (m : HostAmounts ι) (p : Payout ι) (id : ι) :
    (settle m p).get id = m.get id + p.settled id := by
  unfold settle Payout.settled
  cases p.allocationId with
  | none => simp
  | some id' =>
    simp only [Option.some.injEq]
    exact HostAmounts.get_add m id' id p.amount

theorem get_foldl_settle (m : HostAmounts ι) (id : ι) :
    (ps.foldl settle m).get id = m.get id + (ps.map fun p => p.settled id).sum := by
  induction ps generalizing m with
  | nil => simp
  | cons p ps ih => rw [List.foldl_cons, ih, get_settle, List.map_cons, List.sum_cons, add_assoc]

theorem get_settlements (ps : List (Payout ι)) (id : ι) :
    (settlements ps).get id = (ps.map fun p => p.settled id).sum := by
  rw [settlements, get_foldl_settle]
  exact zero_add _

/-! ## places -/

/-- the amount of a payout, and where it is taken from -/
def Payout.terms (p : Payout ι) : ℤ × Multiset (ι × ℤ) := (p.amount.value, p.funding.values.entries)

theorem terms_eq_iff {p q : Payout ι} :
    p.terms = q.terms ↔ p.amount.value = q.amount.value ∧ p.funding.Same q.funding := by
  rw [Payout.terms, Payout.terms, Prod.mk.injEq, Multiset.coe_eq_coe]
  rfl

theorem terms_prefix_iff (h : kept.length ≤ ps.length) :
    kept.map Payout.terms <+: ps.map Payout.terms ↔ ∀ e ∈ kept.zip ps,
      e.1.amount.value = e.2.amount.value ∧ e.1.funding.Same e.2.funding := by
  induction kept generalizing ps with
  | nil => simp
  | cons k kept ih =>
    cases ps with
    | nil => cases h
    | cons p ps =>
      rw [List.map_cons, List.map_cons, List.cons_prefix_cons, ih (Nat.le_of_succ_le_succ h),
        List.zip_cons_cons, List.forall_mem_cons, terms_eq_iff]

/-! ## payouts that are left out -/

/-- They take from every allocation what they put into it, and touch none that is not there without
them. -/
structure Neutral (base : HostAmounts ι) (kept omitted : List (Payout ι)) : Prop where
  even : ∀ id, (settlements omitted).get id = (deductions omitted).get id
  known : ∀ id ∈ allocationIds base omitted, id ∈ allocationIds base kept

theorem neutral_nil : Neutral base ps [] where
  even _ := rfl
  known id hid := by
    rw [mem_allocationIds] at hid ⊢
    rcases hid with hid | ⟨p, hp, -⟩ | ⟨p, hp, -⟩
    · exact Or.inl hid
    · cases hp
    · cases hp

theorem mem_allocationIds_perm (h : (kept ++ omitted).Perm ps) (id : ι) : id ∈ allocationIds base ps ↔
    id ∈ allocationIds base kept ∨ id ∈ allocationIds base omitted := by
  have hmem : ∀ P : Payout ι → Prop, (∃ p ∈ ps, P p) ↔ (∃ p ∈ kept, P p) ∨ ∃ p ∈ omitted, P p := by
    intro P
    simp only [← h.mem_iff, List.mem_append, or_and_right, exists_or]
  rw [mem_allocationIds, mem_allocationIds, mem_allocationIds, hmem, hmem, or_or_or_comm,
    ← or_or_distrib_left]

theorem balance_perm (h : (kept ++ omitted).Perm ps) (id : ι) : (balance base ps id).value
    = (balance base kept id).value
      + ((settlements omitted).get id - (deductions omitted).get id) := by
  have hsum : ∀ f : Payout ι → ℤ, (ps.map f).sum = (kept.map f).sum + (omitted.map f).sum := by
    intro f
    rw [← (h.map f).sum_eq, List.map_append, List.sum_append]
  simp only [balance_value, get_deductions, get_settlements, hsum]
  omega

theorem get_finalAllocations (id : ι) :
    (finalAllocations base ps).get id = (balance base ps id).value := by
  by_cases hid : id ∈ allocationIds base ps
  · unfold HostAmounts.get
    rw [finalAllocations, HostAmounts.values_tabulate, Amounts.get_tabulate_of_mem hid]
  · rw [balance_of_not_mem hid, HostAmounts.get_of_not_mem]
    rwa [mem_finalAllocations]

/-- **Payouts that are left out show in no final allocation exactly when they are neutral.** -/
theorem same_final_iff (h : (kept ++ omitted).Perm ps) :
    (finalAllocations base kept).Same (finalAllocations base ps) ↔ Neutral base kept omitted := by
  rw [HostAmounts.same_iff]
  simp only [get_finalAllocations, mem_finalAllocations, mem_allocationIds_perm h, balance_perm h]
  constructor
  · intro hsame
    refine ⟨fun id => ?_, fun id hid => (hsame.1 id).mpr (Or.inr hid)⟩
    have hid := hsame.2 id
    omega
  · intro hn
    refine ⟨fun id => ⟨Or.inl, fun hid => hid.elim (fun h => h) (hn.known id)⟩, fun id => ?_⟩
    rw [hn.even id]
    omega

end

end PRF.Economics
