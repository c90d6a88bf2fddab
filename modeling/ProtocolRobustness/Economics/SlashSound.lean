import Mathlib.Data.String.Basic
import ProtocolRobustness.Economics.SlashVerify

/-!
# What an accepted slash distribution leaves open

The verifier compares amounts and funding position by position, as far as both lists of awards go.
The number of the awards, their identifiers and where they settle are compared nowhere; with these
as they are due, all the rest is determined.

* `Determined`           what a policy and its parameters determine of a distribution;
* `determined_iff`       when an accepted distribution is determined;
* `forged_accepted`      an accepted distribution with an award of no policy.
-/

set_option linter.unusedSectionVars false

namespace PRF.Economics
open Table LongArith

section
variable {ι : Type} [LinearOrder ι]

/-! ## payouts that agree -/

/-- alike in all that the policy and the parameters determine -/
structure Payout.Agrees (p q : Payout ι) : Prop where
  id : p.id = q.id
  amount : p.amount.value = q.amount.value
  allocationId : p.allocationId = q.allocationId
  funding : p.funding.Same q.funding

/-- who is paid, and into which allocation -/
def Payout.target (p : Payout ι) : ι × Option ι := (p.id, p.allocationId)

variable {ps qs : List (Payout ι)}

theorem forall₂_agrees (htarget : ps.map Payout.target = qs.map Payout.target)
    (hpaired : ∀ e ∈ ps.zip qs,
      e.1.amount.value = e.2.amount.value ∧ e.1.funding.Same e.2.funding) :
    List.Forall₂ Payout.Agrees ps qs := by
  induction ps generalizing qs with
  | nil =>
    cases qs with
    | nil => exact .nil
    | cons q qs => cases htarget
  | cons p ps ih =>
    cases qs with
    | nil => cases htarget
    | cons q qs =>
      rw [List.map_cons, List.map_cons, List.cons.injEq] at htarget
      obtain ⟨hpq, hrest⟩ := htarget
      obtain ⟨hid, hallocation⟩ := Prod.mk.inj hpq
      have hhead := hpaired (p, q) (by simp)
      refine .cons ⟨hid, hhead.1, hallocation, hhead.2⟩ (ih hrest ?_)
      exact fun e he => hpaired e (by simp [he])

theorem map_target_of_agrees (h : List.Forall₂ Payout.Agrees ps qs) :
    ps.map Payout.target = qs.map Payout.target := by
  induction h with
  | nil => rfl
  | cons hpq _ ih => rw [List.map_cons, List.map_cons, ih, Payout.target, Payout.target, hpq.id,
      hpq.allocationId]

/-! ## the allocations that payouts touch -/

theorem mem_foldl_merge {m : HostAmounts ι} {id : ι} :
    id ∈ (ps.foldl (fun acc p => acc.merge p.funding) m).ids
      ↔ id ∈ m.ids ∨ ∃ p ∈ ps, id ∈ p.funding.ids := by
  induction ps generalizing m with
  | nil => simp
  | cons p ps ih => rw [List.foldl_cons, ih, HostAmounts.mem_ids_merge, List.exists_mem_cons_iff, or_assoc]

theorem mem_deductions {id : ι} : id ∈ (deductions ps).ids ↔ ∃ p ∈ ps, id ∈ p.funding.ids := by
  rw [deductions, mem_foldl_merge]
  simp [HostAmounts.ids, HostAmounts.empty]

theorem mem_ids_settle {m : HostAmounts ι} {p : Payout ι} {id : ι} :
    id ∈ (settle m p).ids ↔ id ∈ m.ids ∨ p.allocationId = some id := by
  unfold settle
  split
  · next id' h =>
    rw [HostAmounts.mem_ids_add, h, Option.some.injEq, eq_comm]
  · next h => simp [h]

theorem mem_foldl_settle {m : HostAmounts ι} {id : ι} :
    id ∈ (ps.foldl settle m).ids ↔ id ∈ m.ids ∨ ∃ p ∈ ps, p.allocationId = some id := by
  induction ps generalizing m with
  | nil => simp
  | cons p ps ih => rw [List.foldl_cons, ih, mem_ids_settle, List.exists_mem_cons_iff, or_assoc]

theorem mem_settlements {id : ι} :
    id ∈ (settlements ps).ids ↔ ∃ p ∈ ps, p.allocationId = some id := by
  rw [settlements, mem_foldl_settle]
  simp [HostAmounts.ids, HostAmounts.empty]

theorem mem_allocationIds {base : HostAmounts ι} {id : ι} : id ∈ allocationIds base ps ↔
    id ∈ base.ids ∨ (∃ p ∈ ps, id ∈ p.funding.ids) ∨ ∃ p ∈ ps, p.allocationId = some id := by
  rw [allocationIds, List.mem_append, List.mem_append, mem_deductions, mem_settlements]

theorem exists_congr_of_forall₂ {R : Payout ι → Payout ι → Prop} {P : Payout ι → Prop}
    (h : List.Forall₂ R ps qs) (hP : ∀ p q, R p q → (P p ↔ P q)) :
    (∃ p ∈ ps, P p) ↔ ∃ q ∈ qs, P q := by
  induction h with
  | nil => simp
  | cons hpq _ ih => rw [List.exists_mem_cons_iff, List.exists_mem_cons_iff, hP _ _ hpq, ih]

theorem allocationIds_agrees {base base' : HostAmounts ι} (hbase : base.Same base')
    (h : List.Forall₂ Payout.Agrees ps qs) (id : ι) :
    id ∈ allocationIds base ps ↔ id ∈ allocationIds base' qs := by
  rw [mem_allocationIds, mem_allocationIds, hbase.mem_ids,
    exists_congr_of_forall₂ (P := fun p => id ∈ p.funding.ids) h fun p q hpq =>
      hpq.funding.mem_ids id,
    exists_congr_of_forall₂ (P := fun p => p.allocationId = some id) h fun p q hpq => by
      rw [hpq.allocationId]]

theorem balance_value (base : HostAmounts ι) (id : ι) : (balance base ps id).value
    = base.get id - (deductions ps).get id + (settlements ps).get id := by
  simp only [balance, HostInt.addPromote_value, HostInt.subPromote_value, HostAmounts.number_value]

theorem balance_of_not_mem {base : HostAmounts ι} {id : ι} (h : id ∉ allocationIds base ps) :
    (balance base ps id).value = 0 := by
  simp only [allocationIds, List.mem_append, not_or] at h
  rw [balance_value, HostAmounts.get_of_not_mem h.1, HostAmounts.get_of_not_mem h.2.1,
    HostAmounts.get_of_not_mem h.2.2]
  rfl

theorem mem_finalAllocations {base : HostAmounts ι} {id : ι} :
    id ∈ (finalAllocations base ps).ids ↔ id ∈ allocationIds base ps := HostAmounts.mem_ids_tabulate

theorem negatives_eq_nil {final : HostAmounts ι} :
    negatives final = [] ↔ ∀ e ∈ final.values.entries, 0 ≤ e.2 := by
  simp only [negatives, List.flatMap_eq_nil_iff, flag_eq_nil, not_lt]
  show _ ↔ ∀ e ∈ final.entries.map fun e => (e.1, e.2.value), 0 ≤ e.2
  rw [List.forall_mem_map]

/-! ## what is determined -/

/-- What a policy and its parameters determine of a distribution with its gross amount; the amount
of an award that was resolved elsewhere is the one it has. -/
structure Determined {ρ κ : Type} (policy : Policy ι) (values : List (ι × HostInt))
    (d : Distribution ι ρ κ) : Prop where
  base : ∃ base, policy.allocation.apply d.gross = .ok base ∧ d.base.Same base
  awards : List.Forall₂ Payout.Agrees d.payouts
    (policy.due d.gross values (storedAmount d.payouts))
  total : (finalAllocations d.base d.payouts).total = d.gross.value
  nonneg : ∀ id, 0 ≤ (balance d.base d.payouts id).value

variable {ρ κ : Type} [DecidableEq ρ] {env : Environment ι ρ κ} {policy : Policy ι}
  {values : List (ι × HostInt)} {d : Distribution ι ρ κ}

theorem final_same {r : Recomputed ι} (hm : Matches env policy values d r) (hc : Consistent d)
    (hfinal : r.final = finalAllocations r.base r.payouts)
    (h : List.Forall₂ Payout.Agrees d.payouts r.payouts) :
    d.final.Same (finalAllocations d.base d.payouts) := by
  refine perm_of_find d.final.values.nodup (finalAllocations d.base d.payouts).values.nodup
    fun id => ?_
  by_cases hid : id ∈ allocationIds d.base d.payouts
  · rw [hc.reconciled id hid, finalAllocations, HostAmounts.values_tabulate,
      Amounts.get_tabulate hid]
  · have hstored : id ∉ d.final.values.ids := by
      rw [HostAmounts.ids_values, hm.final.mem_ids, hfinal, mem_finalAllocations,
        ← allocationIds_agrees hm.base h]
      exact hid
    have hcomputed : id ∉ (finalAllocations d.base d.payouts).values.ids := by
      rw [HostAmounts.ids_values, mem_finalAllocations]
      exact hid
    rw [(find_eq_none_iff _ _).mpr hstored, (find_eq_none_iff _ _).mpr hcomputed]

/-- An accepted distribution is the one its policy determines exactly when its awards are, in
number, identifiers and settlement allocations, the ones that are due. -/
theorem determined_iff (h : verify env policy values d = some []) :
    Determined policy values d ↔ d.payouts.map Payout.target
      = (policy.due d.gross values (storedAmount d.payouts)).map Payout.target := by
  obtain ⟨-, r, hr, hs, hm, hc⟩ := verify_eq_nil.mp h
  obtain ⟨hbase, hdue, hfinal⟩ := independent_ok hr
  constructor
  · exact fun hd => map_target_of_agrees hd.awards
  · intro htarget
    have hagrees : List.Forall₂ Payout.Agrees d.payouts r.payouts :=
      forall₂_agrees (hdue ▸ htarget) hm.paired
    have hsame := final_same hm hc hfinal hagrees
    refine ⟨⟨r.base, hbase, hm.base⟩, hdue ▸ hagrees, ?_, fun id => ?_⟩
    · rw [← hsame.total, ← hc.conserved]
    · by_cases hid : id ∈ allocationIds d.base d.payouts
      · have hmem := mem_of_find (hc.reconciled id hid)
        exact negatives_eq_nil.mp hc.nonneg _ hmem
      · rw [balance_of_not_mem hid]

end

/-! ## a forged award -/

/-- the whole amount under one name -/
def wholly (id : String) (amount : ℤ) : HostAmounts String :=
  ⟨[(id, .ofInt amount)], List.nodup_singleton _⟩

/-- the whole gross amount goes to the insurance, and there are no awards -/
def insurancePolicy : Policy String where
  schemaVersion := policySchemaVersion
  allocation := ⟨false, some (.ofInt 10000), wholly "insurance" 10000, some "insurance"⟩
  awards := some []
  steps := none

/-- hashes that are all alike, for any that a forger can recompute -/
def openEnvironment : Environment String ℕ Unit where
  policyHash := fun _ => 0
  distributionHash := fun _ => 0
  resolution := fun _ _ => some ⟨0, []⟩

/-- forty are taken from the insurance for a stranger and settled into the insurance -/
def forgedAward : Award String where
  id := "x"
  amount := .ofInt 40
  calculation := none
  funding := wholly "insurance" 40
  allocationId := some "insurance"
  obligationKind := some "bounty"
  trigger := none
  evidenceReference := some "evidence"
  beneficiary := ⟨some "stranger", none⟩

def forgedDistribution : Distribution String ℕ Unit where
  schemaVersion := distributionSchemaVersion
  gross := .ofInt 100
  context := ()
  policyRoot := 0
  parameterContext := none
  extensionRoot := some 0
  extensionPackages := []
  base := wholly "insurance" 100
  awards := [forgedAward]
  steps := none
  calculations := some []
  summary := some (summarize [])
  final := wholly "insurance" 100
  hash := 0

theorem forged_accepted : ¬ ∀ (env : Environment String ℕ Unit) (policy : Policy String)
    (values : List (String × HostInt)) (d : Distribution String ℕ Unit),
    verify env policy values d = some [] → Determined policy values d := by
  intro h
  have hd := h openEnvironment insurancePolicy [] forgedDistribution (by decide +kernel)
  have hlen := hd.awards.length_eq
  revert hlen
  decide +kernel

/-- the same distribution without the award -/
def honestDistribution : Distribution String ℕ Unit := { forgedDistribution with awards := [] }

theorem determined_iff_honest : Determined insurancePolicy [] honestDistribution ↔
    honestDistribution.payouts.map Payout.target = (insurancePolicy.due honestDistribution.gross []
      (storedAmount honestDistribution.payouts)).map Payout.target := by
  have haccepted : verify openEnvironment insurancePolicy [] honestDistribution = some [] := by
    decide +kernel
  exact determined_iff haccepted

end PRF.Economics
