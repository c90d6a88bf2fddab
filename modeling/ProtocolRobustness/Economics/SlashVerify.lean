import ProtocolRobustness.Economics.SlashBuild
import ProtocolRobustness.Library.Gives

/-!
# Verifying a slash distribution

`verify-distribution` of `economics/slash_distribution.clj` against a policy and its parameters: the
distribution is computed once more from the policy, and compared part by part.

* `independentDistribution`   `independent-distribution`, with `independent-award`;
* `verify`                    `verify-distribution`, which throws where `Body.Carries` fails;
* `verify_eq_nil`             what it takes to be accepted: `Sealed`, `Matches` and `Consistent`;
* `Policy.due`                the payouts that a policy and its parameters determine.
-/

set_option linter.unusedSectionVars false

namespace PRF.Economics
open Table Fallible LongArith

/-! ## the recomputation -/

structure Recomputed (ι : Type) where
  base : HostAmounts ι
  payouts : List (Payout ι)
  final : HostAmounts ι
  steps : Option (List (StepRecord ι))

section
variable {ι : Type} [LinearOrder ι]

namespace PolicyAward
variable (p : PolicyAward ι) (gross : HostInt) (values : List (ι × HostInt)) (given : Option HostInt)

/-- the amount of `independent-award`; an amount that was resolved is taken from the stored award -/
def independent : Except Violation HostInt :=
  match p.amount.compute values gross given with
  | some amount => .ok amount
  | none => .error (
      if p.amount.namespaced then .unsupportedAmountMethod
      else if p.amount.method = .rateOfGross ∧ (p.amount.parameter values).isNone then
        .missingParameter
      else .invalidParameterValue)

def independentViolations : List Violation :=
  match p.independent gross values given with
  | .ok _ => []
  | .error v => [v]

def independentPayout : Option (Payout ι) :=
  match p.independent gross values given with
  | .ok amount =>
    if 0 < amount.value then some (p.payout p.id amount (p.amount.calculation values gross p.id)) else none
  | .error _ => none

/-- the rate overflows, or the funding of the amount throws -/
def Throws : Prop :=
  p.amount.Overflows values gross
    ∨ ∃ amount ∈ p.amount.compute values gross given, ¬ p.funding.Computes amount

instance : Decidable (p.Throws gross values given) := inferInstanceAs (Decidable (_ ∨ _))

end PolicyAward

/-- `(get stored-by-id id)`, where a later award replaces an earlier one -/
def storedAmount (stored : List (Payout ι)) (id : ι) : Option HostInt :=
  (stored.reverse.find? fun p => p.id = id).map Payout.amount

/-- Every award of the policy is recomputed; funding is computed for each that has an amount. -/
def independentAwards (policy : Policy ι) (gross : HostInt) (values : List (ι × HostInt))
    (given : ι → Option HostInt) : Except Refusal (List (Payout ι)) :=
  if ∃ p ∈ policy.awardList, p.Throws gross values (given p.id) then .error .thrown
  else do
    checked (policy.awardList.flatMap fun p => p.independentViolations gross values (given p.id))
    .ok (sortById Payout.id
      (policy.awardList.filterMap fun p => p.independentPayout gross values (given p.id)))

/-- the awards of the policy, or its steps once more -/
def independentPayouts (policy : Policy ι) (gross : HostInt) (values : List (ι × HostInt))
    (stored : List (Payout ι)) : Except Refusal (List (Payout ι) × Option (List (StepRecord ι))) :=
  match policy.steps with
  | some steps => (processSteps gross steps values).map fun acc =>
      (acc.awards.map Award.toPayout, some acc.steps)
  | none => (independentAwards policy gross values (storedAmount stored)).map fun payouts =>
      (payouts, none)

def independentDistribution (policy : Policy ι) (gross : HostInt) (values : List (ι × HostInt))
    (stored : List (Payout ι)) : Except Refusal (Recomputed ι) := do
  let base ← policy.allocation.apply gross
  let e ← independentPayouts policy gross values stored
  carried (DeductionsCarry e.1 ∧ BalancesCarry base e.1)
  .ok ⟨base, e.1, finalAllocations base e.1, e.2⟩

end

/-! ## the checks -/

section
variable {ι ρ κ : Type} [LinearOrder ι] [DecidableEq ρ] (env : Environment ι ρ κ)
  (policy : Policy ι) (values : List (ι × HostInt)) (d : Distribution ι ρ κ)

def rootViolations : List Violation :=
  flag (env.policyHash policy ≠ d.policyRoot) .policyRootMismatch

/-- the hash, the sums and the summary that are committed -/
def artifactViolations : List Violation :=
  flag (env.distributionHash d.toBody ≠ d.hash) .distributionHashMismatch
    ++ flag (d.gross.value < 0) .invalidGrossAmount
    ++ flag (d.gross.value ≠ d.base.total) .baseConservation
    ++ flag (d.awards ≠ [] ∧ d.calculations.isNone) .missingCalculationTrace
    ++ flag (d.awards ≠ [] ∧ d.summary.isNone) .missingSummary
    ++ flag (∃ calculations ∈ d.calculations, ∃ summary ∈ d.summary,
        ¬ (summarize calculations).Same summary) .summaryMismatch

/-- `verify-recomputed-calculations`, for each record of the trace -/
def recalculated (c : Calculation ι) : Option (Calculation ι) :=
  (policy.awardOf c.awardId).bind fun p => p.amount.calculation values d.gross c.awardId

/-- the comparison of stored and recomputed awards goes by their position -/
def mismatches (r : Recomputed ι) : List Violation :=
  flag (¬ d.base.Same r.base) .recomputationMismatch
    ++ (d.payouts.zip r.payouts).flatMap (fun e =>
        flag (e.1.amount.value ≠ e.2.amount.value) .recomputationMismatch
          ++ flag (¬ e.1.funding.Same e.2.funding) .recomputationMismatch)
    ++ flag (¬ d.final.Same r.final) .recomputationMismatch
    ++ (if policy.steps.isSome then [] else d.calculations.getD []).flatMap (fun c =>
        flag (some c.record ≠ (recalculated policy values d c).map Calculation.record)
          .recomputationMismatch)
    ++ flag (d.extensionRoot.isSome
        ∧ d.extensionRoot ≠ (env.resolution none policy).map Snapshot.root)
        .extensionResolutionMismatch
    ++ flag (d.steps ≠ r.steps) .recomputationMismatch

def Body.appliedSteps (b : Body ι ρ κ) : List ι :=
  ((b.steps.getD []).filter fun x => x.status = .applied).map StepRecord.id

/-- sorted, but for a distribution with steps -/
def Body.expectedOrder (b : Body ι ρ κ) : List ι :=
  if b.steps.getD [] = [] then sortById (fun id => id) (b.payouts.map Payout.id)
  else b.appliedSteps

def Body.traceOf (b : Body ι ρ κ) (id : ι) : Option (Calculation ι) :=
  (b.calculations.getD []).find? fun c => c.awardId = id

def consistencyViolations : List Violation :=
  flag (d.payouts.map Payout.id ≠ d.expectedOrder) .awardOrderInvalid
    ++ d.payouts.flatMap (fun p => flag (p.calculation.map Calculation.record
        ≠ (d.traceOf p.id).map Calculation.record) .recomputationMismatch)
    ++ d.payouts.flatMap (fun p => flag (p.funding.total ≠ p.amount.value) .awardFundingConservation)
    ++ overdraws d.base d.payouts
    ++ (allocationIds d.base d.payouts).flatMap (fun id =>
        flag (find d.final.values.entries id ≠ some (balance d.base d.payouts id).value)
          .allocationReconciliation)
    ++ negatives d.final
    ++ flag (d.gross.value ≠ d.final.total) .conservationViolation
    ++ d.awards.flatMap (fun a =>
        flag (0 < a.amount.value ∧ a.beneficiary.id.isNone) .missingBeneficiary
          ++ flag (0 < a.amount.value ∧ a.evidenceReference.isNone) .missingEligibilityReference)

/-- what is stored is added up without an overflow -/
def Body.Carries (b : Body ι ρ κ) : Prop :=
  b.base.Sums
    ∧ (b.summary.isSome → ∀ calculations ∈ b.calculations, SummaryCarries calculations)
    ∧ (∀ p ∈ b.payouts, p.funding.Sums)
    ∧ DeductionsCarry b.payouts ∧ BalancesCarry b.base b.payouts ∧ b.final.Sums

instance (b : Body ι ρ κ) : Decidable b.Carries :=
  inferInstanceAs (Decidable (_ ∧ _ ∧ _ ∧ _ ∧ _ ∧ _))

/-- `verify-distribution` with a policy; `none` where it throws -/
def verify : Option (List Violation) :=
  if d.Carries then
    match independentDistribution policy d.gross values d.payouts with
    | .error .thrown => none
    | .error (.invalid violations) => some (rootViolations env policy d ++ violations
        ++ artifactViolations env d ++ consistencyViolations d)
    | .ok r => some (rootViolations env policy d ++ artifactViolations env d
        ++ mismatches env policy values d r ++ consistencyViolations d)
  else none

end

/-! ## what is accepted -/

section
variable {ι ρ κ : Type} [LinearOrder ι] [DecidableEq ρ]

structure Sealed (env : Environment ι ρ κ) (policy : Policy ι) (d : Distribution ι ρ κ) :
    Prop where
  root : env.policyHash policy = d.policyRoot
  hash : env.distributionHash d.toBody = d.hash
  gross : 0 ≤ d.gross.value
  base : d.gross.value = d.base.total
  traced : d.awards ≠ [] → d.calculations.isSome ∧ d.summary.isSome
  summary : ∀ calculations ∈ d.calculations, ∀ summary ∈ d.summary,
    (summarize calculations).Same summary

structure Matches (env : Environment ι ρ κ) (policy : Policy ι) (values : List (ι × HostInt))
    (d : Distribution ι ρ κ) (r : Recomputed ι) : Prop where
  base : d.base.Same r.base
  paired : ∀ e ∈ d.payouts.zip r.payouts,
    e.1.amount.value = e.2.amount.value ∧ e.1.funding.Same e.2.funding
  final : d.final.Same r.final
  calculations : policy.steps = none →
    ∀ c ∈ d.calculations.getD [],
      some c.record = (recalculated policy values d c).map Calculation.record
  extensions : d.extensionRoot.isSome → d.extensionRoot = (env.resolution none policy).map Snapshot.root
  steps : d.steps = r.steps

structure Consistent (d : Distribution ι ρ κ) : Prop where
  order : d.payouts.map Payout.id = d.expectedOrder
  bound : ∀ p ∈ d.payouts,
    p.calculation.map Calculation.record = (d.traceOf p.id).map Calculation.record
  funded : ∀ p ∈ d.payouts, p.funding.total = p.amount.value
  covered : overdraws d.base d.payouts = []
  reconciled : ∀ id ∈ allocationIds d.base d.payouts,
    find d.final.values.entries id = some (balance d.base d.payouts id).value
  nonneg : negatives d.final = []
  conserved : d.gross.value = d.final.total
  grounded : ∀ a ∈ d.awards, 0 < a.amount.value → a.beneficiary.id.isSome ∧ a.evidenceReference.isSome

variable {env : Environment ι ρ κ} {policy : Policy ι} {values : List (ι × HostInt)}
  {d : Distribution ι ρ κ}

theorem sealed_iff : rootViolations env policy d ++ artifactViolations env d = [] ↔
    Sealed env policy d := by
  simp only [rootViolations, artifactViolations, List.append_eq_nil_iff, flag_eq_nil, not_not]
  constructor
  · intro h
    obtain ⟨hroot, ⟨⟨⟨⟨hhash, hgross⟩, hbase⟩, htrace⟩, hsummary⟩, hsame⟩ := h
    refine ⟨hroot, hhash, not_lt.mp hgross, hbase, fun hne => ⟨?_, ?_⟩, ?_⟩
    · exact Option.isSome_iff_ne_none.mpr fun hn => htrace ⟨hne, by simp [hn]⟩
    · exact Option.isSome_iff_ne_none.mpr fun hn => hsummary ⟨hne, by simp [hn]⟩
    · intro calculations hc summary hs
      by_contra hns
      exact hsame ⟨calculations, hc, summary, hs, hns⟩
  · intro h
    refine ⟨h.root, ⟨⟨⟨⟨h.hash, not_lt.mpr h.gross⟩, h.base⟩, ?_⟩, ?_⟩, ?_⟩
    · intro hn
      have hsome := (h.traced hn.1).1
      rw [Option.isNone_iff_eq_none.mp hn.2] at hsome
      cases hsome
    · intro hn
      have hsome := (h.traced hn.1).2
      rw [Option.isNone_iff_eq_none.mp hn.2] at hsome
      cases hsome
    · intro hn
      obtain ⟨calculations, hc, summary, hs, hns⟩ := hn
      exact hns (h.summary calculations hc summary hs)

theorem matches_iff {r : Recomputed ι} : mismatches env policy values d r = [] ↔
    Matches env policy values d r := by
  have htrace : (∀ c ∈ if policy.steps.isSome then [] else d.calculations.getD [],
      some c.record = (recalculated policy values d c).map Calculation.record) ↔
      (policy.steps = none → ∀ c ∈ d.calculations.getD [],
        some c.record = (recalculated policy values d c).map Calculation.record) := by
    cases policy.steps with
    | none => simp
    | some steps => simp
  simp only [mismatches, List.append_eq_nil_iff, List.flatMap_eq_nil_iff, flag_eq_nil, not_not,
    not_and, ne_eq, htrace]
  constructor
  · intro h
    obtain ⟨⟨⟨⟨⟨hbase, hpaired⟩, hfinal⟩, hcalcs⟩, hext⟩, hsteps⟩ := h
    exact ⟨hbase, hpaired, hfinal, hcalcs, hext, hsteps⟩
  · intro h
    exact ⟨⟨⟨⟨⟨h.base, h.paired⟩, h.final⟩, h.calculations⟩, h.extensions⟩, h.steps⟩

theorem consistent_iff : consistencyViolations d = [] ↔ Consistent d := by
  simp only [consistencyViolations, List.append_eq_nil_iff, List.flatMap_eq_nil_iff, flag_eq_nil,
    not_not, not_and, ne_eq, Bool.not_eq_true, Option.isNone_eq_false_iff]
  constructor
  · intro h
    obtain ⟨⟨⟨⟨⟨⟨⟨horder, hbound⟩, hfunded⟩, hcovered⟩, hrec⟩, hnonneg⟩, hcons⟩, hground⟩ := h
    refine ⟨horder, hbound, hfunded, hcovered, hrec, hnonneg, hcons, ?_⟩
    exact fun a ha hpos => ⟨(hground a ha).1 hpos, (hground a ha).2 hpos⟩
  · intro h
    refine ⟨⟨⟨⟨⟨⟨⟨h.order, h.bound⟩, h.funded⟩, h.covered⟩, h.reconciled⟩, h.nonneg⟩, h.conserved⟩,
      ?_⟩
    exact fun a ha => ⟨fun hpos => (h.grounded a ha hpos).1, fun hpos => (h.grounded a ha hpos).2⟩

/-! ### a refusal says why -/

/-- an exception, or at least one violation -/
def Refusal.Told : Refusal → Prop
  | .thrown => True
  | .invalid violations => violations ≠ []

theorem told_checked (violations : List Violation) :
    Ends Refusal.Told (fun _ => True) (checked violations) :=
  Ends.ite (fun _ => trivial) fun h => h

theorem told_carried (c : Prop) [Decidable c] : Ends Refusal.Told (fun _ => True) (carried c) :=
  Ends.ite (fun _ => trivial) fun _ => trivial

theorem told_apply (s : Spread ι) (amount : HostInt) :
    Ends Refusal.Told (fun _ => True) (s.apply amount) :=
  Ends.ite (fun _ => trivial) fun _ => trivial

theorem told_processStep (gross : HostInt) (acc : Progress ι) (step : Step ι) :
    Ends Refusal.Told (fun _ => True) (processStep gross values acc step) := by
  simp only [processStep]
  split
  · exact List.cons_ne_nil _ _
  · refine Ends.ite (fun _ => trivial) fun _ => Ends.ite (fun _ => trivial) fun _ => ?_
    split
    · exact List.cons_ne_nil _ _
    · refine Ends.ite (fun _ => List.cons_ne_nil _ _) fun _ => ?_
      exact Ends.ite (fun _ => trivial) fun _ => Ends.ite (fun _ => trivial) fun _ => trivial

theorem told_steps (gross : HostInt) (steps : List (Step ι)) :
    Ends Refusal.Told (fun _ => True) (processSteps gross steps values) :=
  Ends.foldlM (fun acc step _ _ => told_processStep gross acc step) trivial

theorem told_independentAwards (gross : HostInt) (given : ι → Option HostInt) :
    Ends Refusal.Told (fun _ => True) (independentAwards policy gross values given) :=
  Ends.ite (fun _ => trivial) fun _ => Ends.bind (told_checked _) fun _ _ => trivial

theorem told_independentPayouts (gross : HostInt) (stored : List (Payout ι)) :
    Ends Refusal.Told (fun _ => True) (independentPayouts policy gross values stored) := by
  unfold independentPayouts
  split
  · exact (told_steps gross _).map fun _ _ => trivial
  · exact (told_independentAwards gross _).map fun _ _ => trivial

theorem told_independent (gross : HostInt) (stored : List (Payout ι)) :
    Ends Refusal.Told (fun _ => True) (independentDistribution policy gross values stored) := by
  refine Ends.bind (told_apply _ gross) fun base _ => ?_
  refine Ends.bind (told_independentPayouts gross stored) fun e _ => ?_
  exact Ends.bind (told_carried _) fun _ _ => trivial

theorem verify_eq_nil : verify env policy values d = some [] ↔ d.Carries ∧
    ∃ r, independentDistribution policy d.gross values d.payouts = .ok r ∧ Sealed env policy d
      ∧ Matches env policy values d r ∧ Consistent d := by
  rw [← sealed_iff, ← consistent_iff]
  unfold verify
  by_cases hc : d.Carries
  · rw [if_pos hc, and_iff_right hc]
    cases h : independentDistribution policy d.gross values d.payouts with
    | ok r =>
      simp only [Option.some.injEq, List.append_eq_nil_iff, Except.ok.injEq, exists_eq_left',
        matches_iff, and_assoc]
    | error e =>
      have htold := (told_independent d.gross d.payouts).of_error h
      cases e with
      | thrown => simp
      | invalid violations =>
        have hne : violations ≠ [] := htold
        simp [hne]
  · rw [if_neg hc]
    exact iff_of_false (Option.some_ne_none _).symm fun h => hc h.1

end

/-! ## what is due -/

section
variable {ι : Type} [LinearOrder ι]

/-- what an award pays, when that is positive -/
def PolicyAward.due (p : PolicyAward ι) (gross : HostInt) (values : List (ι × HostInt))
    (given : Option HostInt) : Option (Payout ι) :=
  ((p.amount.compute values gross given).filter fun amount => 0 < amount.value).map fun amount =>
    p.payout p.id amount (p.amount.calculation values gross p.id)

/-- The payouts that a policy and its parameters determine, with the amounts that are given for
awards of a resolved amount. -/
def Policy.due (policy : Policy ι) (gross : HostInt) (values : List (ι × HostInt))
    (given : ι → Option HostInt) : List (Payout ι) :=
  match policy.steps with
  | some steps =>
    match processSteps gross steps values with
    | .ok acc => acc.awards.map Award.toPayout
    | .error _ => []
  | none => sortById Payout.id (policy.awardList.filterMap fun p => p.due gross values (given p.id))

/-- every award of the policy has an amount, and can be computed and funded -/
def Policy.Payable (policy : Policy ι) (gross : HostInt) (values : List (ι × HostInt))
    (given : ι → Option HostInt) : Prop :=
  ∀ p ∈ policy.awardList, ¬ p.amount.Overflows values gross
    ∧ ∃ amount, p.amount.compute values gross (given p.id) = some amount ∧ p.funding.Computes amount

variable {policy : Policy ι} {gross : HostInt} {values : List (ι × HostInt)}

theorem independentPayout_eq (p : PolicyAward ι) (given : Option HostInt) :
    p.independentPayout gross values given = p.due gross values given := by
  unfold PolicyAward.independentPayout PolicyAward.independent PolicyAward.due
  cases p.amount.compute values gross given with
  | none => rfl
  | some amount =>
    by_cases h : 0 < amount.value
    · simp [h, Option.filter]
    · simp [h, Option.filter]

theorem independentViolations_eq_nil (p : PolicyAward ι) (given : Option HostInt) :
    p.independentViolations gross values given = []
      ↔ ∃ amount, p.amount.compute values gross given = some amount := by
  unfold PolicyAward.independentViolations PolicyAward.independent
  cases p.amount.compute values gross given with
  | none => simp
  | some amount => simp

theorem not_throws_iff (p : PolicyAward ι) (given : Option HostInt) :
    ¬ p.Throws gross values given ∧ p.independentViolations gross values given = []
      ↔ ¬ p.amount.Overflows values gross
        ∧ ∃ amount, p.amount.compute values gross given = some amount ∧ p.funding.Computes amount := by
  rw [independentViolations_eq_nil, PolicyAward.Throws, not_or, and_assoc]
  refine and_congr_right fun _ => ?_
  cases p.amount.compute values gross given with
  | none => simp
  | some amount => simp

theorem independentAwards_eq_ok {given : ι → Option HostInt} {payouts : List (Payout ι)} :
    independentAwards policy gross values given = .ok payouts ↔ policy.Payable gross values given
      ∧ payouts = sortById Payout.id
          (policy.awardList.filterMap fun p => p.due gross values (given p.id)) := by
  have hpayable : policy.Payable gross values given ↔
      (∀ p ∈ policy.awardList, ¬ p.Throws gross values (given p.id)) ∧
      ∀ p ∈ policy.awardList, p.independentViolations gross values (given p.id) = [] := by
    rw [← forall₂_and]
    exact forall₂_congr fun p _ => (not_throws_iff p (given p.id)).symm
  unfold independentAwards
  simp only [refuse_eq_ok, bind_eq_ok, checked_eq_ok, List.flatMap_eq_nil_iff,
    independentPayout_eq, Except.ok.injEq, not_exists, not_and]
  rw [hpayable, and_assoc]
  refine and_congr_right fun _ => ?_
  constructor
  · rintro ⟨_, hviolations, rfl⟩
    exact ⟨hviolations, rfl⟩
  · rintro ⟨hviolations, rfl⟩
    exact ⟨(), hviolations, rfl⟩

theorem independent_ok {stored : List (Payout ι)} {r : Recomputed ι}
    (h : independentDistribution policy gross values stored = .ok r) :
    policy.allocation.apply gross = .ok r.base
      ∧ r.payouts = policy.due gross values (storedAmount stored)
      ∧ r.final = finalAllocations r.base r.payouts := by
  unfold independentDistribution at h
  simp only [bind_eq_ok, carried_eq_ok] at h
  obtain ⟨base, hbase, e, he, -, -, h⟩ := h
  cases Except.ok.inj h
  refine ⟨hbase, ?_, rfl⟩
  show e.1 = _
  unfold independentPayouts at he
  unfold Policy.due
  split at he
  · next steps hsteps =>
    obtain ⟨acc, hrun, rfl⟩ := map_eq_ok.mp he
    simp only [hrun]
  · next hsteps =>
    obtain ⟨payouts, hrun, rfl⟩ := map_eq_ok.mp he
    exact (independentAwards_eq_ok.mp hrun).2

end

end PRF.Economics
