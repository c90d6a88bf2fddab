import ProtocolRobustness.Economics.SlashPolicy
import ProtocolRobustness.Library.Fallible

/-!
# Building a slash distribution

`build-slash-distribution` of `economics/slash_distribution.clj`: the base allocation of the gross
amount, the awards that were resolved or the steps in their order, and what is left to every
allocation.  Hashes and the resolution of extensions are parameters.  Numbers are those of the host;
where an operation on two 64-bit integers overflows, the computation throws.

* `Spread.shares`    `weighted-allocation`, `weighted-funding`, and `Spread.Carries`, that no step of
                     them overflows;
* `scaledShare`      `calculate-scaled-share`;
* `resolveAward`     `resolve-award`;
* `processSteps`     `process-steps`;
* `build`            `build-slash-distribution`.
-/

namespace PRF.Economics
open Table Fallible LongArith

/-- why nothing is built: an exception, or violations -/
inductive Refusal
  | thrown
  | invalid (violations : List Violation)
deriving DecidableEq

def checked (violations : List Violation) : Except Refusal Unit :=
  if violations = [] then .ok () else .error (.invalid violations)

/-- arithmetic that throws where the condition fails -/
def carried (c : Prop) [Decidable c] : Except Refusal Unit := if c then .ok () else .error .thrown

theorem carried_eq_ok {c : Prop} [Decidable c] {u : Unit} : carried c = .ok u ↔ c := by
  rw [carried, require_eq_ok]
  exact ⟨And.left, fun h => ⟨h, rfl⟩⟩

theorem checked_eq_ok {violations : List Violation} {u : Unit} :
    checked violations = .ok u ↔ violations = [] := by
  rw [checked, require_eq_ok]
  exact ⟨And.left, fun h => ⟨h, rfl⟩⟩

/-! ## weights -/

namespace Spread
section
variable {ι : Type} [DecidableEq ι] (s : Spread ι) (amount : HostInt)

def quotients : HostAmounts ι :=
  s.weights.map fun weight => (amount.mulPromote weight).quot (s.scale.getD (.ofInt 0))

def remainder : HostInt := amount.subPromote (HostInt.total (s.quotients amount).numbers)

/-- the weight that the remainder goes to -/
def taker : Option ι :=
  s.remainderTo.filter fun id => 0 < (s.remainder amount).value ∧ id ∈ s.weights.ids

def shares : HostAmounts ι :=
  match s.taker amount with
  | some id => (s.quotients amount).add id (s.remainder amount)
  | none => s.quotients amount

/-- with no scale, or with zero, the first weight throws -/
def Divides : Prop := s.weights.entries = [] ∨ s.scale.any fun scale => scale.value ≠ 0

instance : Decidable s.Divides := inferInstanceAs (Decidable (_ ∨ _))

/-- no operation overflows: the products, the sum of the quotients, the remainder and where it goes -/
def Carries : Prop :=
  (∀ e ∈ s.weights.entries, ¬ HostInt.MulOverflows amount e.2)
    ∧ (s.quotients amount).Sums
    ∧ ¬ HostInt.SubOverflows amount (HostInt.total (s.quotients amount).numbers)
    ∧ ∀ id ∈ s.taker amount, ¬ HostInt.AddOverflows ((s.quotients amount).number id) (s.remainder amount)

instance : Decidable (s.Carries amount) := inferInstanceAs (Decidable (_ ∧ _ ∧ _ ∧ _))

/-- the shares are computed without an exception -/
def Computes : Prop := s.Divides ∧ s.Carries amount

instance : Decidable (s.Computes amount) := inferInstanceAs (Decidable (_ ∧ _))

def apply : Except Refusal (HostAmounts ι) :=
  if s.Computes amount then .ok (s.shares amount) else .error .thrown

end
end Spread

/-! ## amounts -/

inductive Classification
  | zeroRate
  | roundedToZero
  | fullGrossAward
  | positiveAward
deriving DecidableEq

structure Share where
  gross : ℤ
  rate : ℤ
  scale : ℤ
  numerator : ℤ
  amount : ℤ
  roundingRemainder : ℤ
  classification : Classification
deriving DecidableEq

def classify (gross rate amount : ℤ) : Classification :=
  if rate = 0 then .zeroRate
  else if amount = 0 then .roundedToZero
  else if amount = gross then .fullGrossAward
  else .positiveAward

/-- `calculate-scaled-share` -/
def scaledShare (gross rate : ℤ) (scale : Option ℤ) (floor : Bool) : Option Share :=
  match scale with
  | some scale =>
    if 0 ≤ gross ∧ 0 ≤ rate ∧ 0 < scale ∧ rate ≤ scale ∧ floor then
      let amount := (gross * rate).tdiv scale
      some ⟨gross, rate, scale, gross * rate, amount, gross * rate - amount * scale,
        classify gross rate amount⟩
    else none
  | none => none

/-- `big` is whether what was computed is held in big integers, as it is where one of the operands
is. -/
structure Calculation (ι : Type) where
  awardId : ι
  parameterKey : Option ι
  share : Share
  big : Bool
deriving DecidableEq

/-- what is compared of it: equal integers are equal, however they are held -/
def Calculation.record {ι : Type} (c : Calculation ι) : ι × Option ι × Share :=
  (c.awardId, c.parameterKey, c.share)

def Calculation.amount {ι : Type} (c : Calculation ι) : HostInt := .promote c.big c.share.amount

def Calculation.roundingRemainder {ι : Type} (c : Calculation ι) : HostInt :=
  .promote c.big c.share.roundingRemainder

namespace AmountSpec
section
variable {ι : Type} [DecidableEq ι] (a : AmountSpec ι) (values : List (ι × HostInt))
  (gross : HostInt)

def parameter : Option HostInt := a.parameterKey.bind (find values)

/-- `rate-of-gross-calculation` -/
def share : Option Share :=
  (a.parameter values).bind fun rate =>
    scaledShare gross.value rate.value (a.scale.map HostInt.value) a.floor

/-- one of the operands of the rate is a big integer -/
def big : Bool :=
  gross.big || (a.parameter values).any HostInt.big || a.scale.any HostInt.big

/-- The product of the gross amount and the rate overflows.  The other operations of a rate stay
below it. -/
def Overflows : Prop :=
  a.method = .rateOfGross ∧ (a.share values gross).isSome
    ∧ ∃ rate ∈ a.parameter values, HostInt.MulOverflows gross rate

instance : Decidable (a.Overflows values gross) := inferInstanceAs (Decidable (_ ∧ _ ∧ _))

/-- `compute-award-amount`, with the amount on a resolved or a stored award -/
def compute (given : Option HostInt) : Option HostInt :=
  match a.method with
  | .rateOfGross => (a.share values gross).map fun share => .promote (a.big values gross) share.amount
  | .resolvedAmount => given.filter fun amount => 0 ≤ amount.value

/-- `award-calculation` -/
def calculation (awardId : ι) : Option (Calculation ι) :=
  if a.rated then
    (a.share values gross).map fun share => ⟨awardId, a.parameterKey, share, a.big values gross⟩
  else none

/-- what the builder asks of the parameter of a rate -/
def parameterViolations : List Violation :=
  if a.rated then
    flag ((a.parameter values).isNone) .missingParameter
      ++ flag ((a.parameter values).any fun rate => rate.value < 0) .invalidParameterValue
      ++ flag ((a.parameter values).any fun rate =>
          a.scale.any fun scale => 0 < scale.value ∧ scale.value < rate.value) .rateOutOfRange
  else []

/-- `(pos? scale)` of no scale throws, where there is a rate to compare with it -/
def Comparable : Prop := a.rated → (a.parameter values).isSome → a.scale.isSome

instance : Decidable (a.Comparable values) := inferInstanceAs (Decidable (_ → _ → _))

end
end AmountSpec

/-! ## the summary of the calculations -/

structure Summary (ι : Type) where
  rateDerivedAwards : ℕ
  positiveAwards : ℕ
  zeroRates : ℕ
  roundedToZero : ℕ
  fullGrossAwards : ℕ
  totalAmount : ℤ
  totalRoundingRemainder : ℤ
  amountByParameterKey : Amounts (Option ι)
deriving DecidableEq

section
variable {ι : Type} [DecidableEq ι]

def Summary.counts (s : Summary ι) : List ℕ :=
  [s.rateDerivedAwards, s.positiveAwards, s.zeroRates, s.roundedToZero, s.fullGrossAwards]

def Summary.totals (s : Summary ι) : ℤ × ℤ := (s.totalAmount, s.totalRoundingRemainder)

def Summary.Same (s t : Summary ι) : Prop :=
  s.counts = t.counts ∧ s.totals = t.totals ∧ s.amountByParameterKey.Same t.amountByParameterKey

instance (s t : Summary ι) : Decidable (s.Same t) := inferInstanceAs (Decidable (_ ∧ _))

/-- `build-rate-derived-summary` -/
def summarize (calculations : List (Calculation ι)) : Summary ι :=
  let classified := fun c => calculations.countP fun x => x.share.classification = c
  { rateDerivedAwards := calculations.length
    positiveAwards := calculations.countP fun x => 0 < x.share.amount
    zeroRates := classified .zeroRate
    roundedToZero := classified .roundedToZero
    fullGrossAwards := classified .fullGrossAward
    totalAmount := (calculations.map fun x => x.share.amount).sum
    totalRoundingRemainder := (calculations.map fun x => x.share.roundingRemainder).sum
    amountByParameterKey :=
      calculations.foldl (fun acc x => acc.add x.parameterKey x.share.amount) .empty }

/-- the sums of the summary are computed without an overflow -/
def SummaryCarries (calculations : List (Calculation ι)) : Prop :=
  HostInt.Totals (calculations.map Calculation.amount)
    ∧ HostInt.Totals (calculations.map Calculation.roundingRemainder)
    ∧ (CheckedSum.sums [] (calculations.map fun c => (c.parameterKey, c.amount))).isSome

instance (calculations : List (Calculation ι)) : Decidable (SummaryCarries calculations) :=
  inferInstanceAs (Decidable (_ ∧ _ ∧ _))

end

/-! ## payouts -/

/-- what is paid of an award: its amount, its sources and where it goes -/
structure Payout (ι : Type) where
  id : ι
  amount : HostInt
  calculation : Option (Calculation ι)
  funding : HostAmounts ι
  allocationId : Option ι
  obligationKind : Option ι
deriving DecidableEq

structure Award (ι : Type) extends Payout ι where
  trigger : Option ι
  evidenceReference : Option ι
  beneficiary : Beneficiary ι
deriving DecidableEq

section
variable {ι : Type} [DecidableEq ι]

/-- paid as the policy says, when the award or the step is funded and settled in this way -/
def payoutOf (funding : Spread ι) (settlement : Settlement (Option ι)) (id : ι) (amount : HostInt)
    (calculation : Option (Calculation ι)) : Payout ι where
  id := id
  amount := amount
  calculation := calculation
  funding := funding.shares amount
  allocationId := settlement.allocationId
  obligationKind := settlement.obligationKind

def PolicyAward.payout (p : PolicyAward ι) : ι → HostInt → Option (Calculation ι) → Payout ι :=
  payoutOf p.funding ⟨some p.settlement.allocationId, some p.settlement.obligationKind⟩

def deductions (payouts : List (Payout ι)) : HostAmounts ι :=
  payouts.foldl (fun acc p => acc.merge p.funding) .empty

/-- the deductions are added up without an overflow -/
def DeductionsCarry (payouts : List (Payout ι)) : Prop :=
  (CheckedSum.sums [] (payouts.flatMap fun p => p.funding.entries)).isSome

def settle (acc : HostAmounts ι) (p : Payout ι) : HostAmounts ι :=
  match p.allocationId with
  | some id => acc.add id p.amount
  | none => acc

def settlements (payouts : List (Payout ι)) : HostAmounts ι := payouts.foldl settle .empty

/-- where a payout goes, with its amount -/
def Payout.inflow (p : Payout ι) : Option (ι × HostInt) := p.allocationId.map fun id => (id, p.amount)

def allocationIds (base : HostAmounts ι) (payouts : List (Payout ι)) : List ι :=
  base.ids ++ ((deductions payouts).ids ++ (settlements payouts).ids)

/-- `(+ b (- d) s)` -/
def balance (base : HostAmounts ι) (payouts : List (Payout ι)) (id : ι) : HostInt :=
  ((base.number id).subPromote ((deductions payouts).number id)).addPromote
    ((settlements payouts).number id)

/-- the same, where it does not overflow -/
def balance? (base : HostAmounts ι) (payouts : List (Payout ι)) (id : ι) : Option HostInt := do
  let negated ← ((deductions payouts).number id).neg?
  let left ← (base.number id).add? negated
  left.add? ((settlements payouts).number id)

/-- the settlements are added up, and the balances computed, without an overflow -/
def BalancesCarry (base : HostAmounts ι) (payouts : List (Payout ι)) : Prop :=
  (CheckedSum.sums [] (payouts.filterMap Payout.inflow)).isSome
    ∧ ∀ id ∈ allocationIds base payouts, (balance? base payouts id).isSome

/-- the sums that a conservation violation reports -/
def TotalsCarry (base : HostAmounts ι) (payouts : List (Payout ι)) : Prop :=
  base.Sums ∧ (deductions payouts).Sums ∧ (settlements payouts).Sums
    ∧ HostInt.Totals (payouts.map Payout.amount)

instance (base : HostAmounts ι) (payouts : List (Payout ι)) : Decidable (TotalsCarry base payouts) :=
  inferInstanceAs (Decidable (_ ∧ _ ∧ _ ∧ _))
instance (payouts : List (Payout ι)) : Decidable (DeductionsCarry payouts) :=
  inferInstanceAs (Decidable (_ = _))
instance (base : HostAmounts ι) (payouts : List (Payout ι)) : Decidable (BalancesCarry base payouts) :=
  inferInstanceAs (Decidable (_ ∧ _))

/-- written out alike in the builder and in `independent-aggregates` -/
def finalAllocations (base : HostAmounts ι) (payouts : List (Payout ι)) : HostAmounts ι :=
  .tabulate (allocationIds base payouts) (balance base payouts)

def overdraws (base : HostAmounts ι) (payouts : List (Payout ι)) : List Violation :=
  (deductions payouts).entries.flatMap fun e => flag (base.get e.1 < e.2.value) .sourceOverdrawn

def negatives (final : HostAmounts ι) : List Violation :=
  final.entries.flatMap fun e => flag (e.2.value < 0) .negativeFinalAllocation

end

/-! ## awards that were resolved -/

structure ResolvedAward (ι : Type) where
  id : ι
  amount : Option HostInt
  resolution : Resolution ι
deriving DecidableEq

structure Outcome (ι : Type) where
  award : Option (Award ι)
  calculation : Option (Calculation ι)
  violations : List Violation

section
variable {ι : Type} [DecidableEq ι]

def Eligibility.violations (e : Eligibility ι) (r : Resolution ι) : List Violation :=
  flag (r.trigger ≠ some e.trigger) .triggerMismatch
    ++ flag (r.beneficiary.role ≠ some e.beneficiaryRole) .beneficiaryRoleMismatch
    ++ flag (e.requiresEvidenceReference ∧ r.evidenceReference.isNone) .missingEligibilityReference
    ++ flag r.beneficiary.id.isNone .missingBeneficiary

def resolveAward (gross : HostInt) (p : PolicyAward ι) (r : ResolvedAward ι)
    (values : List (ι × HostInt)) : Except Refusal (Outcome ι) :=
  let calculation := p.amount.calculation values gross r.id
  if p.amount.Overflows values gross then .error .thrown
  else
    match p.amount.compute values gross r.amount with
    | none => .ok ⟨none, calculation, [.invalidParameterValue]⟩
    | some amount =>
      if amount.value = 0 then .ok ⟨none, calculation, []⟩
      else if p.eligibility.violations r.resolution ≠ [] then
        .ok ⟨none, calculation, p.eligibility.violations r.resolution⟩
      else if p.funding.Computes amount then
        .ok ⟨some ⟨p.payout r.id amount calculation, r.resolution.trigger,
          r.resolution.evidenceReference, r.resolution.beneficiary⟩, calculation, []⟩
      else .error .thrown

end

/-! ## steps -/

inductive StepStatus
  | skippedIneligible
  | zero
  | applied
deriving DecidableEq

/-- its numbers are compared, and nothing is computed from them -/
structure StepRecord (ι : Type) where
  id : ι
  index : ℕ
  status : StepStatus
  basis : Basis ι
  basisValue : ℤ
  amount : ℤ
  remaining : ℤ
  onIneligible : Handling ι
  onFailure : Handling ι
deriving DecidableEq

/-- the awards of a distribution, with the trace of their calculations and of the steps -/
structure Awarded (ι : Type) where
  awards : List (Award ι)
  calculations : List (Calculation ι)
  steps : List (StepRecord ι)

structure Progress (ι : Type) where
  awards : List (Award ι)
  steps : List (StepRecord ι)
  calculations : List (Option (Calculation ι))
  pool : HostInt
  index : ℕ
  outputs : List (ι × HostInt)

section
variable {ι : Type} [DecidableEq ι]

def Basis.resolve (basis : Basis ι) (gross pool : HostInt) (outputs : List (ι × HostInt)) :
    Option HostInt :=
  match basis with
  | .gross => some gross
  | .remaining => some pool
  | .output (some stepId) true => find outputs stepId
  | _ => none

/-- `step-eligible?` -/
def Step.eligible (step : Step ι) : Bool :=
  step.resolved.trigger = step.eligibility.trigger
    && step.resolved.beneficiary.role = step.eligibility.beneficiaryRole
    && (!step.eligibility.requiresEvidenceReference || step.resolved.evidenceReference.isSome)
    && step.resolved.beneficiary.id.isSome

/-- `step-record` -/
def Step.record (step : Step ι) (index : ℕ) (basis : Basis ι) (basisValue amount remaining : ℤ)
    (status : StepStatus) : StepRecord ι where
  id := step.id
  index := index
  status := status
  basis := basis
  basisValue := basisValue
  amount := amount
  remaining := remaining
  onIneligible := step.onIneligible.getD .standard
  onFailure := step.onFailure.getD .standard

/-- a step that pays nothing -/
def Progress.pass (acc : Progress ι) (record : StepRecord ι) : Progress ι where
  awards := acc.awards
  steps := acc.steps ++ [record]
  calculations := acc.calculations
  pool := acc.pool
  index := acc.index + 1
  outputs := acc.outputs

def Step.pay (step : Step ι) (amount : HostInt) (calculation : Option (Calculation ι)) : Award ι where
  toPayout := payoutOf step.funding step.settlement step.id amount calculation
  trigger := step.eligibility.trigger
  evidenceReference := step.resolved.evidenceReference
  beneficiary := step.resolved.beneficiary

def Progress.apply (acc : Progress ι) (step : Step ι) (basis : Basis ι) (value amount : HostInt)
    (calculation : Option (Calculation ι)) : Progress ι where
  awards := acc.awards ++ [step.pay amount calculation]
  steps := acc.steps ++ [step.record acc.index basis value.value amount.value
    (acc.pool.subPromote amount).value .applied]
  calculations := acc.calculations ++ [calculation]
  pool := acc.pool.subPromote amount
  index := acc.index + 1
  outputs := put acc.outputs step.id (acc.pool.subPromote amount)

/-- one turn of `process-steps`; a skipped step is recorded with the pool for its amount -/
def processStep (gross : HostInt) (values : List (ι × HostInt)) (acc : Progress ι) (step : Step ι) :
    Except Refusal (Progress ι) :=
  let basis := step.basis.getD .gross
  let pool := acc.pool.value
  match basis.resolve gross acc.pool acc.outputs with
  | none => .error (.invalid [.unresolvedStepBasis])
  | some value =>
    if ¬ step.eligible then
      .ok (acc.pass (step.record acc.index basis value.value pool pool .skippedIneligible))
    else if step.amount.Overflows values value then .error .thrown
    else
      match step.amount.compute values value none with
      | none => .error (.invalid [.stepFailed])
      | some amount =>
        if basis ≠ .gross ∧ value.value < amount.value then .error (.invalid [.stepOverdrawsPool])
        else if amount.value = 0 then
          .ok (acc.pass (step.record acc.index basis value.value 0 pool .zero))
        else if step.funding.Computes amount ∧ ¬ HostInt.SubOverflows acc.pool amount then
          .ok (acc.apply step basis value amount (step.amount.calculation values value step.id))
        else .error .thrown

def Progress.start (gross : HostInt) : Progress ι := ⟨[], [], [], gross, 0, []⟩

def processSteps (gross : HostInt) (steps : List (Step ι)) (values : List (ι × HostInt)) :
    Except Refusal (Progress ι) :=
  steps.foldlM (processStep gross values) (Progress.start gross)

end

/-! ## the distribution -/

structure ParameterContext (ι : Type) where
  sourceRoot : Option String
  values : List (ι × HostInt)
deriving DecidableEq

/-- the committed fields, `distribution-hash-projection`; `ρ` are the roots and `κ` other data -/
structure Body (ι ρ κ : Type) where
  schemaVersion : String
  gross : HostInt
  context : κ
  policyRoot : ρ
  parameterContext : Option (ParameterContext ι)
  extensionRoot : Option ρ
  extensionPackages : List ρ
  base : HostAmounts ι
  awards : List (Award ι)
  steps : Option (List (StepRecord ι))
  calculations : Option (List (Calculation ι))
  summary : Option (Summary ι)
  final : HostAmounts ι

structure Distribution (ι ρ κ : Type) extends Body ι ρ κ where
  hash : ρ

def Body.payouts {ι ρ κ : Type} (d : Body ι ρ κ) : List (Payout ι) := d.awards.map Award.toPayout

structure Snapshot (ρ : Type) where
  root : ρ
  packages : List ρ

/-- the hashes, and the capabilities that a policy needs under a runtime profile -/
structure Environment (ι ρ κ : Type) where
  policyHash : Policy ι → ρ
  distributionHash : Body ι ρ κ → ρ
  resolution : Option κ → Policy ι → Option (Snapshot ρ)

/-- what a distribution is built from -/
structure Input (ι ρ κ : Type) where
  gross : HostInt
  policy : Policy ι
  policyRoot : Option ρ
  parameterContext : Option (ParameterContext ι)
  resolvedAwards : List (ResolvedAward ι)
  runtimeProfile : Option κ
  context : κ

def distributionSchemaVersion : String := "slash-distribution.v1"

section
variable {ι ρ κ : Type} [LinearOrder ι] [DecidableEq ρ]

def sortById {α : Type} (id : α → ι) (l : List α) : List α := l.insertionSort fun x y => id x ≤ id y

def parameterValues (context : Option (ParameterContext ι)) : List (ι × HostInt) :=
  (context.map ParameterContext.values).getD []

def Policy.awardOf (policy : Policy ι) (id : ι) : Option (PolicyAward ι) :=
  policy.awardList.find? fun p => p.id = id

namespace Input
variable (input : Input ι ρ κ)

def values : List (ι × HostInt) := parameterValues input.parameterContext

/-- the checks before anything is computed -/
def violations (env : Environment ι ρ κ) : List Violation :=
  let resolvedIds := input.resolvedAwards.map ResolvedAward.id
  let awardIds := input.policy.awardList.map PolicyAward.id
  flag (input.gross.value < 0) .invalidGrossAmount
    ++ input.policy.validate
    ++ flag (input.policyRoot.any fun root => root ≠ env.policyHash input.policy)
      .policyRootMismatch
    ++ flag (¬ resolvedIds.Nodup) .duplicateResolvedAwardId
    ++ flag (∃ id ∈ resolvedIds, id ∉ awardIds) .unknownAwardId
    ++ input.resolvedAwards.flatMap (fun r => ((input.policy.awardOf r.id).map fun p =>
        p.amount.parameterViolations input.values).getD [])
    ++ (input.policy.steps.getD []).flatMap (fun step =>
        step.amount.parameterViolations input.values)
    ++ flag (env.resolution input.runtimeProfile input.policy).isNone .extensionResolutionFailed

/-- the rates of the resolved awards and of the steps can be compared with their scales -/
def Comparable : Prop :=
  (∀ r ∈ input.resolvedAwards, ∀ p ∈ input.policy.awardOf r.id,
    p.amount.Comparable input.values) ∧
  ∀ step ∈ input.policy.steps.getD [], step.amount.Comparable input.values

instance : Decidable input.Comparable := inferInstanceAs (Decidable (_ ∧ _))

def resolveOne (r : ResolvedAward ι) : Except Refusal (Outcome ι) :=
  match input.policy.awardOf r.id with
  | some p => resolveAward input.gross p r input.values
  | none => .error .thrown

/-- the awards of an `:awards` policy, by their identifiers -/
def resolveAwards : Except Refusal (Awarded ι) := do
  let outcomes ← input.resolvedAwards.mapM input.resolveOne
  checked (outcomes.flatMap Outcome.violations)
  .ok ⟨sortById (fun x => x.id) (outcomes.filterMap Outcome.award),
    sortById (fun x => x.awardId) (outcomes.filterMap Outcome.calculation), []⟩

def awarded : Except Refusal (Awarded ι) :=
  match input.policy.steps with
  | some steps => (processSteps input.gross steps input.values).map fun acc =>
      ⟨acc.awards, acc.calculations.reduceOption, acc.steps⟩
  | none => input.resolveAwards

def body (env : Environment ι ρ κ) (base : HostAmounts ι) (awarded : Awarded ι) :
    Body ι ρ κ where
  schemaVersion := distributionSchemaVersion
  gross := input.gross
  context := input.context
  policyRoot := input.policyRoot.getD (env.policyHash input.policy)
  parameterContext := input.parameterContext
  extensionRoot := (env.resolution input.runtimeProfile input.policy).map Snapshot.root
  extensionPackages :=
    ((env.resolution input.runtimeProfile input.policy).map Snapshot.packages).getD []
  base := base
  awards := awarded.awards
  steps := input.policy.steps.map fun _ => awarded.steps
  calculations := some awarded.calculations
  summary := some (summarize awarded.calculations)
  final := finalAllocations base (awarded.awards.map Award.toPayout)

/-- `build-slash-distribution` -/
def build (env : Environment ι ρ κ) : Except Refusal (Distribution ι ρ κ) :=
  if input.Comparable ∧ input.policy.Summable then do
    checked (input.violations env)
    let base ← input.policy.allocation.apply input.gross
    let awarded ← input.awarded
    let payouts := awarded.awards.map Award.toPayout
    carried (SummaryCarries awarded.calculations ∧ DeductionsCarry payouts)
    checked (overdraws base payouts)
    carried (BalancesCarry base payouts)
    let body := input.body env base awarded
    checked (negatives body.final)
    carried (body.final.Sums
      ∧ (body.final.total ≠ input.gross.value → TotalsCarry base payouts))
    checked (flag (body.final.total ≠ input.gross.value) .conservationViolation)
    .ok { body with hash := env.distributionHash body }
  else .error .thrown

end Input

end

end PRF.Economics
