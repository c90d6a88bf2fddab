import ProtocolRobustness.Canonical.Compare
import ProtocolRobustness.Economics.SlashBuild
import ProtocolRobustness.Library.Shape

/-!
# Slash distributions from data of any shape

`validate-policy` and `build-slash-distribution` of `economics/slash_distribution.clj` on whatever data
they are given, with the core package of methods: `none` is an exception.  An integer of the input is
held in 64 bits where it fits; operations on two such integers throw where they overflow.

* `validatePolicyAward`   `validate-policy-award`;
* `stepFindings`          what `validate-steps` finds in one step;
* `validatePolicy`        `validate-policy`;
* `checks`                what the builder asks before it computes;
* `resolveAward`, `processSteps`   the awards;
* `build`                 `build-slash-distribution`.

The digest of canonical data and the snapshot of the packages are parameters; details of violations
are left out, but for the sums that they are computed with.
-/

namespace PRF.SlashShapes
open Datum Table LongArith
open Economics (HostAmounts Share Calculation Summary Payout)

inductive Finding
  -- of a policy
  | invalidPolicySchemaVersion
  | missingAllocation
  | invalidAllocationScale
  | missingAllocationWeights
  | allocationWeightsSumMismatch
  | missingAllocationRemainder
  | invalidAllocationRemainder
  | unsupportedAllocationMethod
  | mixedAwardsAndSteps
  | duplicateAwardId
  -- of an award
  | missingAwardId
  | missingAmountSpec
  | invalidAwardScale
  | unsupportedRounding
  | missingParameterKey
  | unsupportedAmountMethod
  | missingEligibility
  | missingTrigger
  | missingBeneficiaryRole
  | missingEvidenceRequirement
  | missingFundingSpec
  | invalidFundingScale
  | fundingWeightsDoNotSumToScale
  | missingFundingRemainder
  | invalidFundingRemainder
  | unknownFundingSource
  | unsupportedFundingMethod
  | missingSettlementSpec
  | missingSettlementAllocation
  | missingObligationKind
  -- of a step
  | duplicateStepId
  | invalidStepBasis
  | forwardStepReference
  | invalidStepOnIneligible
  | invalidStepOnFailure
  | stepResolvedAmountUnsupported
  | stepNotSequentialComposable
  -- of a distribution
  | invalidGrossAmount
  | missingPolicy
  | policyRootMismatch
  | duplicateResolvedAwardId
  | unknownAwardId
  | missingParameter
  | invalidParameterValue
  | rateOutOfRange
  | extensionResolutionFailed
  | triggerMismatch
  | beneficiaryRoleMismatch
  | missingEligibilityReference
  | missingBeneficiary
  | unresolvedStepBasis
  | stepFailed
  | stepOverdrawsPool
  | sourceOverdrawn
  | negativeFinalAllocation
  | conservationViolation
deriving DecidableEq

def flag (c : Prop) [Decidable c] (f : Finding) : List Finding := if c then [f] else []

theorem flag_eq_nil {c : Prop} [Decidable c] {f : Finding} : flag c f = [] ↔ ¬ c := by
  unfold flag
  split
  · next h => simp [h]
  · next h => simp [h]

/-! ## capabilities -/

def awardAmountKind : String := "economics/award-amount"
def allocationKind : String := "economics/allocation"
def fundingKind : String := "economics/funding"

/-- `core-capability-keys`; each of them composes sequentially -/
def coreCapabilityKeys : List (String × String) :=
  [(awardAmountKind, "prf/rate-of-gross"), (awardAmountKind, "prf/resolved-amount"),
    (allocationKind, "prf/weighted"), (fundingKind, "prf/weighted-deduction")]

/-- the identifier in `method->capability-key`; what has no name throws -/
def capabilityId (method : Datum) : Option (Option String) :=
  if method.truthy then
    match method with
    | .atom (.kw s) => some (some (if '/' ∈ s.toList then s else "prf/" ++ s))
    | _ => none
  else some none

def capabilityKey (kind : String) (method : Datum) : Option (Option (String × String)) :=
  (capabilityId method).map fun id => id.map fun id => (kind, id)

/-- `supported-award-amount-method?` and the two like it -/
def supported (kind : String) (method : Datum) : Option Bool :=
  (capabilityKey kind method).map fun key => key.any fun key => key ∈ coreCapabilityKeys

/-! ## validation -/

/-- neither nil, nor no integer, nor not positive -/
def positiveInt (d : Datum) : Bool := d.int?.any fun n => 0 < n

/-- an integer held in 64 bits -/
def isLong (q : ℚ) : Bool := q.den = 1 ∧ Fits q.num

/-- one addition, with whether the sum so far is held in 64 bits; ratios and big integers are not -/
def addNumber (acc : ℚ × Bool) (q : ℚ) : Option (ℚ × Bool) :=
  if acc.2 && isLong q then
    if Fits (acc.1 + q).num then some (acc.1 + q, true) else none
  else some (acc.1 + q, false)

/-- `(reduce + 0 ns)` -/
def numberSum (ns : List ℚ) : Option ℚ := (ns.foldlM addNumber (0, true)).map Prod.fst

def weightSum (weights : Datum) : Option ℚ := do
  let vs ← weights.vals?
  let ns ← vs.mapM number?
  numberSum ns

def bipsSumToScale (weights scale : Datum) : Option Bool :=
  (weightSum weights).map fun sum => scale.number? = some sum

def amountFindings (spec : Datum) : Option (List Finding) :=
  if spec.truthy then do
    if ← supported awardAmountKind (spec.get "method") then
      let rateOfGross := spec.get "method" = kw "rate-of-gross"
      return flag (rateOfGross ∧ ¬ positiveInt (spec.get "scale")) .invalidAwardScale
        ++ flag (rateOfGross ∧ spec.get "rounding" ≠ kw "floor") .unsupportedRounding
        ++ flag (rateOfGross ∧ spec.get "parameter-key" = null) .missingParameterKey
    else return [.unsupportedAmountMethod]
  else some [.missingAmountSpec]

def eligibilityFindings (elig : Datum) : List Finding :=
  if elig = null then [.missingEligibility] else
    flag (elig.get "trigger" = null) .missingTrigger
      ++ flag (elig.get "beneficiary-role" = null) .missingBeneficiaryRole
      ++ flag (elig.get "requires-evidence-reference?" = null) .missingEvidenceRequirement

def fundingRemainderKnown (weights remainder : Datum) : Option Bool :=
  if remainder = null then some true else weights.contains? remainder

/-- the case of `:weighted-deduction` -/
def deductionFindings (base sources : List Datum) (spec : Datum) : Option (List Finding) := do
  let weights := spec.get "weights"
  let scale := spec.get "scale"
  let remainder := spec.get "remainder-to"
  let sums ← bipsSumToScale weights scale
  let known ← fundingRemainderKnown weights remainder
  return flag (¬ positiveInt scale) .invalidFundingScale
    ++ flag (¬ sums) .fundingWeightsDoNotSumToScale
    ++ flag (remainder = null) .missingFundingRemainder
    ++ flag (¬ known) .invalidFundingRemainder
    ++ flag (∃ k ∈ sources, ¬ (k ∈ base ∧ k.truthy)) .unknownFundingSource

def fundingFindings (baseWeights spec : Datum) : Option (List Finding) :=
  if spec.truthy then do
    if ← supported fundingKind (spec.get "method") then
      let base ← baseWeights.keys?
      let sources ← (spec.get "weights").keys?
      if spec.get "method" = kw "weighted-deduction" then deductionFindings base sources spec
      else return []
    else return [.unsupportedFundingMethod]
  else some [.missingFundingSpec]

def settlementFindings (spec : Datum) : List Finding :=
  if spec.truthy then
    flag (spec.get "allocation-id" = null) .missingSettlementAllocation
      ++ flag (spec.get "obligation-kind" = null) .missingObligationKind
  else [.missingSettlementSpec]

def validatePolicyAward (allocation award : Datum) : Option (List Finding) := do
  let amount ← amountFindings (award.get "amount")
  let funding ← fundingFindings (allocation.get "weights") (award.get "funding")
  return flag (¬ (award.get "award/id").truthy) .missingAwardId ++ amount
    ++ eligibilityFindings (award.get "eligibility") ++ funding
    ++ settlementFindings (award.get "settlement")

def awardView (step : Datum) : Option Datum := step.assoc? "award/id" (step.get "step/id")

/-- one step in `validate-steps`.  It reads `:violations` of what `validate-policy-award` answers, a
vector, and so keeps nothing of it. -/
def stepFindings (allocation : Datum) (priorIds : List Datum) (step : Datum) :
    Option (List Finding) := do
  let view ← awardView step
  let _ ← validatePolicyAward allocation view
  let method := (step.get "amount").get "method"
  let composable ← supported awardAmountKind method
  let basis := step.get "basis"
  let source := basis.get "source"
  return flag (basis.isMap ∧ source ∉ [kw "distribution/gross", kw "remaining", kw "step/output"])
      .invalidStepBasis
    ++ flag (basis.isMap ∧ source = kw "step/output" ∧ (basis.get "step-id").truthy
        ∧ basis.get "step-id" ∉ priorIds) .forwardStepReference
    ++ flag (step.get "on-ineligible" ∉ [null, kw "omit"]) .invalidStepOnIneligible
    ++ flag (step.get "on-failure" ∉ [null, kw "abort"]) .invalidStepOnFailure
    ++ flag (method = kw "resolved-amount") .stepResolvedAmountUnsupported
    ++ flag (¬ composable) .stepNotSequentialComposable

def stepsFindings (allocation : Datum) (priorIds : List Datum) :
    List Datum → Option (List Finding)
  | [] => some []
  | step :: steps => do
    let here ← stepFindings allocation priorIds step
    let rest ← stepsFindings allocation (priorIds ++ [step.get "step/id"]) steps
    return here ++ rest

def validateSteps (allocation : Datum) (steps : List Datum) : Option (List Finding) := do
  let perStep ← stepsFindings allocation [] steps
  return flag (¬ (steps.map fun s => s.get "step/id").Nodup) .duplicateStepId ++ perStep

def baseWeightsSum (weights scale : Datum) : Option Bool :=
  if weights.truthy then bipsSumToScale weights scale else some true

def baseRemainderKnown (weights remainder : Datum) : Option Bool :=
  if remainder.truthy then weights.keys?.map fun ks => decide (remainder ∈ ks) else some true

/-- the case of `:weighted` -/
def weightedFindings (spec : Datum) : Option (List Finding) := do
  let weights := spec.get "weights"
  let remainder := spec.get "remainder-to"
  let sums ← baseWeightsSum weights (spec.get "scale")
  let known ← baseRemainderKnown weights remainder
  return flag (¬ positiveInt (spec.get "scale")) .invalidAllocationScale
    ++ flag (weights = null) .missingAllocationWeights
    ++ flag (¬ sums) .allocationWeightsSumMismatch
    ++ flag (remainder = null) .missingAllocationRemainder
    ++ flag (¬ known) .invalidAllocationRemainder

def allocationFindings (spec : Datum) : Option (List Finding) :=
  if spec.truthy then do
    if ← supported allocationKind (spec.get "method") then
      if spec.get "method" = kw "weighted" then weightedFindings spec else return []
    else return [.unsupportedAllocationMethod]
  else some [.missingAllocation]

/-- the steps of a policy, none where it has awards -/
def stepsOf (policy : Datum) : Option (List Datum) :=
  if (policy.get "steps").truthy then (policy.get "steps").seq? else some []

def validatePolicy (policy : Datum) : Option (List Finding) := do
  let allocation := policy.get "allocation"
  let ofAllocation ← allocationFindings allocation
  let awards ← (policy.get "awards").seq?
  let perAward ← awards.mapM (validatePolicyAward allocation)
  let steps ← stepsOf policy
  let ofSteps ← validateSteps allocation steps
  return flag (policy.get "schema-version" ≠ str Economics.policySchemaVersion)
      .invalidPolicySchemaVersion
    ++ ofAllocation
    ++ flag ((policy.get "awards").truthy ∧ (policy.get "steps").truthy) .mixedAwardsAndSteps
    ++ flag (¬ (awards.map fun a => a.get "award/id").Nodup) .duplicateAwardId
    ++ perAward.flatten
    ++ ofSteps

/-! ## amounts -/

/-- `(into {} es)` -/
def tableOf (es : List (Datum × HostInt)) : HostAmounts Datum where
  entries := into [] es
  nodup := nodup_into (show (([] : List (Datum × HostInt)).map Prod.fst).Nodup from List.nodup_nil) es

/-- `(quot (* amount weight) scale)` under the key of the weight.  The policy has been hashed by then,
so its numbers are integers. -/
def quotient (amount : HostInt) (scale : Datum) (e : Datum × Datum) : Option (Datum × HostInt) := do
  let weight ← e.2.int?
  let scale ← scale.int?
  let product ← amount.mul? (.ofInt weight)
  if scale = 0 then none else return (e.1, product.quot (.ofInt scale))

/-- `weighted-allocation` and `weighted-funding` -/
def shares (amount : HostInt) (spec : Datum) : Option (HostAmounts Datum) := do
  let weights := spec.get "weights"
  let remainderTo := spec.get "remainder-to"
  let entries ← weights.entries?
  let quotients ← entries.mapM (quotient amount (spec.get "scale"))
  let table := tableOf quotients
  let allocated ← HostInt.sum? table.numbers
  let remainder ← amount.sub? allocated
  if 0 < remainder.value ∧ remainderTo.truthy then
    let known ← weights.contains? remainderTo
    if ¬ known then return table
    else if HostInt.AddOverflows (table.number remainderTo) remainder then none
    else return table.add remainderTo remainder
  else return table

section
variable (gross : HostInt) (spec values : Datum)

def rateOf : Option ℤ := (values.lookup (spec.get "parameter-key")).int?

/-- `rate-of-gross-calculation` -/
def rateOfGross : Option Share :=
  (rateOf spec values).bind fun rate =>
    Economics.scaledShare gross.value rate (spec.get "scale").int? (spec.get "rounding" = kw "floor")

def bigRate : Bool :=
  gross.big || (rateOf spec values).any (fun rate => ¬ Fits rate)
    || (spec.get "scale").int?.any fun scale => ¬ Fits scale

/-- The product of the gross amount and the rate overflows.  The other operations of a rate stay
below it. -/
def RateOverflows : Prop :=
  (rateOfGross gross spec values).isSome
    ∧ ∃ rate ∈ rateOf spec values, HostInt.MulOverflows gross (.ofInt rate)

instance : Decidable (RateOverflows gross spec values) := inferInstanceAs (Decidable (_ ∧ _))

def awardCalculation (awardId : Datum) : Option (Calculation Datum) :=
  if spec.get "method" = kw "rate-of-gross" then
    (rateOfGross gross spec values).map fun share =>
      ⟨awardId, some (spec.get "parameter-key"), share, bigRate gross spec values⟩
  else none

/-- the amount of a core method, where its rate does not overflow -/
def amountBy (id : Option String) (resolved : Datum) : Option HostInt :=
  if id = some "prf/rate-of-gross" then
    (rateOfGross gross spec values).map fun share => .promote (bigRate gross spec values) share.amount
  else if id = some "prf/resolved-amount" then
    ((resolved.get "award/amount").int?.filter fun amount => 0 ≤ amount).map .ofInt
  else none

def computeAwardAmount (resolved : Datum) : Option (Option HostInt) := do
  let id ← capabilityId (spec.get "method")
  if id = some "prf/rate-of-gross" ∧ RateOverflows gross spec values then none
  else return amountBy gross spec values id resolved

end

def computeAwardFunding (amount : HostInt) (spec : Datum) : Option (Option (HostAmounts Datum)) := do
  let id ← capabilityId (spec.get "method")
  if id = some "prf/weighted-deduction" then (shares amount spec).map some else return none

def computeAllocation (gross : HostInt) (spec : Datum) : Option (HostAmounts Datum) := do
  let id ← capabilityId (spec.get "method")
  if id = some "prf/weighted" then shares gross spec else return .empty

/-! ## awards -/

structure Award where
  id : Datum
  amount : HostInt
  trigger : Datum
  evidenceReference : Datum
  beneficiary : Datum
  funding : HostAmounts Datum
  allocationId : Datum
  obligationKind : Datum
  calculation : Option (Calculation Datum)

/-- what is added up of it: it is settled where the allocation is neither nil nor false -/
def Award.payout (a : Award) : Payout Datum where
  id := a.id
  amount := a.amount
  calculation := a.calculation
  funding := a.funding
  allocationId := if a.allocationId.truthy then some a.allocationId else none
  obligationKind := some a.obligationKind

structure Outcome where
  award : Option Award
  calculation : Option (Calculation Datum)
  findings : List Finding

/-- what a resolved award has to repeat of the policy -/
def mismatches (policyElig resolved : Datum) : List Finding :=
  let elig := resolved.get "eligibility"
  let beneficiary := resolved.get "beneficiary"
  flag (policyElig.get "trigger" ≠ elig.get "trigger") .triggerMismatch
    ++ flag (policyElig.get "beneficiary-role" ≠ beneficiary.get "participant/role")
      .beneficiaryRoleMismatch
    ++ flag ((policyElig.get "requires-evidence-reference?").truthy
        ∧ elig.get "evidence-reference" = null) .missingEligibilityReference
    ++ flag (¬ (beneficiary.get "participant/id").truthy) .missingBeneficiary

def resolveAward (gross : HostInt) (policyAward resolved values : Datum) : Option Outcome := do
  let spec := policyAward.get "amount"
  let calculation := awardCalculation gross spec values (resolved.get "award/id")
  match ← computeAwardAmount gross spec values resolved with
  | none => return ⟨none, calculation, [.invalidParameterValue]⟩
  | some amount =>
    if amount.value = 0 then return ⟨none, calculation, []⟩
    else if mismatches (policyAward.get "eligibility") resolved ≠ [] then
      return ⟨none, calculation, mismatches (policyAward.get "eligibility") resolved⟩
    else
      let funding ← computeAwardFunding amount (policyAward.get "funding")
      let award : Award := {
        id := resolved.get "award/id"
        amount := amount
        trigger := (resolved.get "eligibility").get "trigger"
        evidenceReference := (resolved.get "eligibility").get "evidence-reference"
        beneficiary := resolved.get "beneficiary"
        funding := funding.getD .empty
        allocationId := (policyAward.get "settlement").get "allocation-id"
        obligationKind := (policyAward.get "settlement").get "obligation-kind"
        calculation := calculation }
      return ⟨some award, calculation, []⟩

/-! ## sorting -/

def keywordRank (s : String) : Lex (WithBot (List ℕ) × List ℕ) :=
  let ns := s.toList.takeWhile (· ≠ '/')
  if '/' ∈ s.toList then
    toLex (utf16 (String.ofList ns), utf16 (String.ofList (s.toList.drop (ns.length + 1))))
  else toLex (⊥, utf16 s)

def compareAtoms : Atom → Atom → Option Ordering
  | .null, .null => some .eq
  | .null, _ => some .lt
  | _, .null => some .gt
  | .bool a, .bool b => some (compare a b)
  | .str a, .str b => some (cmp (utf16 a) (utf16 b))
  | .kw a, .kw b => some (cmp (keywordRank a) (keywordRank b))
  | a, b =>
    match a.number?, b.number? with
    | some x, some y => some (cmp x y)
    | _, _ => none

mutual

/-- `(compare a b)` -/
def compareData : Datum → Datum → Option Ordering
  | .atom a, .atom b => compareAtoms a b
  | .atom .null, _ => some .lt
  | _, .atom .null => some .gt
  | .vec xs, .vec ys =>
    if xs.length = ys.length then compareItems xs ys else some (compare xs.length ys.length)
  | _, _ => none

def compareItems : List Datum → List Datum → Option Ordering
  | x :: xs, y :: ys => do
    let o ← compareData x y
    if o = .eq then compareItems xs ys else return o
  | _, _ => some .eq

end

/-- `(sort-by id l)`: of two elements that cannot be compared, two are compared -/
def sortBy {α : Type} (id : α → Datum) (l : List α) : Option (List α) :=
  if l.Pairwise fun x y => (compareData (id x) (id y)).isSome then
    some (l.insertionSort fun x y => compareData (id x) (id y) ≠ some .gt)
  else none

/-! ## steps -/

structure StepRecord where
  id : Datum
  index : ℕ
  status : Economics.StepStatus
  basis : Datum
  basisValue : ℤ
  amount : ℤ
  remaining : ℤ
  onIneligible : Datum
  onFailure : Datum

structure Progress where
  awards : List Award
  steps : List StepRecord
  calculations : List (Option (Calculation Datum))
  findings : List Finding
  pool : HostInt
  index : ℕ
  outputs : List (Datum × HostInt)

def Progress.fail (acc : Progress) (f : Finding) : Progress := { acc with findings := [f] }

def Progress.pass (acc : Progress) (record : StepRecord) : Progress :=
  { acc with steps := acc.steps ++ [record], index := acc.index + 1 }

def grossBasis : Datum := .map [(kw "source", kw "distribution/gross")]

def resolveStepBasis (basis : Datum) (gross pool : HostInt) (outputs : List (Datum × HostInt)) :
    Option HostInt :=
  if basis.get "source" = kw "distribution/gross" then some gross
  else if basis.get "source" = kw "remaining" then some pool
  else if basis.get "source" = kw "step/output" ∧ basis.get "field" = kw "remaining" then
    find outputs (basis.get "step-id")
  else none

def stepEligible (step : Datum) : Bool :=
  let decl := step.get "eligibility"
  let resolved := step.get "resolved"
  decl.get "trigger" = resolved.get "trigger"
    ∧ decl.get "beneficiary-role" = (resolved.get "beneficiary").get "participant/role"
    ∧ ((decl.get "requires-evidence-reference?").truthy →
        resolved.get "evidence-reference" ≠ null)
    ∧ (resolved.get "beneficiary").get "participant/id" ≠ null

def stepRecord (step : Datum) (index : ℕ) (basis : Datum) (basisValue amount remaining : ℤ)
    (status : Economics.StepStatus) : StepRecord where
  id := step.get "step/id"
  index := index
  status := status
  basis := basis
  basisValue := basisValue
  amount := amount
  remaining := remaining
  onIneligible := (step.get "on-ineligible").orElse (kw "omit")
  onFailure := (step.get "on-failure").orElse (kw "abort")

def stepAward (step : Datum) (amount : HostInt) (funding : HostAmounts Datum)
    (calculation : Option (Calculation Datum)) : Award where
  id := step.get "step/id"
  amount := amount
  trigger := (step.get "eligibility").get "trigger"
  evidenceReference := (step.get "resolved").get "evidence-reference"
  beneficiary := (step.get "resolved").get "beneficiary"
  funding := funding
  allocationId := (step.get "settlement").get "allocation-id"
  obligationKind := (step.get "settlement").get "obligation-kind"
  calculation := calculation

def Progress.apply (acc : Progress) (step basis : Datum) (value amount pool : HostInt)
    (funding : HostAmounts Datum) (calculation : Option (Calculation Datum)) : Progress where
  awards := acc.awards ++ [stepAward step amount funding calculation]
  steps := acc.steps
    ++ [stepRecord step acc.index basis value.value amount.value pool.value .applied]
  calculations := acc.calculations ++ [calculation]
  findings := acc.findings
  pool := pool
  index := acc.index + 1
  outputs := put acc.outputs (step.get "step/id") pool

/-- one turn of `process-steps`; a skipped step is recorded with the pool for its amount -/
def processStep (gross : HostInt) (values : Datum) (acc : Progress) (step : Datum) :
    Option Progress :=
  let basis := (step.get "basis").orElse grossBasis
  let spec := step.get "amount"
  let remaining := acc.pool.value
  if acc.findings ≠ [] then some acc
  else
    match resolveStepBasis basis gross acc.pool acc.outputs with
    | none => some (acc.fail .unresolvedStepBasis)
    | some value =>
      if ¬ stepEligible step then
        some (acc.pass
          (stepRecord step acc.index basis value.value remaining remaining .skippedIneligible))
      else do
        match ← computeAwardAmount value spec values null with
        | none => return acc.fail .stepFailed
        | some amount =>
          if basis.get "source" ≠ kw "distribution/gross" ∧ value.value < amount.value then
            return acc.fail .stepOverdrawsPool
          else if amount.value = 0 then
            return acc.pass (stepRecord step acc.index basis value.value 0 remaining .zero)
          else
            match ← computeAwardFunding amount (step.get "funding") with
            | none => return acc.fail .stepFailed
            | some funding =>
              let pool ← acc.pool.sub? amount
              return acc.apply step basis value amount pool funding
                (awardCalculation value spec values (step.get "step/id"))

def processSteps (gross : HostInt) (values : Datum) (steps : List Datum) : Option Progress :=
  steps.foldlM (processStep gross values) ⟨[], [], [], [], gross, 0, []⟩

/-! ## the distribution -/

def overdraws (base : HostAmounts Datum) (payouts : List (Payout Datum)) : List Finding :=
  (Economics.deductions payouts).entries.flatMap fun e =>
    flag (base.get e.1 < e.2.value) .sourceOverdrawn

def negatives (final : HostAmounts Datum) : List Finding :=
  final.entries.flatMap fun e => flag (e.2.value < 0) .negativeFinalAllocation

structure Snapshot where
  root : String
  packages : List String

/-- the committed fields, `distribution-hash-projection` -/
structure Distribution where
  gross : HostInt
  context : Datum
  policyRoot : Datum
  parameterContext : Datum
  extensions : Snapshot
  base : HostAmounts Datum
  awards : List Award
  calculations : List (Calculation Datum)
  summary : Summary Datum
  final : HostAmounts Datum
  steps : Option (List StepRecord)

def keyed (m : HostAmounts Datum) : Bool := m.ids.all isKey

def parameterKeyOf (c : Calculation Datum) : Datum := c.parameterKey.getD null

def encodableCalculation (c : Calculation Datum) : Bool :=
  c.awardId.encodable ∧ (parameterKeyOf c).encodable

def Award.encodable (a : Award) : Bool :=
  a.id.encodable ∧ a.trigger.encodable ∧ a.evidenceReference.encodable ∧ a.beneficiary.encodable
    ∧ keyed a.funding ∧ a.allocationId.encodable ∧ a.obligationKind.encodable
    ∧ a.calculation.all encodableCalculation

def StepRecord.encodable (s : StepRecord) : Bool :=
  s.id.encodable ∧ s.basis.encodable ∧ s.onIneligible.encodable ∧ s.onFailure.encodable

/-- whether the canonical encoder takes it; numbers and the names of the engine it takes -/
def Distribution.encodable (d : Distribution) : Bool :=
  d.context.encodable ∧ d.policyRoot.encodable ∧ d.parameterContext.encodable ∧ keyed d.base
    ∧ d.awards.all Award.encodable ∧ d.calculations.all encodableCalculation
    ∧ d.summary.amountByParameterKey.ids.all (fun k => (k.getD null).isKey)
    ∧ keyed d.final ∧ d.steps.all fun steps => steps.all StepRecord.encodable

/-- the digests of canonical data, and the snapshot of what a policy needs under a runtime profile -/
structure Env where
  digest : Datum → String
  distributionDigest : Distribution → String
  snapshot : Datum → List (String × String) → Snapshot

/-- the map a distribution is built from -/
structure Input where
  gross : Datum
  policy : Datum
  policyRoot : Datum
  parameterContext : Datum
  resolvedAwards : Datum
  runtimeProfile : Datum
  context : Datum

inductive Result
  | valid (distribution : Distribution) (hash : String)
  | invalid (findings : List Finding)

def Result.distribution : Result → Option Distribution
  | valid distribution _ => some distribution
  | invalid _ => none

/-- the award of a policy under an identifier, or nil -/
def awardFor (awards : List Datum) (id : Datum) : Datum :=
  (awards.find? fun a => a.get "award/id" = id ∧ a.truthy).getD null

/-- what the builder asks of the parameter of a rate; `(pos? scale)` of no number throws -/
def rateFindings (values spec : Datum) : Option (List Finding) :=
  if spec.truthy ∧ spec.get "method" = kw "rate-of-gross" then
    let resolved := values.lookup (spec.get "parameter-key")
    match resolved.int? with
    | some rate => do
      let scale ← (spec.get "scale").number?
      return flag (rate < 0) .invalidParameterValue
        ++ flag (0 < scale ∧ scale < rate) .rateOutOfRange
    | none => some (flag (resolved = null) .missingParameter
        ++ flag resolved.truthy .invalidParameterValue)
  else some []

def policyCapabilityKeys (policy : Datum) : Option (List (String × String)) := do
  let allocation ← capabilityKey allocationKind ((policy.get "allocation").get "method")
  let items ← (policy.get (if (policy.get "steps").truthy then "steps" else "awards")).seq?
  let amounts ← items.mapM fun s => capabilityKey awardAmountKind ((s.get "amount").get "method")
  let fundings ← items.mapM fun s => capabilityKey fundingKind ((s.get "funding").get "method")
  return (allocation :: (amounts ++ fundings)).reduceOption

namespace Input
variable (env : Env) (i : Input)

def values : Datum := i.parameterContext.get "values"

def allocation : Datum := i.policy.get "allocation"

def policyHash : Option String := if i.policy.encodable then some (env.digest i.policy) else none

/-- `resolve-policy-extensions` -/
def resolution : Option (Option Snapshot) := do
  let keys ← policyCapabilityKeys i.policy
  if ∀ key ∈ keys, key ∈ coreCapabilityKeys then
    if i.runtimeProfile.encodable then return some (env.snapshot i.runtimeProfile keys) else none
  else return none

def policyFindings : Option (List Finding) :=
  if i.policy.truthy then validatePolicy i.policy else some [.missingPolicy]

/-- the policy-root binding -/
def rootFindings : Option (List Finding) :=
  if i.policy.truthy then
    (i.policyHash env).map fun computed =>
      flag (i.policyRoot.truthy ∧ i.policyRoot ≠ str computed) .policyRootMismatch
  else some []

def extensionFindings : Option (List Finding) :=
  if i.policy.truthy then
    (i.resolution env).map fun resolution => flag resolution.isNone .extensionResolutionFailed
  else some []

/-- the checks before anything is computed -/
def checks : Option (List Finding) := do
  let ofPolicy ← i.policyFindings
  let ofRoot ← i.rootFindings env
  let resolved ← i.resolvedAwards.seq?
  let awards ← (i.policy.get "awards").seq?
  let steps ← stepsOf i.policy
  let rates ← resolved.mapM fun r =>
    rateFindings i.values ((awardFor awards (r.get "award/id")).get "amount")
  let stepRates ← steps.mapM fun s => rateFindings i.values (s.get "amount")
  let ofExtensions ← i.extensionFindings env
  let resolvedIds := resolved.map fun r => r.get "award/id"
  let awardIds := awards.map fun a => a.get "award/id"
  return flag (¬ i.gross.int?.any fun n => 0 ≤ n) .invalidGrossAmount
    ++ ofPolicy ++ ofRoot
    ++ flag (¬ resolvedIds.Nodup) .duplicateResolvedAwardId
    ++ flag (∃ id ∈ resolvedIds, ¬ (id ∈ awardIds ∧ id.truthy)) .unknownAwardId
    ++ rates.flatten ++ stepRates.flatten ++ ofExtensions

/-- the awards of an `:awards` policy, by their identifiers -/
def resolveAwards (gross : HostInt) : Option Progress := do
  let resolved ← i.resolvedAwards.seq?
  let awards ← (i.policy.get "awards").seq?
  let outcomes ← resolved.mapM fun r =>
    resolveAward gross (awardFor awards (r.get "award/id")) r i.values
  let paid ← sortBy Award.id (outcomes.filterMap Outcome.award)
  let calculations ← sortBy Calculation.awardId (outcomes.filterMap Outcome.calculation)
  return ⟨paid, [], calculations.map some, outcomes.flatMap Outcome.findings, gross, 0, []⟩

def awarded (gross : HostInt) : Option Progress :=
  if (i.policy.get "steps").truthy then do
    let steps ← (i.policy.get "steps").seq?
    processSteps gross i.values steps
  else i.resolveAwards gross

def distribution (gross : HostInt) (root : String) (extensions : Snapshot)
    (base : HostAmounts Datum) (progress : Progress) : Distribution where
  gross := gross
  context := i.context
  policyRoot := i.policyRoot.orElse (str root)
  parameterContext := i.parameterContext
  extensions := extensions
  base := base
  awards := progress.awards
  calculations := progress.calculations.reduceOption
  summary := Economics.summarize progress.calculations.reduceOption
  final := Economics.finalAllocations base (progress.awards.map Award.payout)
  steps := if (i.policy.get "steps").truthy then some progress.steps else none

/-- what follows the checks -/
def settle (gross : HostInt) (root : String) (extensions : Snapshot) : Option Result := do
  let base ← computeAllocation gross i.allocation
  let progress ← i.awarded gross
  let payouts := progress.awards.map Award.payout
  let final := Economics.finalAllocations base payouts
  if progress.findings ≠ [] then return .invalid progress.findings
  else if ¬ (Economics.SummaryCarries progress.calculations.reduceOption
      ∧ Economics.DeductionsCarry payouts) then none
  else if overdraws base payouts ≠ [] then return .invalid (overdraws base payouts)
  else if ¬ Economics.BalancesCarry base payouts then none
  else if negatives final ≠ [] then return .invalid (negatives final)
  else if ¬ final.Sums then none
  else if final.total ≠ gross.value then
    if Economics.TotalsCarry base payouts then return .invalid [.conservationViolation] else none
  else
    let d := i.distribution gross root extensions base progress
    if d.encodable then return .valid d (env.distributionDigest d) else none

/-- `build-slash-distribution` -/
def build : Option Result := do
  let findings ← i.checks env
  if findings ≠ [] then return .invalid findings
  else
    let gross ← i.gross.int?
    let root ← i.policyHash env
    let extensions ← i.resolution env
    i.settle env (.ofInt gross) root (extensions.getD ⟨"", []⟩)

end Input

end PRF.SlashShapes
