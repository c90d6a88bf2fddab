import ProtocolRobustness.Economics.Amounts

/-!
# Slash distribution policies

`economics/slash_distribution.clj`: a policy over opaque identifiers, and its validation against the
core package of methods.  Every field that is checked to be there is there; details of violations are
left out.

* `Spread`           weights over a scale, for allocations and for funding;
* `Policy`           base allocation, and awards or ordered steps;
* `Policy.validate`  `validate-policy`, and `Policy.Summable`, that it does not overflow.
-/

namespace PRF.Economics
open LongArith

inductive AmountMethod
  | rateOfGross
  | resolvedAmount
deriving DecidableEq

/-- A `namespaced` method is spelled `:prf/...`; it is computed alike, and no case by its name
applies.  `floor` is whether `:rounding` is `:floor`. -/
structure AmountSpec (ι : Type) where
  method : AmountMethod
  namespaced : Bool
  scale : Option HostInt
  floor : Bool
  parameterKey : Option ι
deriving DecidableEq

/-- whether the method is `:rate-of-gross` by its name -/
def AmountSpec.rated {ι : Type} (a : AmountSpec ι) : Bool :=
  !a.namespaced && a.method = .rateOfGross

/-- `:weighted` and `:weighted-deduction` -/
structure Spread (ι : Type) where
  namespaced : Bool
  scale : Option HostInt
  weights : HostAmounts ι
  remainderTo : Option ι
deriving DecidableEq

/-- of an award its trigger and role are there, of a step either may be missing -/
structure Eligibility (τ : Type) where
  trigger : τ
  beneficiaryRole : τ
  requiresEvidenceReference : Bool
deriving DecidableEq

structure Settlement (τ : Type) where
  allocationId : τ
  obligationKind : τ
deriving DecidableEq

structure PolicyAward (ι : Type) where
  id : ι
  amount : AmountSpec ι
  eligibility : Eligibility ι
  funding : Spread ι
  settlement : Settlement ι
deriving DecidableEq

structure Beneficiary (ι : Type) where
  id : Option ι
  role : Option ι
deriving DecidableEq

/-- what is known of the trigger of an award or a step -/
structure Resolution (ι : Type) where
  trigger : Option ι
  evidenceReference : Option ι
  beneficiary : Beneficiary ι
deriving DecidableEq

inductive Basis (ι : Type)
  | gross
  | remaining
  | output (stepId : Option ι) (remainingField : Bool)
  | other
deriving DecidableEq

/-- whether it reads a step that is not among these -/
def Basis.forward {ι : Type} [DecidableEq ι] (prior : List ι) : Option (Basis ι) → Bool
  | some (.output (some stepId) _) => stepId ∉ prior
  | _ => false

inductive Handling (ι : Type)
  | standard
  | other (name : ι)
deriving DecidableEq

/-- The standard handling omits an ineligible step and aborts on a failure.  What a step says of its
eligibility and settlement is not checked. -/
structure Step (ι : Type) where
  id : ι
  basis : Option (Basis ι)
  amount : AmountSpec ι
  eligibility : Eligibility (Option ι)
  resolved : Resolution ι
  funding : Spread ι
  settlement : Settlement (Option ι)
  onIneligible : Option (Handling ι)
  onFailure : Option (Handling ι)
deriving DecidableEq

structure Policy (ι : Type) where
  schemaVersion : String
  allocation : Spread ι
  awards : Option (List (PolicyAward ι))
  steps : Option (List (Step ι))
deriving DecidableEq

def Policy.awardList {ι : Type} (policy : Policy ι) : List (PolicyAward ι) :=
  policy.awards.getD []

def policySchemaVersion : String := "slash-distribution-policy.v1"

/-! ## violations -/

inductive Violation
  -- of a policy
  | invalidPolicySchemaVersion
  | invalidAwardScale
  | unsupportedRounding
  | missingParameterKey
  | invalidFundingScale
  | fundingWeightsDoNotSumToScale
  | missingFundingRemainder
  | invalidFundingRemainder
  | unknownFundingSource
  | invalidAllocationScale
  | allocationWeightsSumMismatch
  | missingAllocationRemainder
  | invalidAllocationRemainder
  | mixedAwardsAndSteps
  | duplicateAwardId
  | duplicateStepId
  | invalidStepBasis
  | forwardStepReference
  | invalidStepOnIneligible
  | invalidStepOnFailure
  | stepResolvedAmountUnsupported
  -- of a distribution
  | invalidGrossAmount
  | policyRootMismatch
  | duplicateResolvedAwardId
  | unknownAwardId
  | missingParameter
  | invalidParameterValue
  | rateOutOfRange
  | extensionResolutionFailed
  | triggerMismatch
  | beneficiaryRoleMismatch
  | missingEligibilityReference
  | missingBeneficiary
  | unresolvedStepBasis
  | stepFailed
  | stepOverdrawsPool
  | sourceOverdrawn
  | negativeFinalAllocation
  | conservationViolation
  -- of a verification
  | unsupportedAmountMethod
  | distributionHashMismatch
  | baseConservation
  | missingCalculationTrace
  | missingSummary
  | summaryMismatch
  | recomputationMismatch
  | extensionResolutionMismatch
  | awardOrderInvalid
  | awardFundingConservation
  | allocationReconciliation
deriving DecidableEq

/-- a violation where the condition holds -/
def flag (c : Prop) [Decidable c] (v : Violation) : List Violation := if c then [v] else []

theorem flag_eq_nil {c : Prop} [Decidable c] {v : Violation} : flag c v = [] ↔ ¬ c := by
  unfold flag
  split
  · next h => simp [h]
  · next h => simp [h]

/-! ## validation -/

section
variable {ι : Type} [DecidableEq ι]

/-- `validate-policy-award`, with the weights of the base allocation -/
def PolicyAward.validate (award : PolicyAward ι) (base : HostAmounts ι) : List Violation :=
  let a := award.amount
  let f := award.funding
  flag (a.rated ∧ ¬ a.scale.any fun s => 0 < s.value) .invalidAwardScale
    ++ flag (a.rated ∧ ¬ a.floor) .unsupportedRounding
    ++ flag (a.rated ∧ a.parameterKey.isNone) .missingParameterKey
    ++ flag (¬ f.namespaced ∧ ¬ f.scale.any fun s => 0 < s.value) .invalidFundingScale
    ++ flag (¬ f.namespaced ∧ f.scale.map HostInt.value ≠ some f.weights.total) .fundingWeightsDoNotSumToScale
    ++ flag (¬ f.namespaced ∧ f.remainderTo.isNone) .missingFundingRemainder
    ++ flag (¬ f.namespaced ∧ f.remainderTo.any fun id => id ∉ f.weights.ids)
      .invalidFundingRemainder
    ++ flag (¬ f.namespaced ∧ ∃ id ∈ f.weights.ids, id ∉ base.ids) .unknownFundingSource

/-- `validate-steps`, for a step after others.  It reads `:violations` of what
`validate-policy-award` answers for the step, a vector, and so adds nothing of it. -/
def Step.validate (step : Step ι) (prior : List ι) : List Violation :=
  flag (step.basis = some .other) .invalidStepBasis
    ++ flag (Basis.forward prior step.basis) .forwardStepReference
    ++ flag (step.onIneligible ≠ none ∧ step.onIneligible ≠ some .standard) .invalidStepOnIneligible
    ++ flag (step.onFailure ≠ none ∧ step.onFailure ≠ some .standard) .invalidStepOnFailure
    ++ flag (¬ step.amount.namespaced ∧ step.amount.method = .resolvedAmount)
      .stepResolvedAmountUnsupported

def validateSteps (prior : List ι) : List (Step ι) → List Violation
  | [] => []
  | step :: steps => step.validate prior ++ validateSteps (prior ++ [step.id]) steps

/-- `validate-policy` -/
def Policy.validate (policy : Policy ι) : List Violation :=
  let a := policy.allocation
  flag (policy.schemaVersion ≠ policySchemaVersion) .invalidPolicySchemaVersion
    ++ flag (¬ a.namespaced ∧ ¬ a.scale.any fun s => 0 < s.value) .invalidAllocationScale
    ++ flag (¬ a.namespaced ∧ a.scale.map HostInt.value ≠ some a.weights.total) .allocationWeightsSumMismatch
    ++ flag (¬ a.namespaced ∧ a.remainderTo.isNone) .missingAllocationRemainder
    ++ flag (¬ a.namespaced ∧ a.remainderTo.any fun id => id ∉ a.weights.ids)
      .invalidAllocationRemainder
    ++ flag (policy.awards.isSome ∧ policy.steps.isSome) .mixedAwardsAndSteps
    ++ flag (¬ (policy.awardList.map PolicyAward.id).Nodup) .duplicateAwardId
    ++ policy.awardList.flatMap (fun award => award.validate a.weights)
    ++ flag (¬ ((policy.steps.getD []).map Step.id).Nodup) .duplicateStepId
    ++ validateSteps [] (policy.steps.getD [])

/-- the weights that `bips-sum-to-scale?` adds up, those of the steps too, add up in 64 bits -/
def Policy.Summable (policy : Policy ι) : Prop :=
  (¬ policy.allocation.namespaced → policy.allocation.weights.Sums)
    ∧ (∀ award ∈ policy.awardList, ¬ award.funding.namespaced → award.funding.weights.Sums)
    ∧ ∀ step ∈ policy.steps.getD [], ¬ step.funding.namespaced → step.funding.weights.Sums

instance (policy : Policy ι) : Decidable policy.Summable :=
  inferInstanceAs (Decidable (_ ∧ _ ∧ _))

end

end PRF.Economics
