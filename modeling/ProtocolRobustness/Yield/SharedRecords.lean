import ProtocolRobustness.Yield.Accrual
import ProtocolRobustness.Yield.PartialFill

/-!
# The records of shared withdrawals

The data of `yield/modules/liquid_lending.clj` and of the propagation artifacts of
`partial_fill.clj`.  A position that a shared withdrawal fills in part carries a deferred record of
what is left, and the closed records that came before it.

* `Position`, `Deferred`, `Closed`     a position, its active record, an archived one;
* `Position.safe`                      the position as it is hashed, its exact ratios rounded;
* `Decision`, `Core`, `Propagation`    a decision, the artifact built from it, the artifact with its
                                       application contract;
* `Application`                        what an applied propagation leaves;
* `Committed`                          what the canonical hash is called on;
* `Setting`, `World`                   what shared withdrawals read, and their ledgers.

Ids, modules and tokens are given by their texts.  Fields that the source tests for `nil` are
options.  `double` is the nearest double of a ratio.
-/

namespace PRF.Yield.Shared
open Table
open Accrual (PositionStatus)

/-- the `:reason` of an `ex-info`, or an exception of the host -/
inductive Refusal
  | host
  | originalPriorityLineageMismatch
  | missingOrInvalidOriginalPriority
  | missingDeferredPositionId
  | deferredPositionHistoryConflict
  | incompleteApplicationOrder
  | invalidApplicationStep
  | invalidApplicationEventId
  | multiOriginLineageMerge
  | missingDeferredLineageAnchor
  | deferredLineageOriginMismatch
  | deferredLineageOriginRootMismatch
  | missingDeferredPredecessorArchive
  | missingDeferredPreClosureCommitment
  | deferredLineageRootContinuityMismatch
  | deferredPredecessorHashMismatch
  | deferredLineageSuccessorMismatch
  | missingBasePropagation
  | applicationExtensionCoreMismatch
  | propagationContentHashMismatch
  | missingApplicationPreconditions
  | applicationPreconditionsHashMismatch
  | duplicateApplicationPreconditionParticipant
  | missingPropagationParticipantPosition
  | propagationParticipantModuleMismatch
  | propagationParticipantTokenMismatch
  | stalePropagationPositionState
  | originalPriorityPreconditionMismatch
  | withdrawalObligationLineageMismatch
  | sourcePositionPreconditionMismatch
  | eligibleObligationPreconditionMismatch
  | deferredAmountPreconditionMismatch
  | participantObligationDoesNotReconcile
  | missingPropagationParticipants
  | duplicatePropagationParticipant
  | propagationPreconditionParticipantSetMismatch
  | invalidProRataPropagation
  | applicationOrderPreconditionMismatch
  | eventTimePreconditionMismatch
  | invalidSharedLiquidityBalance
  | insufficientSharedLiquidity
  | exceededMaxLineageRound
  | deferredPositionNilFields
  | unknownPolicy
  | missingSharedWithdrawalOwners
  | duplicateSharedWithdrawalOwner
  | unsupportedSharedWithdrawalAllocationMode
  | invalidEffectiveCapEntry
  | missingSharedWithdrawalPosition
  | activeBaseWithStaleDeferredPosition
  | unwindingWithoutEligibleDeferredPosition
  | positionNotActiveOrUnwinding
  | invalidSharedWithdrawalPosition
  | sharedWithdrawalPositionInvalidAfterAccrual
  | allocationOvershoot
  | propagationAllocationBindingFailed
deriving DecidableEq

def orThrow {α : Type} (x : Option α) : Except Refusal α :=
  match x with
  | some a => .ok a
  | none => .error .host

/-! ## records -/

structure ApplicationOrder where
  runId : String
  executionId : String
  scenarioId : String
  step : ℤ
  eventId : ℤ
deriving DecidableEq

/-- a `yield-lineage-origin.v1` -/
structure Origin where
  positionId : String
  ownerId : String
  moduleId : String
  token : String
  rootObligationId : String
  originalPriority : ℤ
deriving DecidableEq

inductive DeferredType
  | deferredWithdrawal
  | other (name : String)
deriving DecidableEq

inductive DeferredStatus
  | active
  | closed
  | other (name : String)
deriving DecidableEq

inductive Eligibility
  | laterLiquidity
  | other (name : String)
deriving DecidableEq

inductive PrioritySource
  | inheritedFromPriorLineage
  | fromPrecondition
deriving DecidableEq

inductive DeferredClass
  | liquidityShortfall
deriving DecidableEq

section
variable (η : Type)

/-- a `:deferred-position` -/
structure Deferred where
  id : Option String
  type : DeferredType
  token : String
  participantId : String
  rootObligationId : Option String
  parentId : Option String
  parentHash : η
  originPropagationId : String
  createdByTransitionHash : η
  createdOrder : ApplicationOrder
  createdEventTime : ℤ
  deadlineTs : Option ℤ
  round : Option ℤ
  originalPriority : Option ℤ
  originalPrioritySource : PrioritySource
  originalObligation : Option ℤ
  currentAmount : Option ℤ
  cumulativeFulfilled : ℤ
  eligibility : Eligibility
  status : DeferredStatus
  deferredClass : Option DeferredClass
  originalPosition : Option Origin
  lineageRoot : Option η
  predecessorHash : Option η
deriving DecidableEq

/-- a `deferred-position-closure.v1`: the record as it was closed, and how -/
structure Closed where
  record : Deferred η
  closedFromAmount : Option ℤ
  closedByPropagationId : String
  closedByTransitionHash : η
  closedOrder : ApplicationOrder
  closedEventTime : ℤ
  successorId : Option String
  preClosureHash : Option η
  preClosureSnapshot : Deferred η
deriving DecidableEq

structure Shortfall where
  basisAmount : ℤ
  basisNegativeUnrealized : ℤ
  settlementValue : ℤ
  fulfilledAmount : ℤ
  deferredAmount : ℤ
deriving DecidableEq

/-- `account` has the fields that accrual reads and writes -/
structure Position where
  account : Accrual.Position
  positionId : Option String
  entryIndex : ℚ
  principalImpairment : ℤ
  partialFillAffected : Bool
  originalPriority : Option ℤ
  cumulativeFulfilled : Option ℤ
  shortfall : Option Shortfall
  deferredPosition : Option (Deferred η)
  deferredPositionHistory : List (String × Closed η)
deriving DecidableEq

end

/-! ## rounding before hashing -/

section
variable (double : ℚ → ℚ)

/-- `Math/round`: the nearest integer, a half upwards, cut at 64 bits -/
def mathRound (x : ℚ) : ℤ := max (-2 ^ 63) (min (2 ^ 63 - 1) ⌊x + 1 / 2⌋)

/-- an exact ratio is rounded; an integer is none -/
def safeRatio (x : ℚ) : ℚ := if x.den = 1 then x else mathRound (double x)

/-- the walk of `canonical-hash-safe` over what accrual keeps -/
def safeAccount (a : Accrual.Position) : Accrual.Position :=
  { a with
    shares := safeRatio double a.shares
    currentIndex := a.currentIndex.map (safeRatio double)
    accrualDustRemainder := safeRatio double a.accrualDustRemainder
    lastAccrualIndex := a.lastAccrualIndex.map (safeRatio double)
    yieldLoss := a.yieldLoss.map fun l => { l with asOfIndex := safeRatio double l.asOfIndex } }

/-- the walk over a position; what a lineage records is free of ratios -/
def Position.safe {η : Type} (p : Position η) : Position η :=
  { p with
    account := safeAccount double p.account
    entryIndex := safeRatio double p.entryIndex }

end

/-! ## preconditions -/

inductive Classification
  | ordinaryBaseRequest
  | positionStateContradiction
  | eligibleDeferredRequest
  | invalidIncompleteDeferredState
  | ineligiblePosition
deriving DecidableEq

section
variable (η : Type)

structure Commitment where
  ownerId : String
  positionHash : η
  positionId : String
  moduleId : String
  token : String
  status : PositionStatus
  originalPriority : ℤ
  deferredPositionId : Option String
  deferredPositionHash : Option η
  deferredCurrentAmount : Option ℤ
  rootObligationId : String
deriving DecidableEq

/-- a commitment with the module and token of the operation and what is requested -/
structure Precondition extends Commitment η where
  participantId : String
  classification : Classification
  obligationId : String
  sourcePositionId : String
  eligibleObligation : ℤ
deriving DecidableEq

/-! ## decisions -/

structure InvocationContext where
  runId : String
  executionId : String
  scenarioId : String
  step : ℤ
  eventId : ℤ
  eventTime : ℤ
deriving DecidableEq

/-- `[:shared-withdrawal-row obligation-id source-position-id key]` -/
structure RowId where
  obligationId : String
  sourcePositionId : String
  key : String
deriving DecidableEq

inductive SettlementMode
  | fullFill
  | partialFill
deriving DecidableEq

structure EvidenceRow where
  key : String
  obligationId : String
  sourcePositionId : String
  owed : ℤ
  weight : ℤ
  cap : ℤ
  effectiveCap : ℤ
  filled : ℤ
  deferred : ℤ
deriving DecidableEq

structure DecisionBody where
  token : String
  moduleId : String
  settlementMode : SettlementMode
  availableLiquidity : ℤ
  totalRequested : ℤ
  shortage : ℤ
  allocationId : List RowId
  allocationHash : η
  allocationRows : List EvidenceRow
  newlyCappedIds : List RowId
  unallocatedResidual : ℤ
  participants : List String
  effectiveCaps : List (String × ℤ)
  effectiveCapSource : Option String
  invocationContext : InvocationContext
  sourceCustody : ℤ
deriving DecidableEq

structure Decision extends DecisionBody η where
  id : String
  hash : η
deriving DecidableEq

/-! ## propagations -/

/-- the two fields of a propagation policy that its validation leaves open -/
structure PropagationPolicy where
  maxLineageRound : ℤ
  deferralDurationSeconds : ℤ
deriving DecidableEq

structure PolicyReference where
  hash : η
  snapshot : PropagationPolicy
deriving DecidableEq

structure PolicySelection where
  requestedPolicyId : Option String
  resolvedPolicyId : String
deriving DecidableEq

inductive ParticipantStatus
  | partiallyDeferred
  | fulfilled
deriving DecidableEq

structure NextPosition where
  id : String
  rootObligationId : String
  amount : ℤ
deriving DecidableEq

structure Participant where
  participantId : String
  obligationBefore : ℤ
  eligibleObligation : ℤ
  effectiveCap : ℤ
  initialAllocation : ℤ
  redistributedIn : ℤ
  finalAllocation : ℤ
  fulfilled : ℤ
  deferred : ℤ
  unmet : ℤ
  waived : ℤ
  obligationAfter : ℤ
  positionStatus : ParticipantStatus
  obligationId : String
  sourcePositionId : String
  calculationId : String
  nextPosition : Option NextPosition
deriving DecidableEq

structure Summary where
  obligationBefore : ℤ
  eligibleObligation : ℤ
  available : ℤ
  allocated : ℤ
  deferred : ℤ
  obligationAfter : ℤ
  unallocatedResidual : ℤ
deriving DecidableEq

/-- `[:pro-rata-propagation calculation-id outcome-hash policy-hash]` -/
structure IdempotencyKey where
  calculationId : String
  outcomeHash : η
  policyHash : η
deriving DecidableEq

structure AllocationReference where
  allocationId : List RowId
  allocationHash : η
  sourceId : String
  sourceHash : η
deriving DecidableEq

inductive AccountingEntry
  | debit (token : String) (delta : ℤ)
  | credit (token participantId obligationId : String) (delta : ℤ)
deriving DecidableEq

structure Body where
  calculationRef : String
  outcomeRef : η
  invocationContext : InvocationContext
  allocationReference : AllocationReference η
  token : String
  moduleId : String
  propagationPolicy : PolicyReference η
  policySelection : PolicySelection
  participants : List Participant
  summary : Summary
  idempotencyKey : IdempotencyKey η
  accountingEntries : List AccountingEntry
  accountingEntrySetHash : η
deriving DecidableEq

/-- a propagation artifact -/
structure Core extends Body η where
  id : String
  hash : η
deriving DecidableEq

/-- an artifact with its application contract, before the contract is hashed -/
structure Contract extends Core η where
  base : Option (Core η)
  preconditions : List (Precondition η)
  preconditionsHash : η
  eventTime : ℤ
  executionOrder : ApplicationOrder
deriving DecidableEq

structure Propagation extends Contract η where
  contentHash : η
deriving DecidableEq

/-! ## applications -/

/-- before, change, after -/
structure Delta where
  before : ℤ
  delta : ℤ
  after : ℤ
deriving DecidableEq

structure AppliedParticipant where
  participantId : String
  obligationId : String
  originalPriority : ℤ
  sourcePositionId : String
  positionBefore : Option (Position η)
  positionBeforeHash : η
  positionAfter : Option (Position η)
  positionAfterHash : η
  withdrawn : Delta
  obligationBefore : ℤ
  fulfilled : ℤ
  deferred : ℤ
  unmet : ℤ
  waived : ℤ
  obligationAfter : ℤ
  cumulativeFulfilled : Delta
deriving DecidableEq

structure Application where
  propagationId : String
  referenceHash : η
  referenceContentHash : η
  propagationContentHash : η
  calculationId : String
  outcomeHash : η
  policyHash : η
  applicationKey : IdempotencyKey η
  invocationContext : InvocationContext
  applicationOrder : ApplicationOrder
  eventTime : ℤ
  accountingEntrySetHash : η
  token : String
  sourceAccount : Delta
  participants : List (AppliedParticipant η)
  available : ℤ
  allocated : ℤ
  residual : ℤ
  hash : Option η
  output : Option η
deriving DecidableEq

/-- a `deferred-lineage-transition.v1` -/
structure Transition where
  propagationContentHash : η
  participantId : String
  obligationId : String
  sourcePositionHash : η
  applicationOrder : ApplicationOrder
  eventTime : ℤ
  fulfilled : ℤ
  deferred : ℤ
deriving DecidableEq

/-- what the canonical hash is called on -/
inductive Committed
  | position (p : Position η)
  | deferred (d : Deferred η)
  | origin (o : Origin)
  | decision (d : DecisionBody η)
  | policy (p : PropagationPolicy)
  | entries (es : List AccountingEntry)
  | propagation (b : Body η)
  | preconditions (ps : List (Precondition η))
  | content (c : Contract η)
  | transition (t : Transition η)
  | application (a : Application η)
  | output (a : Application η) (p : Propagation η)

/-! ## the world -/

end

/-- what a shared withdrawal reads of the world beside its ledgers.  `recoverable module token time
held` is `held` times the available ratio of the market at that time, cut to a whole number -/
structure Setting where
  runId : Option String
  executionId : Option String
  scenarioId : Option String
  step : Option ℤ
  eventSeq : Option ℤ
  now : ℤ
  moduleAliases : List (String × String)
  moduleStatus : List (String × String)
  scheduledState : String → String → ℤ → String
  baseApyBps : String → String → ℤ
  accrualConfig : List (String × Accrual.AccrualConfig)
  risk : List ((String × String) × Accrual.Risk)
  oracleStaleSince : List ((String × String) × ℤ)
  recoverable : String → String → ℤ → ℤ → ℤ

/-- accounts of what was withdrawn are kept by token and participant -/
structure World (η : Type) extends Setting where
  positions : List (String × Position η)
  indices : List ((String × String) × ℚ)
  totalHeld : List (String × ℤ)
  heldBalances : List (String × ℤ)
  totalYieldGenerated : List (String × ℤ)
  withdrawn : List ((String × String) × ℤ)
  heldAdjustmentsComplete : Bool
  applied : List (String × Application η)
  decisions : List (String × Decision η)
  propagations : List (String × Propagation η)

namespace World
variable {η : Type} (w : World η)

def position (ownerId : String) : Option (Position η) := find w.positions ownerId

/-- `:total-held`, or else the held balances -/
def sourceLiquidityBalance (token : String) : ℤ :=
  ((find w.totalHeld token).or (find w.heldBalances token)).getD 0

def withdrawnBy (token participantId : String) : ℤ :=
  (find w.withdrawn (token, participantId)).getD 0

end World

end PRF.Yield.Shared
