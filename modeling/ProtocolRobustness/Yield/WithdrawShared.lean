import Mathlib.Data.List.Sort
import ProtocolRobustness.Yield.Propagation

/-!
# Shared withdrawals

`withdraw-shared`: the positions of some owners are settled against one pool of liquidity by one
pro-rata decision.

* `Host`                          what the code gets from elsewhere: the hash, doubles, the allocator;
* `crystallize`                   the accrual of the active positions;
* `calculateFulfillmentProRata`   the allocation of the rows and the evidence of each row;
* `withdrawShared`                the checks, the decision, the propagation and its application.
-/

namespace PRF.Yield.Shared
open Table

/-! ## the host -/

structure MechanismRow where
  rowId : RowId
  obligationId : String
  requested : ℤ
  weight : ℤ
  cap : ℤ
deriving DecidableEq

/-- a request with largest remainders, redistribution of cap excess and ties broken by row id -/
structure MechanismRequest where
  allocationId : List RowId
  available : ℤ
  rows : List MechanismRow
deriving DecidableEq

structure AllocatedRow where
  rowId : RowId
  allocated : ℤ
  unmet : ℤ
deriving DecidableEq

structure MechanismResult (η : Type) where
  hash : η
  rows : List AllocatedRow
  allocatedTotal : ℤ
  newlyCappedIds : List RowId

/-- `hashLE` orders hashes as texts; `decisionIdOf` and `propagationIdOf` keep the first 16 digits of
a hash, each under its prefix; `exceeds` and `rising` are the comparisons of accrual -/
structure Host (η : Type) where
  canonicalHash : Committed η → η
  hashLE : η → η → Bool
  decisionIdOf : IdOf η
  propagationIdOf : IdOf η
  double : ℚ → ℚ
  exceeds : ℚ → ℚ → ℚ → Bool
  rising : ℚ → ℚ → Bool
  allocate : MechanismRequest → Except Refusal (MechanismResult η)
  evidenceValid : MechanismResult η → Bool

variable {η : Type} [DecidableEq η]

/-! ## the operation -/

structure Op where
  ownerIds : List String
  token : String
  allocationMode : Option String
  effectiveCaps : List (String × ℤ)
  effectiveCapSource : Option String
  propagationPolicyId : Option String

def checkOp (w : World η) (op : Op) : Except Refusal Unit :=
  if op.ownerIds = [] then .error .missingSharedWithdrawalOwners
  else if ¬ op.ownerIds.Nodup then .error .duplicateSharedWithdrawalOwner
  else if op.allocationMode.getD "pro-rata" ≠ "pro-rata" then
    .error .unsupportedSharedWithdrawalAllocationMode
  else if ¬ ∀ e ∈ op.effectiveCaps, e.1 ∈ op.ownerIds ∧ 0 ≤ e.2 then
    .error .invalidEffectiveCapEntry
  else if ¬ ∀ ownerId ∈ op.ownerIds, (w.position ownerId).isSome then
    .error .missingSharedWithdrawalPosition
  else .ok ()

section
variable (host : Host η)

/-! ## the order of the owners -/

structure QueueKey (η : Type) where
  originalPriority : ℤ
  secondaryPositionId : η
  ownerId : String

def QueueKey.le (a b : QueueKey η) : Prop :=
  a.originalPriority < b.originalPriority ∨
    a.originalPriority = b.originalPriority ∧ host.hashLE a.secondaryPositionId b.secondaryPositionId

instance : DecidableRel (QueueKey.le host) := fun _ _ =>
  inferInstanceAs (Decidable (_ < _ ∨ _ = _ ∧ _ = true))

def queueKey (w : World η) (ownerId : String) : Except Refusal (QueueKey η) := do
  let p ← orThrow (w.position ownerId)
  let originalPriority ← authoritativeOriginalPriority p
  let secondaryPositionId ← secondaryPositionId host.canonicalHash p
  .ok ⟨originalPriority, secondaryPositionId, ownerId⟩

/-- by priority, then by secondary id; one owner is not compared -/
def sortOwners (w : World η) (owners : List String) : Except Refusal (List String) :=
  if owners.length ≤ 1 then .ok owners
  else do
    let keys ← owners.mapM (queueKey host w)
    .ok ((keys.insertionSort (QueueKey.le host)).map (·.ownerId))

/-- `none` when the position may take part -/
def invalidReason (w : World η) (moduleId token ownerId : String) : Option Refusal :=
  match w.position ownerId with
  | none => some .positionNotActiveOrUnwinding
  | some p =>
    let classification := classifySharedWithdrawalPosition p
    if p.account.moduleId = moduleId ∧ p.account.token = token ∧ classification.valid then none
    else some classification.reason

def checkPositions (w : World η) (moduleId token : String) (owners : List String) :
    Except Refusal Unit :=
  match owners.filterMap (invalidReason w moduleId token) with
  | [] => .ok ()
  | reason :: _ => .error reason

/-! ## accrual -/

def World.accrual (w : World η) : Accrual.World where
  blockTime := w.now
  positions := w.positions.map fun e => (e.1, e.2.account)
  indices := w.indices
  moduleAliases := w.moduleAliases
  moduleStatus := w.moduleStatus
  scheduledState := w.scheduledState
  baseApyBps := w.baseApyBps
  accrualConfig := w.accrualConfig
  risk := w.risk
  oracleStaleSince := w.oracleStaleSince
  totalHeld := w.totalHeld
  heldBalances := w.heldBalances
  totalYieldGenerated := w.totalYieldGenerated

/-- the decision of an owner whose position is active -/
def accrualDecisionOf (w : World η) (moduleId token ownerId : String) :
    Except Refusal (Option Accrual.Decision) :=
  match w.position ownerId with
  | none => .ok none
  | some p =>
    if p.account.status = .active then
      (orThrow (Accrual.accrualDecision host.exceeds host.rising w.accrual
        ⟨moduleId, token, some ownerId, some w.now, 0, none⟩)).map some
    else .ok none

/-- a decision of the world before, applied to the positions it finds -/
def applyAccrualDecision (before w : World η) (e : String × Option Accrual.Decision) :
    Except Refusal (World η) :=
  match e.2 with
  | none => .ok w
  | some d => do
    let after ← orThrow (Accrual.applyAccrualDecision w.accrual d)
    let w' :=
      { w with indices := after.indices, totalYieldGenerated := after.totalYieldGenerated }
    match d.position, before.position e.1 with
    | some account, some p => do
      let updated ← orThrow (find after.positions account.ownerId)
      .ok
        { w' with
          positions := put w'.positions account.ownerId
            { p with
              account := updated
              originalPriority := some (p.originalPriority.getD maxLong) } }
    | _, _ => .ok w'

def crystallize (w : World η) (moduleId token : String) (owners : List String) :
    Except Refusal (World η) := do
  let decisions ← owners.mapM (accrualDecisionOf host w moduleId token)
  let coordinated ← orThrow
    (Accrual.coordinateRecoverableLiquidityCap w.accrual moduleId token decisions)
  (owners.zip coordinated).foldlM (applyAccrualDecision w) w

/-! ## the rows -/

def requestOf (w : World η) (ownerId : String) : Except Refusal (String × ℤ) := do
  let p ← orThrow (w.position ownerId)
  match classifySharedWithdrawalPosition p with
  | .eligibleDeferredRequest => do
    let amount ← orThrow (p.deferredPosition.bind (·.currentAmount))
    .ok (ownerId, amount)
  | .ordinaryBaseRequest => do
    let amount ← positionRequestAmount p
    .ok (ownerId, amount)
  | _ => .error .sharedWithdrawalPositionInvalidAfterAccrual

structure Row where
  key : String
  obligationId : String
  sourcePositionId : String
  owed : ℤ
  cap : ℤ
  originalPriority : ℤ
deriving DecidableEq

def Row.id (row : Row) : RowId := ⟨row.obligationId, row.sourcePositionId, row.key⟩

def rowOf (w : World η) (requestedByOwner effectiveCaps : List (String × ℤ)) (ownerId : String) :
    Except Refusal Row := do
  let p ← orThrow (w.position ownerId)
  let owed := (find requestedByOwner ownerId).getD 0
  let originalPriority ← authoritativeOriginalPriority p
  .ok
    { key := ownerId
      obligationId := (p.deferredPosition.bind (·.rootObligationId)).getD (basePositionId ownerId p)
      sourcePositionId := (p.deferredPosition.bind (·.id)).getD (basePositionId ownerId p)
      owed
      cap := (find effectiveCaps ownerId).getD owed
      originalPriority }

/-! ## the settlement -/

def mechanismRequest (available : ℤ) (rows : List Row) : MechanismRequest where
  allocationId := rows.map Row.id
  available
  rows := rows.map fun row =>
    ⟨row.id, row.obligationId, row.owed, row.owed, min row.owed row.cap⟩

/-- what the result allocates to a row -/
def filledOfRow (result : MechanismResult η) (row : Row) : Except Refusal ℤ :=
  orThrow ((result.rows.find? (·.rowId = row.id)).map (·.allocated))

/-- a row is never filled above what it is owed -/
def rowEvidence (result : MechanismResult η) (row : Row) : Except Refusal EvidenceRow := do
  let filled ← filledOfRow result row
  if row.owed < filled then .error .allocationOvershoot
  else do
    let deferred ← orThrow (long? (row.owed - filled))
    .ok
      { key := row.key
        obligationId := row.obligationId
        sourcePositionId := row.sourcePositionId
        owed := row.owed
        weight := row.owed
        cap := row.cap
        effectiveCap := min row.owed row.cap
        filled
        deferred := max 0 deferred }

structure Settlement (η : Type) where
  settlementMode : SettlementMode
  totalRequested : ℤ
  shortage : ℤ
  mechanism : MechanismResult η
  allocationRows : List EvidenceRow
  unallocatedResidual : ℤ

def calculateFulfillmentProRata (available : ℤ) (rows : List Row) :
    Except Refusal (Settlement η) := do
  let totalRequested ← orThrow (sumLongs (rows.map Row.owed))
  let short ← orThrow (long? (totalRequested - available))
  let mechanism ← host.allocate (mechanismRequest available rows)
  let allocationRows ← rows.mapM (rowEvidence mechanism)
  let unallocated ← orThrow (long? (available - mechanism.allocatedTotal))
  .ok
    { settlementMode := if allocationRows.any (0 < ·.deferred) then .partialFill else .fullFill
      totalRequested
      shortage := max 0 short
      mechanism
      allocationRows
      unallocatedResidual := max 0 unallocated }

/-! ## the decision -/

def invocationContext (applicationOrder : ApplicationOrder) (now : ℤ) : InvocationContext :=
  ⟨applicationOrder.runId, applicationOrder.executionId, applicationOrder.scenarioId,
    applicationOrder.step, applicationOrder.eventId, now⟩

def decisionArtifact (body : DecisionBody η) : Decision η :=
  let hash := host.canonicalHash (.decision body)
  { body with id := host.decisionIdOf hash, hash }

def decisionOf (w : World η) (moduleId : String) (op : Op) (owners : List String) (rows : List Row)
    (available sourceCustody : ℤ) (applicationOrder : ApplicationOrder)
    (settlement : Settlement η) : Decision η :=
  decisionArtifact host
    { token := op.token
      moduleId
      settlementMode := settlement.settlementMode
      availableLiquidity := available
      totalRequested := settlement.totalRequested
      shortage := settlement.shortage
      allocationId := rows.map Row.id
      allocationHash := settlement.mechanism.hash
      allocationRows := settlement.allocationRows
      newlyCappedIds := settlement.mechanism.newlyCappedIds
      unallocatedResidual := settlement.unallocatedResidual
      participants := owners
      effectiveCaps := rows.map fun row => (row.key, row.cap)
      effectiveCapSource := op.effectiveCapSource
      invocationContext := invocationContext applicationOrder w.now
      sourceCustody }

def rowKey (row : EvidenceRow) : String × String × String :=
  (row.obligationId, row.key, row.sourcePositionId)

def participantKey (x : Participant) : String × String × String :=
  (x.obligationId, x.participantId, x.sourcePositionId)

/-- the artifact is the translation of the decision: no `propagation-allocation-binding-violations` -/
def allocationBound (d : Decision η) (mechanism : MechanismResult η) (c : Core η) : Bool :=
  d.hash = host.canonicalHash (.decision d.toDecisionBody) && host.evidenceValid mechanism &&
    c.allocationReference = ⟨d.allocationId, d.allocationHash, d.id, d.hash⟩ &&
    c.invocationContext = d.invocationContext &&
    (d.allocationRows.map rowKey).Nodup && (c.participants.map participantKey).Nodup &&
    d.allocationRows.all (fun row => rowKey row ∈ c.participants.map participantKey) &&
    c.participants.all (fun x => participantKey x ∈ d.allocationRows.map rowKey) &&
    d.allocationRows.all (fun row => c.participants.all fun x =>
      rowKey row ≠ participantKey x || row.filled = x.fulfilled && row.deferred = x.deferred) &&
    (d.allocationRows.map (·.filled)).sum = (c.participants.map (·.fulfilled)).sum &&
    (d.allocationRows.map (·.deferred)).sum = (c.participants.map (·.deferred)).sum

/-! ## the withdrawal -/

/-- `accrued` is the world that the propagation is computed from, `world` the world returned -/
structure Withdrawal (η : Type) where
  accrued : World η
  propagation : Propagation η
  outcome : Outcome η
  world : World η

/-- the decision of a world after accrual, and the propagation built from it -/
def buildPropagation (accrued : World η) (moduleId : String) (op : Op) (owners : List String) :
    Except Refusal (Decision η × Propagation η) := do
  let policyId := op.propagationPolicyId.getD sharedWithdrawalPolicyId
  let policy ← resolvePolicy policyId
  let requestedByOwner ← owners.mapM (requestOf accrued)
  let rows ← owners.mapM (rowOf accrued requestedByOwner op.effectiveCaps)
  let baseHeld := accrued.sourceLiquidityBalance op.token
  let available := max 0 (accrued.recoverable moduleId op.token accrued.now baseHeld)
  let settlement ← calculateFulfillmentProRata host available rows
  let applicationOrder ← currentApplicationOrder accrued
  let decision := decisionOf host accrued moduleId op owners rows available baseHeld applicationOrder
    settlement
  let preconditions ← buildApplicationPreconditions host.canonicalHash host.double accrued moduleId
    op.token owners requestedByOwner
  let core ← proRataPropagationArtifact host.canonicalHash host.propagationIdOf decision policy
    ⟨op.propagationPolicyId, policyId⟩
  if !allocationBound host decision settlement.mechanism core then
    .error .propagationAllocationBindingFailed
  else
    .ok (decision, attachPropagationApplicationContract host.canonicalHash core preconditions
      accrued.now applicationOrder)

/-- the status of the application is not looked at -/
def withdrawShared (w : World η) (moduleId : String) (op : Op) : Except Refusal (Withdrawal η) := do
  let _ ← resolvePolicy (op.propagationPolicyId.getD sharedWithdrawalPolicyId)
  checkOp w op
  let owners ← sortOwners host w op.ownerIds
  checkPositions w moduleId op.token owners
  let accrued ← crystallize host w moduleId op.token owners
  let (decision, propagation) ← buildPropagation host accrued moduleId op owners
  let outcome ← applyProRataPropagation host.canonicalHash host.double accrued propagation
  .ok
    { accrued
      propagation
      outcome
      world :=
        { outcome.world with
          decisions := put outcome.world.decisions decision.id decision
          propagations := put outcome.world.propagations propagation.id propagation } }

end

end PRF.Yield.Shared
