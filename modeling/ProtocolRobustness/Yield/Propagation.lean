import ProtocolRobustness.Yield.Lineage

/-!
# Propagations

A shared pro-rata decision becomes a propagation artifact, the artifact gets an application
contract, and the contract is applied to a world.

* `proRataPropagationArtifact`   the artifact of a decision;
* `attachPropagationApplicationContract`   the artifact bound to the commitments it was computed from;
* `validateProRataPropagation`   hashes, references and participants of an artifact;
* `settlePosition`               a position after its participant is filled: the active record is
                                 closed and archived, what is left becomes the next one;
* `applyProRataPropagation`      applied, already applied, or failed.

An artifact has the id, idempotency key, token and module that the source looks for.
-/

namespace PRF.Yield.Shared
open Table

variable {η : Type} [DecidableEq η]

section
variable (canonicalHash : Committed η → η)

/-! ## the artifact -/

def sharedWithdrawalPolicyId : String := "shared-withdrawal-propagation"

def sharedWithdrawalPolicy : PropagationPolicy := ⟨255, 2592000⟩

def resolvePolicy (policyId : String) : Except Refusal PropagationPolicy :=
  if policyId = sharedWithdrawalPolicyId then .ok sharedWithdrawalPolicy else .error .unknownPolicy

def policyReference (policy : PropagationPolicy) : PolicyReference η :=
  ⟨canonicalHash (.policy policy), policy⟩

/-- the first 16 digits of a hash, under a prefix -/
abbrev IdOf (η : Type) := η → String

def cappedKeysFromPasses (newlyCappedIds : List RowId) : List String := newlyCappedIds.map (·.key)

def participantOf (d : Decision η) (row : EvidenceRow) : Participant :=
  let initial :=
    if row.key ∈ cappedKeysFromPasses d.newlyCappedIds then row.effectiveCap else 0
  { participantId := row.key
    obligationBefore := row.owed
    eligibleObligation := row.owed
    effectiveCap := row.effectiveCap
    initialAllocation := initial
    redistributedIn := row.filled - initial
    finalAllocation := row.filled
    fulfilled := row.filled
    deferred := row.deferred
    unmet := 0
    waived := 0
    obligationAfter := row.deferred
    positionStatus := if 0 < row.deferred then .partiallyDeferred else .fulfilled
    obligationId := row.obligationId
    sourcePositionId := row.sourcePositionId
    calculationId := d.id
    nextPosition :=
      if 0 < row.deferred then some ⟨row.key, row.obligationId, row.deferred⟩ else none }

def sumField (participants : List Participant) (field : Participant → ℤ) : Except Refusal ℤ :=
  orThrow (sumLongs (participants.map field))

def accountingEntries (token : String) (allocated : ℤ) (participants : List Participant) :
    List AccountingEntry :=
  (if 0 < allocated then [.debit token (-allocated)] else []) ++
    (participants.filter fun x => 0 < x.fulfilled).map fun x =>
      .credit token x.participantId x.obligationId x.fulfilled

def proRataPropagationArtifact (idOf : IdOf η) (d : Decision η) (policy : PropagationPolicy)
    (policySelection : PolicySelection) : Except Refusal (Core η) := do
  let participants := d.allocationRows.map (participantOf d)
  let allocated ← sumField participants (·.fulfilled)
  let obligationBefore ← sumField participants (·.obligationBefore)
  let deferred ← sumField participants (·.deferred)
  let left ← orThrow (long? (d.availableLiquidity - allocated))
  let policyRef := policyReference canonicalHash policy
  let entries := accountingEntries d.token allocated participants
  let body : Body η :=
    { calculationRef := d.id
      outcomeRef := d.hash
      invocationContext := d.invocationContext
      allocationReference := ⟨d.allocationId, d.allocationHash, d.id, d.hash⟩
      token := d.token
      moduleId := d.moduleId
      propagationPolicy := policyRef
      policySelection
      participants
      summary :=
        { obligationBefore
          eligibleObligation := obligationBefore
          available := d.availableLiquidity
          allocated
          deferred
          obligationAfter := deferred
          unallocatedResidual := max 0 left }
      idempotencyKey := ⟨d.id, d.hash, policyRef.hash⟩
      accountingEntries := entries
      accountingEntrySetHash := canonicalHash (.entries entries) }
  let hash := canonicalHash (.propagation body)
  .ok { body with id := idOf hash, hash }

/-! ## the application contract -/

def contentHash (c : Contract η) : η := canonicalHash (.content c)

def attachPropagationApplicationContract (core : Core η) (preconditions : List (Precondition η))
    (eventTime : ℤ) (executionOrder : ApplicationOrder) : Propagation η :=
  let contract : Contract η :=
    { core with
      base := some core
      preconditions
      preconditionsHash := canonicalHash (.preconditions preconditions)
      eventTime
      executionOrder }
  { contract with contentHash := contentHash canonicalHash contract }

/-- equality of the fields that an extension may not change -/
def sameCore (a b : Core η) : Bool :=
  a.id = b.id && a.calculationRef = b.calculationRef && a.outcomeRef = b.outcomeRef &&
    a.propagationPolicy = b.propagationPolicy && a.idempotencyKey = b.idempotencyKey &&
    a.participants = b.participants && a.summary = b.summary &&
    a.accountingEntrySetHash = b.accountingEntrySetHash && a.moduleId = b.moduleId &&
    a.invocationContext = b.invocationContext && a.hash = b.hash

def validateBasePropagationBinding (p : Propagation η) : Except Refusal Unit :=
  match p.base with
  | none => .error .missingBasePropagation
  | some base =>
    if sameCore p.toCore base then .ok () else .error .applicationExtensionCoreMismatch

/-- a deferred participant has a next position, any other is fulfilled -/
def participantValid (x : Participant) : Bool :=
  if 0 < x.deferred then x.nextPosition.isSome
  else x.deferred ≠ 0 || x.positionStatus = .fulfilled

/-- `:valid?` -/
def validateProRataPropagation (c : Core η) : Bool :=
  c.hash = canonicalHash (.propagation c.toBody) &&
    c.calculationRef = c.allocationReference.sourceId &&
    c.outcomeRef = c.allocationReference.sourceHash &&
    0 ≤ c.propagationPolicy.snapshot.maxLineageRound &&
    c.propagationPolicy.hash = canonicalHash (.policy c.propagationPolicy.snapshot) &&
    c.participants.all participantValid

/-! ## preconditions -/

def currentApplicationOrder (w : World η) : Except Refusal ApplicationOrder :=
  match w.runId, w.executionId, w.scenarioId, w.step, w.eventSeq with
  | some runId, some executionId, some scenarioId, some step, some eventId => do
    let step ← nonNegativeInteger step .invalidApplicationStep
    let eventId ← nonNegativeInteger eventId .invalidApplicationEventId
    .ok ⟨runId, executionId, scenarioId, step, eventId⟩
  | _, _, _, _, _ => .error .incompleteApplicationOrder

def validatePropagationContentHash (p : Propagation η) : Except Refusal Unit :=
  if p.contentHash = contentHash canonicalHash p.toContract then .ok ()
  else .error .propagationContentHashMismatch

/-- the preconditions, of which no two name one participant -/
def preconditionsByParticipant (p : Propagation η) : Except Refusal (List (Precondition η)) :=
  if p.preconditionsHash ≠ canonicalHash (.preconditions p.preconditions) then
    .error .applicationPreconditionsHashMismatch
  else if ¬ (p.preconditions.map (·.participantId)).Nodup then
    .error .duplicateApplicationPreconditionParticipant
  else .ok p.preconditions

def preconditionOf (preconditions : List (Precondition η)) (participantId : String) :
    Except Refusal (Precondition η) :=
  match preconditions.find? (·.participantId = participantId) with
  | some precondition => .ok precondition
  | none => .error .missingApplicationPreconditions

/-- the checks of a participant against its precondition and the commitment of its position -/
def checkParticipant (x : Participant) (precondition : Precondition η) (current : Commitment η) :
    Except Refusal Unit :=
  if precondition.positionHash ≠ current.positionHash then .error .stalePropagationPositionState
  else if precondition.originalPriority ≠ current.originalPriority then
    .error .originalPriorityPreconditionMismatch
  else if x.obligationId ≠ precondition.obligationId ∨ x.obligationId ≠ current.rootObligationId then
    .error .withdrawalObligationLineageMismatch
  else if x.sourcePositionId ≠ precondition.sourcePositionId then
    .error .sourcePositionPreconditionMismatch
  else if x.eligibleObligation ≠ precondition.eligibleObligation then
    .error .eligibleObligationPreconditionMismatch
  else if precondition.classification = .eligibleDeferredRequest ∧
      some x.eligibleObligation ≠ current.deferredCurrentAmount then
    .error .deferredAmountPreconditionMismatch
  else do
    let total ← orThrow (sumLongs [x.fulfilled, x.deferred, x.unmet, x.waived])
    if x.eligibleObligation ≠ total then .error .participantObligationDoesNotReconcile else .ok ()

section
variable (double : ℚ → ℚ)

def validateParticipantPrecondition (w : World η) (moduleId token : String)
    (preconditions : List (Precondition η)) (x : Participant) : Except Refusal (Commitment η) :=
  match w.position x.participantId with
  | none => .error .missingPropagationParticipantPosition
  | some pos => do
    let precondition ← preconditionOf preconditions x.participantId
    let current ← positionStateCommitment canonicalHash double x.participantId pos
    if moduleId ≠ pos.account.moduleId then .error .propagationParticipantModuleMismatch
    else if token ≠ pos.account.token then .error .propagationParticipantTokenMismatch
    else do
      checkParticipant x precondition current
      .ok current

/-- the commitments of the participants, in their order -/
def validateApplicationPreconditions (w : World η) (p : Propagation η) (moduleId token : String) :
    Except Refusal (List (Commitment η)) := do
  validatePropagationContentHash canonicalHash p
  let preconditions ← preconditionsByParticipant canonicalHash p
  let participantIds := p.participants.map (·.participantId)
  if p.participants = [] then .error .missingPropagationParticipants
  else if ¬ participantIds.Nodup then .error .duplicatePropagationParticipant
  else if ¬ (∀ id ∈ participantIds, id ∈ preconditions.map (·.participantId)) ∨
      ¬ (∀ id ∈ preconditions.map (·.participantId), id ∈ participantIds) then
    .error .propagationPreconditionParticipantSetMismatch
  else
    p.participants.mapM
      (validateParticipantPrecondition canonicalHash double w moduleId token preconditions)

/-! ## one participant -/

def recordClosedDeferredPosition (history : List (String × Closed η)) (record : Closed η) :
    Except Refusal (List (String × Closed η)) :=
  match record.record.id with
  | none => .error .missingDeferredPositionId
  | some positionId =>
    match find history positionId with
    | none => .ok (put history positionId record)
    | some existing =>
      if existing = record then .ok history else .error .deferredPositionHistoryConflict

def transitionCommitment (p : Propagation η) (x : Participant) (precondition : Precondition η)
    (applicationOrder : ApplicationOrder) : η :=
  canonicalHash <| .transition
    { propagationContentHash := p.contentHash
      participantId := x.participantId
      obligationId := precondition.obligationId
      sourcePositionHash := precondition.positionHash
      applicationOrder
      eventTime := p.eventTime
      fulfilled := x.fulfilled
      deferred := x.deferred }

def successorIdOf (participantId : String) (round : ℤ) (propagationId : String) : String :=
  participantId ++ "/deferred/" ++ toString round ++ "/via/" ++ propagationId

def checkMaxLineageRound (attemptedRound : ℤ) (policy : PropagationPolicy) : Except Refusal Unit :=
  if policy.maxLineageRound < attemptedRound then .error .exceededMaxLineageRound else .ok ()

def deadlineTs (p : Propagation η) : Except Refusal (Option ℤ) :=
  let duration := p.propagationPolicy.snapshot.deferralDurationSeconds
  if 0 < duration then (orThrow (long? (p.eventTime + duration))).map some else .ok none

section
variable (p : Propagation η) (x : Participant) (precondition : Precondition η)
  (current : Commitment η) (applicationOrder : ApplicationOrder) (pos : Position η)

/-- the record of what is left -/
def successorOf (round : ℤ) (cumulativeFulfilled : ℤ) : Except Refusal (Deferred η) := do
  let prior := pos.deferredPosition
  let deadline ← deadlineTs p
  let origin ←
    match prior.bind (·.originalPosition) with
    | some origin => .ok origin
    | none => lineageOriginReference x.participantId pos
  let root ← lineageRoot canonicalHash x.participantId pos prior
  let predecessor ← predecessorHash canonicalHash double pos prior
  if 0 < x.deferred ∧ root = none then .error .deferredPositionNilFields
  else
    .ok
      { id := some (successorIdOf x.participantId round p.id)
        type := .deferredWithdrawal
        token := p.token
        participantId := x.participantId
        rootObligationId :=
          some ((prior.bind (·.rootObligationId)).getD precondition.obligationId)
        parentId := some ((prior.bind (·.id)).getD current.positionId)
        parentHash := current.deferredPositionHash.getD current.positionHash
        originPropagationId := p.id
        createdByTransitionHash :=
          transitionCommitment canonicalHash p x precondition applicationOrder
        createdOrder := applicationOrder
        createdEventTime := p.eventTime
        deadlineTs := deadline
        round := some round
        originalPriority :=
          some ((prior.bind (·.originalPriority)).getD precondition.originalPriority)
        originalPrioritySource :=
          if prior.isSome then .inheritedFromPriorLineage else .fromPrecondition
        originalObligation :=
          some ((prior.bind (·.originalObligation)).getD x.eligibleObligation)
        currentAmount := some x.deferred
        cumulativeFulfilled
        eligibility := .laterLiquidity
        status := .active
        deferredClass := if 0 < x.deferred then some .liquidityShortfall else none
        originalPosition := some origin
        lineageRoot := root
        predecessorHash := some predecessor }

/-- the active record, closed -/
def closedPrior (successorId : Option String) (d : Deferred η) : Closed η where
  record := { d with status := .closed, currentAmount := some 0 }
  closedFromAmount := d.currentAmount
  closedByPropagationId := p.id
  closedByTransitionHash := transitionCommitment canonicalHash p x precondition applicationOrder
  closedOrder := applicationOrder
  closedEventTime := p.eventTime
  successorId := if 0 < x.deferred then successorId else none
  preClosureHash := some (canonicalHash (.deferred d))
  preClosureSnapshot := d

/-- a loss marked to market is folded into the basis -/
def shortfallOf : Except Refusal (Option Shortfall) :=
  if 0 < x.deferred then do
    let fold := min 0 pos.account.unrealizedYield
    let basis ← orThrow (sumLongs [x.fulfilled, x.deferred, fold])
    let settlement ← orThrow
      (sumLongs [pos.account.principal, pos.account.realizedYield, pos.account.unrealizedYield])
    .ok (some ⟨basis, fold, settlement, x.fulfilled, x.deferred⟩)
  else .ok none

def archive (successorId : Option String) : Except Refusal (List (String × Closed η)) :=
  match pos.deferredPosition with
  | none => .ok pos.deferredPositionHistory
  | some d =>
    recordClosedDeferredPosition pos.deferredPositionHistory
      (closedPrior canonicalHash p x precondition applicationOrder successorId d)

def settlePosition : Except Refusal (Position η) := do
  let round := nextLineageRound pos
  checkMaxLineageRound round p.propagationPolicy.snapshot
  let cumulative ← orThrow (long? (pos.cumulativeFulfilled.getD 0 + x.fulfilled))
  let successor ← successorOf canonicalHash double p x precondition current applicationOrder pos round
    cumulative
  let shortfall ← shortfallOf x pos
  let history ← archive canonicalHash p x precondition applicationOrder pos successor.id
  .ok
    { pos with
      account := { pos.account with status := if 0 < x.deferred then .unwinding else .withdrawn }
      shortfall
      partialFillAffected := pos.partialFillAffected || decide (0 < x.deferred)
      cumulativeFulfilled := some cumulative
      deferredPositionHistory := history
      -- a deferred amount below nothing keeps the record that was closed
      deferredPosition :=
        if 0 < x.deferred then some successor
        else if x.deferred = 0 then none
        else pos.deferredPosition }

end

def settleParticipant (p : Propagation η) (preconditions : List (Precondition η))
    (commitments : List (Commitment η)) (applicationOrder : ApplicationOrder) (w : World η)
    (x : Participant) : Except Refusal (World η) := do
  let pos ← orThrow (w.position x.participantId)
  let precondition ← preconditionOf preconditions x.participantId
  let current ← orThrow (commitments.find? (·.ownerId = x.participantId))
  let updated ←
    settlePosition canonicalHash double p x precondition current applicationOrder pos
  let withdrawn ← orThrow (long? (w.withdrawnBy p.token x.participantId + x.fulfilled))
  .ok
    { w with
      withdrawn := put w.withdrawn (p.token, x.participantId) withdrawn
      positions := put w.positions x.participantId updated }

/-! ## the application -/

def Application.preimage (a : Application η) : Application η :=
  { a with
    hash := none
    output := none
    participants := a.participants.map fun x =>
      { x with positionBefore := none, positionAfter := none } }

def applicationHash (a : Application η) : η := canonicalHash (.application a.preimage)

def validApplicationRecord (a : Application η) : Bool :=
  a.hash = some (applicationHash canonicalHash a) &&
    a.propagationContentHash = a.referenceContentHash

def priorApplicationMatch (existing : Application η) (p : Propagation η) : Bool :=
  validApplicationRecord canonicalHash existing && existing.propagationId = p.id &&
    existing.calculationId = p.calculationRef && existing.outcomeHash = p.outcomeRef &&
    existing.policyHash = p.propagationPolicy.hash && existing.applicationKey = p.idempotencyKey &&
    existing.propagationContentHash = p.contentHash

def Delta.of (before delta : ℤ) : Except Refusal Delta := do
  let after ← orThrow (long? (before + delta))
  .ok ⟨before, delta, after⟩

def appliedParticipant (w next : World η) (token : String) (preconditions : List (Precondition η))
    (x : Participant) : Except Refusal (AppliedParticipant η) := do
  let precondition ← preconditionOf preconditions x.participantId
  let after ← orThrow (next.position x.participantId)
  let withdrawn ← Delta.of (w.withdrawnBy token x.participantId) x.fulfilled
  let cumulativeFulfilled ← Delta.of
    (((w.position x.participantId).bind (·.cumulativeFulfilled)).getD 0) x.fulfilled
  .ok
    { participantId := x.participantId
      obligationId := precondition.obligationId
      originalPriority := precondition.originalPriority
      sourcePositionId := precondition.sourcePositionId
      positionBefore := w.position x.participantId
      positionBeforeHash := precondition.positionHash
      positionAfter := some after
      positionAfterHash := positionHash canonicalHash double after
      withdrawn
      obligationBefore := x.eligibleObligation
      fulfilled := x.fulfilled
      deferred := x.deferred
      unmet := x.unmet
      waived := x.waived
      obligationAfter := x.obligationAfter
      cumulativeFulfilled }

/-- the record of an application: its hash leaves out the snapshots, the hash and the output -/
def applicationRecord (p : Propagation η) (applicationOrder : ApplicationOrder)
    (sourceAccount : Delta) (participants : List (AppliedParticipant η)) : Application η :=
  let base : Application η :=
    { propagationId := p.id
      referenceHash := p.hash
      referenceContentHash := p.contentHash
      propagationContentHash := p.contentHash
      calculationId := p.calculationRef
      outcomeHash := p.outcomeRef
      policyHash := p.propagationPolicy.hash
      applicationKey := p.idempotencyKey
      invocationContext := p.invocationContext
      applicationOrder
      eventTime := p.eventTime
      accountingEntrySetHash := p.accountingEntrySetHash
      token := p.token
      sourceAccount
      participants
      available := p.summary.available
      allocated := p.summary.allocated
      residual := p.summary.unallocatedResidual
      hash := none
      output := none }
  let withHash := { base with hash := some (applicationHash canonicalHash base) }
  { withHash with output := some (canonicalHash (.output withHash p)) }

/-- the application of a propagation that is not recorded -/
def applyFresh (w : World η) (p : Propagation η) : Except Refusal (World η) := do
  let applicationOrder ← currentApplicationOrder w
  if p.executionOrder ≠ applicationOrder then .error .applicationOrderPreconditionMismatch
  else if p.eventTime ≠ w.now then .error .eventTimePreconditionMismatch
  else do
    let commitments ← validateApplicationPreconditions canonicalHash double w p p.moduleId p.token
    let sourceBefore := w.sourceLiquidityBalance p.token
    if sourceBefore < 0 then .error .invalidSharedLiquidityBalance
    else if sourceBefore < p.summary.allocated then .error .insufficientSharedLiquidity
    else do
      let preconditions ← preconditionsByParticipant canonicalHash p
      let next ← p.participants.foldlM
        (settleParticipant canonicalHash double p preconditions commitments applicationOrder) w
      let sourceAccount ← Delta.of sourceBefore (-p.summary.allocated)
      let participants ← p.participants.mapM
        (appliedParticipant canonicalHash double w next p.token preconditions)
      .ok
        { next with
          totalHeld := put next.totalHeld p.token sourceAccount.after
          heldAdjustmentsComplete := false
          applied := put next.applied p.id
            (applicationRecord canonicalHash p applicationOrder sourceAccount participants) }

inductive ApplicationStatus
  | applied
  | alreadyApplied
  | failed
deriving DecidableEq

structure Outcome (η : Type) where
  status : ApplicationStatus
  world : World η
  propagationId : String

def applyProRataPropagation (w : World η) (p : Propagation η) : Except Refusal (Outcome η) := do
  validateBasePropagationBinding p
  if !validateProRataPropagation canonicalHash (p.base.getD p.toCore) then
    .error .invalidProRataPropagation
  else
    match find w.applied p.id with
    | some existing =>
      if priorApplicationMatch canonicalHash existing p then .ok ⟨.alreadyApplied, w, p.id⟩
      else .ok ⟨.failed, w, p.id⟩
    | none => do
      let next ← applyFresh canonicalHash double w p
      .ok ⟨.applied, next, p.id⟩

end

end

end PRF.Yield.Shared
