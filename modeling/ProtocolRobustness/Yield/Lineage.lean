import ProtocolRobustness.Library.Fallible
import ProtocolRobustness.Yield.SharedRecords

/-!
# Deferred lineages

The lineage contracts of `yield/modules/liquid_lending.clj`: what a position may request, in which
round its lineage is, where the lineage began, and the commitment of a position.

* `classifySharedWithdrawalPosition`   what a position may request;
* `validateActiveDeferredLineage`      the anchors of an active record, and its link to the record
                                       that it followed;
* `positionStateCommitment`            the commitment of a position, its lineage being authentic;
* `buildApplicationPreconditions`      the commitments a propagation is bound to.
-/

namespace PRF.Yield.Shared
open Table
open Accrual (PositionStatus)

variable {η : Type} [DecidableEq η]

def maxLong : ℤ := 2 ^ 63 - 1

def nonNegativeInteger (n : ℤ) (e : Refusal) : Except Refusal ℤ := if 0 ≤ n then .ok n else .error e

section
variable (ownerId : String) (p : Position η)

def basePositionId : String := p.positionId.getD ownerId

def authoritativeOriginalPriority : Except Refusal ℤ :=
  let deferred := p.deferredPosition.bind (·.originalPriority)
  if p.originalPriority.isSome ∧ deferred.isSome ∧ p.originalPriority ≠ deferred then
    .error .originalPriorityLineageMismatch
  else
    nonNegativeInteger ((deferred.or p.originalPriority).getD maxLong)
      .missingOrInvalidOriginalPriority

/-! ## what may be requested -/

def deferredEligible (d : Deferred η) : Bool :=
  d.type = .deferredWithdrawal && d.status = .active && d.eligibility = .laterLiquidity &&
    d.currentAmount.any (0 < ·)

def classifySharedWithdrawalPosition : Classification :=
  match p.account.status, p.deferredPosition with
  | .active, none => .ordinaryBaseRequest
  | .active, some _ => .positionStateContradiction
  | .unwinding, d =>
    if d.any deferredEligible then .eligibleDeferredRequest else .invalidIncompleteDeferredState
  | _, _ => .ineligiblePosition

/-- the `:reason` of a classification that is not valid -/
def Classification.reason : Classification → Refusal
  | .positionStateContradiction => .activeBaseWithStaleDeferredPosition
  | .invalidIncompleteDeferredState => .unwindingWithoutEligibleDeferredPosition
  | .ineligiblePosition => .positionNotActiveOrUnwinding
  | .ordinaryBaseRequest | .eligibleDeferredRequest => .invalidSharedWithdrawalPosition

def Classification.valid (c : Classification) : Bool :=
  c = .ordinaryBaseRequest || c = .eligibleDeferredRequest

/-- the fields of a position that a fulfilment reads -/
def claims : Yield.Position where
  principal := p.account.principal
  principalImpairment := p.principalImpairment
  realizedYield := p.account.realizedYield
  unrealizedYield := p.account.unrealizedYield
  deferredYield := p.account.deferredYield

def positionRequestAmount : Except Refusal ℤ := orThrow do
  let d ← calculateFulfillment Bucket.canonicalKey maxLong (claims p) ⟨none, none, none, none⟩
  sumRequested d.requested

/-! ## rounds and origins -/

def lineageHistoryRounds : List ℤ :=
  p.deferredPositionHistory.filterMap fun e => e.2.record.round.filter (0 ≤ ·)

def nextLineageRound : ℤ :=
  max ((p.deferredPosition.bind (·.round)).getD 0) ((lineageHistoryRounds p).foldl max 0) + 1

def lineageOriginReference : Except Refusal Origin := do
  let originalPriority ← authoritativeOriginalPriority p
  .ok
    { positionId := basePositionId ownerId p
      ownerId
      moduleId := p.account.moduleId
      token := p.account.token
      rootObligationId := basePositionId ownerId p
      originalPriority }

/-- the root obligations that the active and the archived records name, each once -/
def lineageOriginIds : List String :=
  (p.deferredPosition.toList ++ p.deferredPositionHistory.map fun e => e.2.record).filterMap
    (·.rootObligationId) |>.dedup

def singleOriginLineage : Bool := (lineageOriginIds p).length ≤ 1

end

section
variable (canonicalHash : Committed η → η) (double : ℚ → ℚ)

/-! ## commitments -/

/-- `canonical-hash-safe` of a position -/
def positionHash (p : Position η) : η := canonicalHash (.position (p.safe double))

def secondaryPositionId (p : Position η) : Except Refusal η :=
  match p.deferredPosition.bind (·.lineageRoot) with
  | some root => .ok root
  | none => (lineageOriginReference p.account.ownerId p).map fun o => canonicalHash (.origin o)

/-- the archived record that an active one followed -/
def validatePredecessor (p : Position η) (d : Deferred η) (origin : Origin) : Except Refusal Unit :=
  match d.parentId with
  | none => .ok ()
  | some parentId =>
    match find p.deferredPositionHistory parentId with
    | none =>
      if parentId = origin.positionId then .ok () else .error .missingDeferredPredecessorArchive
    | some parent =>
      if parent.preClosureHash = none then .error .missingDeferredPreClosureCommitment
      else if parent.record.lineageRoot ≠ d.lineageRoot then
        .error .deferredLineageRootContinuityMismatch
      else if parent.preClosureHash ≠ d.predecessorHash then .error .deferredPredecessorHashMismatch
      else if d.id ≠ parent.successorId then .error .deferredLineageSuccessorMismatch
      else .ok ()

def validateActiveDeferredLineage (ownerId : String) (p : Position η) : Except Refusal Unit :=
  match p.deferredPosition with
  | none => .ok ()
  | some d =>
    if d.type ≠ .deferredWithdrawal then .ok ()
    else if !singleOriginLineage p then .error .multiOriginLineageMerge
    else if d.lineageRoot = none ∨ d.predecessorHash = none ∨ d.originalPriority = none ∨
        d.rootObligationId = none then .error .missingDeferredLineageAnchor
    else
      match d.originalPosition with
      | none => .error .missingDeferredLineageAnchor
      | some origin => do
        let expectedOrigin ← lineageOriginReference ownerId p
        if origin ≠ expectedOrigin then .error .deferredLineageOriginMismatch
        else if d.lineageRoot ≠ some (canonicalHash (.origin expectedOrigin)) then
          .error .deferredLineageOriginRootMismatch
        else validatePredecessor p d origin

def positionStateCommitment (ownerId : String) (p : Position η) : Except Refusal (Commitment η) := do
  validateActiveDeferredLineage canonicalHash ownerId p
  let originalPriority ← authoritativeOriginalPriority p
  .ok
    { ownerId
      positionHash := positionHash canonicalHash double p
      positionId := basePositionId ownerId p
      moduleId := p.account.moduleId
      token := p.account.token
      status := p.account.status
      originalPriority
      deferredPositionId := p.deferredPosition.bind (·.id)
      deferredPositionHash := p.deferredPosition.map fun d => canonicalHash (.deferred d)
      deferredCurrentAmount := p.deferredPosition.bind (·.currentAmount)
      rootObligationId :=
        (p.deferredPosition.bind (·.rootObligationId)).getD (basePositionId ownerId p) }

/-- the root of the active record, or the hash of the origin of a new lineage -/
def lineageRoot (ownerId : String) (p : Position η) (currentDeferred : Option (Deferred η)) :
    Except Refusal (Option η) :=
  match currentDeferred with
  | some d => .ok d.lineageRoot
  | none => (lineageOriginReference ownerId p).map fun o => some (canonicalHash (.origin o))

def predecessorHash (p : Position η) (currentDeferred : Option (Deferred η)) : Except Refusal η :=
  match currentDeferred with
  | some d => .ok (canonicalHash (.deferred d))
  | none =>
    (positionStateCommitment canonicalHash double p.account.ownerId p).map (·.positionHash)

def applicationPrecondition (w : World η) (moduleId token : String)
    (requestedByOwner : List (String × ℤ)) (ownerId : String) :
    Except Refusal (Precondition η) :=
  match w.position ownerId with
  | none => .error .host
  | some p => do
    let commitment ← positionStateCommitment canonicalHash double ownerId p
    .ok
      { commitment with
        moduleId
        token
        participantId := ownerId
        classification := classifySharedWithdrawalPosition p
        obligationId := commitment.rootObligationId
        sourcePositionId := commitment.deferredPositionId.getD commitment.positionId
        eligibleObligation := (find requestedByOwner ownerId).getD 0 }

def buildApplicationPreconditions (w : World η) (moduleId token : String) (owners : List String)
    (requestedByOwner : List (String × ℤ)) : Except Refusal (List (Precondition η)) :=
  owners.mapM (applicationPrecondition canonicalHash double w moduleId token requestedByOwner)

end

end PRF.Yield.Shared
