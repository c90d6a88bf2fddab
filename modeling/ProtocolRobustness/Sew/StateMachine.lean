import ProtocolRobustness.Library.Fallible
import ProtocolRobustness.Sew.World

/-!
# The state machine of an escrow

`sew/state_machine.clj`: checked changes of the state, the consents to a cancellation, and the
predicates on time that keepers ask.  A deadline has expired at its own instant.

* `World.applyTransition`             a change along the transition graph;
* `World.transitionToDisputed`        the transition a dispute takes;
* `World.eligibleSupersededPending`   the superseded decision that counts;
* `World.pendingSettlementExecutable` whether a settlement is due.
-/

namespace PRF.Sew
open Table Fallible

def deadlineExpired (now deadline : ℤ) : Bool := deadline ≤ now

namespace World
variable (w : World) (workflowId : ℕ)

/-! ## transitions -/

/-- the record of an escrow is written -/
def putTransfer (et : Transfer) : World :=
  { w with escrows := { w.escrows with transfers := put w.escrows.transfers workflowId et } }

def updateTransfer (f : Transfer → Transfer) : World :=
  match w.getTransfer workflowId with
  | none => w
  | some et => w.putTransfer workflowId (f et)

def applyTransition (state : EscrowState) : Except Failure World :=
  match w.getTransfer workflowId with
  | none => .error .illegalStateTransition
  | some et =>
    if state ∉ et.escrowState.next then .error .illegalStateTransition
    else .ok (w.putTransfer workflowId { et with escrowState := state })

/-- the party that raises a dispute; the sender, where both are the same -/
def setRaiseDisputeStatus (caller : Address) (et : Transfer) : Transfer :=
  if caller = et.sender then { et with senderStatus := .raiseDispute, recipientStatus := .none }
  else { et with recipientStatus := .raiseDispute, senderStatus := .none }

def transitionToDisputed (caller : Address) : Except Failure World :=
  match w.getTransfer workflowId with
  | none => .error .invalidWorkflowId
  | some et =>
    if et.escrowState ≠ .pending then .error .transferNotPending
    else if caller ≠ et.sender ∧ caller ≠ et.recipient then .error .notParticipant
    else .ok
      { w.putTransfer workflowId
          (setRaiseDisputeStatus caller { et with escrowState := .disputed }) with
        disputes :=
          { w.disputes with
            timestamps := Function.update w.disputes.timestamps workflowId w.blockTs } }

def setSenderAgreeToCancel (caller : Address) : Except Failure World :=
  match w.getTransfer workflowId with
  | none => .error .invalidWorkflowId
  | some et =>
    if et.escrowState ≠ .pending then .error .transferNotPending
    else if caller ≠ et.sender then .error .notSender
    else .ok (w.putTransfer workflowId { et with senderStatus := .agreeToCancel })

def setRecipientAgreeToCancel (caller : Address) : Except Failure World :=
  match w.getTransfer workflowId with
  | none => .error .invalidWorkflowId
  | some et =>
    if et.escrowState ≠ .pending then .error .transferNotPending
    else if caller ≠ et.recipient then .error .notRecipient
    else .ok (w.putTransfer workflowId { et with recipientStatus := .agreeToCancel })

def bothAgreedToCancel : Bool :=
  (w.getTransfer workflowId).any fun et =>
    et.senderStatus = .agreeToCancel && et.recipientStatus = .agreeToCancel

/-! ## deadlines -/

def autoReleaseDue : Bool :=
  (w.getTransfer workflowId).any fun et =>
    et.escrowState = .pending && 0 < et.autoReleaseTime
      && deadlineExpired w.blockTs et.autoReleaseTime

def autoCancelDue : Bool :=
  (w.getTransfer workflowId).any fun et =>
    et.escrowState = .pending && 0 < et.autoCancelTime && deadlineExpired w.blockTs et.autoCancelTime

def autoCancelDueOnDisputed : Bool :=
  w.disputeActive workflowId
    && (w.getTransfer workflowId).any (fun et =>
      0 < et.autoCancelTime && deadlineExpired w.blockTs et.autoCancelTime)
    && (w.getPending workflowId).isNone

/-- a window that is set has closed since the dispute was raised -/
def windowElapsed (window : ℤ) : Bool :=
  0 < w.disputes.timestamps workflowId && 0 < window
    && deadlineExpired w.blockTs (w.disputes.timestamps workflowId + window)

def disputeTimeoutExceeded : Bool :=
  w.disputeActive workflowId && (w.getPending workflowId).isNone
    && w.windowElapsed workflowId (w.getSnapshot workflowId).maxDisputeDuration

def resolverResponseExceeded : Bool :=
  w.disputeActive workflowId && (w.getPending workflowId).isNone
    && w.windowElapsed workflowId (w.getSnapshot workflowId).resolverResponseWindow

/-- the arbitrator refused to rule -/
def refused : Bool := (w.getTransfer workflowId).any fun et => et.refused.isSome

def refusedResolutionTimeout : Bool :=
  w.disputeActive workflowId && w.refused workflowId
    && w.windowElapsed workflowId (w.getSnapshot workflowId).maxDisputeDuration

end World

/-! ## superseded decisions -/

/-- the order of superseded decisions: by time, then by deadline -/
def Superseded.notAfter (e f : Superseded) : Prop :=
  e.supersededAt < f.supersededAt ∨
    e.supersededAt = f.supersededAt ∧ e.pending.appealDeadline ≤ f.pending.appealDeadline

instance : DecidableRel Superseded.notAfter := fun _ _ =>
  inferInstanceAs (Decidable (_ ∨ _))

/-- the last one of the sorted entries; sorting is stable -/
def latestSuperseded (entries : List Superseded) : Option Superseded :=
  (entries.insertionSort Superseded.notAfter).getLast?

namespace World
variable (w : World) (workflowId : ℕ)

/-- `eligible-superseded-pending`, and `pick-eligible-superseded-pending` of `sew/resolution.clj` -/
def eligibleSupersededPending : Option Superseded :=
  let entries := w.disputes.superseded workflowId
  let sameLevel := entries.filter fun e => e.level = w.disputeLevel workflowId
  if sameLevel ≠ [] then latestSuperseded sameLevel
  else if w.disputeActive workflowId ∧ entries ≠ [] then latestSuperseded entries
  else none

def pendingSettlementExecutable : Bool :=
  w.disputeActive workflowId &&
    match w.getPending workflowId with
    | some pending => deadlineExpired w.blockTs pending.appealDeadline
    | none => (w.eligibleSupersededPending workflowId).any fun e =>
        deadlineExpired w.blockTs e.pending.appealDeadline

end World

/-! ## what a transition does -/

section
variable {w w' : World} {workflowId : ℕ} {et : Transfer}

@[simp] theorem getTransfer_putTransfer (w : World) (workflowId wf : ℕ) (et : Transfer) :
    (w.putTransfer workflowId et).getTransfer wf
      = if workflowId = wf then some et else w.getTransfer wf :=
  find_put w.escrows.transfers workflowId wf et

theorem updateTransfer_some (h : w.getTransfer workflowId = some et) (f : Transfer → Transfer) :
    w.updateTransfer workflowId f = w.putTransfer workflowId (f et) := by
  unfold World.updateTransfer
  rw [h]

theorem applyTransition_ok {state : EscrowState} (h : w.getTransfer workflowId = some et) :
    w.applyTransition workflowId state = .ok w' ↔ state ∈ et.escrowState.next ∧
      w.putTransfer workflowId { et with escrowState := state } = w' := by
  unfold World.applyTransition
  rw [h]
  simp only [refuse_eq_ok, not_not, Except.ok.injEq]

theorem disputeActive_iff : w.disputeActive workflowId = true ↔
    ∃ et, w.getTransfer workflowId = some et ∧ et.escrowState = .disputed := by
  simp [World.disputeActive, World.escrowState]

end

end PRF.Sew
