import ProtocolRobustness.Library.Runs
import ProtocolRobustness.Sew.Resolution

/-!
# The protocol as a system that takes steps

Every operation of the escrow protocol with the data its caller hands in.  An operation is accepted
with a world after it, or refused and changes nothing; a run is a list of operations.

* `Environment`   the parts of other packages that the protocol calls;
* `Operation`     what can happen, the passing of time included;
* `step`          the operation on a world.
-/

namespace PRF.Sew
open Runs Fallible LongArith

/-- the yield runtime, the hash of a distribution and the pro-rata allocation -/
structure Environment where
  runtime : YieldRuntime
  hash : Distribution → String
  allocateRows : RowAllocator

def Environment.allocate (env : Environment) : GroupAllocator :=
  calculateSewSlashAllocation env.allocateRows

/-- nothing of a runtime, of a hash or of an allocation -/
def bareEnvironment : Environment where
  runtime :=
    { available := fun _ _ _ => false
      resolveModuleId := fun _ m => m
      deposit := fun _ _ _ _ _ => .error .yieldFailure
      accrue := fun _ _ => .error .yieldFailure
      withdraw := fun _ _ _ => .error .yieldFailure }
  hash := fun dist => dist.grossAmount.repr
  allocateRows := fun _ _ => .error .allocationFailure

inductive Operation
  -- escrows
  | createEscrow (caller : Address) (token : Option Token) (recipient : Option Address) (amount : ℤ)
      (settings : Settings) (snapshot : Snapshot)
  | release (workflowId : ℕ) (caller : Address) (strategy : Option ReleaseStrategy)
  | partialRelease (workflowId : ℕ) (caller : Address) (amount : ℤ)
      (strategy : Option ReleaseStrategy)
  | senderCancel (workflowId : ℕ) (caller : Address) (strategy : Option CancelStrategy)
  | recipientCancel (workflowId : ℕ) (caller : Address) (strategy : Option CancelStrategy)
  | withdrawEscrow (workflowId : ℕ) (address : Address)
  | withdrawFees (token : Token) (recipient : Address)
  -- disputes
  | raiseDispute (workflowId : ℕ) (caller : Address)
  | rotateDisputeResolver (workflowId : ℕ) (newResolver : Option Address)
  | submitEvidence (workflowId : ℕ)
  | executeResolution (workflowId : ℕ) (caller : Address) (isRelease : Bool)
      (resolutionHash : String) (module : Option ResolutionModuleFn)
  | executeResolutionRefused (workflowId : ℕ) (caller : Address) (resolutionHash : String)
      (module : Option ResolutionModuleFn)
  | executePendingSettlement (workflowId : ℕ)
  | challengeResolution (workflowId : ℕ) (caller : Address) (escalation : Option EscalationFn)
  | escalateDispute (workflowId : ℕ) (caller : Address) (escalation : Option EscalationFn)
  | autoCancelDisputedEscrow (workflowId : ℕ)
  | autoCancelDisputedOnAutoTime (workflowId : ℕ)
  | automateTimedActions (workflowId : ℕ)
  -- slashes
  | proposeFraudSlash (workflowId : ℕ) (caller : Option Address) (resolver : Address) (amount : ℤ)
  | proposeFraudGroupSlash (workflowId : ℕ) (caller : Option Address) (ids : List Address)
      (amount : ℤ) (incidentFound : Bool)
  | appealSlash (workflowId : ℕ) (caller : Address) (slashId : ℕ)
  | resolveAppeal (workflowId : ℕ) (caller : Option Address) (upheld : Bool) (slashId : ℕ)
      (provenance : Bool)
  | appealFraudGroupSlash (workflowId : ℕ) (caller : Address) (slashId : ℕ)
  | resolveFraudGroupAppeal (workflowId : ℕ) (caller : Option Address) (member : Address)
      (upheld : Bool) (slashId : ℕ) (provenance : Bool)
  | executeFraudSlash (workflowId slashId : ℕ)
  | executeFraudGroupSlash (workflowId slashId : ℕ)
  -- stakes and time
  | registerStake (resolver : Address) (amount : ℤ)
  | withdrawStake (resolver : Address) (amount : ℤ)
  | advanceTime (time : ℤ)

/-- the clock never goes back -/
def World.advanceTime (w : World) (time : ℤ) : Except Failure World :=
  if time < w.blockTs then .error .regressiveTime else .ok { w with blockTs := time }

/-- an operation on a world -/
def step (env : Environment) (w : World) : Operation → Except Failure World
  | .createEscrow caller token recipient amount settings snapshot =>
    w.createEscrow env.runtime caller token recipient amount settings snapshot
  | .release workflowId caller strategy => w.release env.runtime workflowId caller strategy
  | .partialRelease workflowId caller amount strategy =>
    w.partialRelease workflowId caller amount strategy
  | .senderCancel workflowId caller strategy =>
    w.senderCancel env.runtime workflowId caller strategy
  | .recipientCancel workflowId caller strategy =>
    w.recipientCancel env.runtime workflowId caller strategy
  | .withdrawEscrow workflowId address => w.withdrawEscrow workflowId address
  | .withdrawFees token recipient => w.withdrawFees token recipient
  | .raiseDispute workflowId caller => w.raiseDispute workflowId caller
  | .rotateDisputeResolver workflowId newResolver => w.rotateDisputeResolver workflowId newResolver
  | .submitEvidence workflowId => w.submitEvidence workflowId
  | .executeResolution workflowId caller isRelease resolutionHash module =>
    w.executeResolution env.runtime env.hash workflowId caller isRelease resolutionHash module
  | .executeResolutionRefused workflowId caller resolutionHash module =>
    w.executeResolutionRefused env.runtime workflowId caller resolutionHash module
  | .executePendingSettlement workflowId =>
    w.executePendingSettlement env.runtime env.hash workflowId
  | .challengeResolution workflowId caller escalation =>
    w.challengeResolution workflowId caller escalation
  | .escalateDispute workflowId caller escalation => w.escalateDispute workflowId caller escalation
  | .autoCancelDisputedEscrow workflowId =>
    w.autoCancelDisputedEscrow env.runtime env.hash workflowId
  | .autoCancelDisputedOnAutoTime workflowId =>
    w.autoCancelDisputedOnAutoTime env.runtime env.hash workflowId
  | .automateTimedActions workflowId => w.automateTimedActions env.runtime env.hash workflowId
  | .proposeFraudSlash workflowId caller resolver amount =>
    w.proposeFraudSlash workflowId caller resolver amount
  | .proposeFraudGroupSlash workflowId caller ids amount incidentFound =>
    w.proposeFraudGroupSlash env.allocate workflowId caller ids amount incidentFound
  | .appealSlash workflowId caller slashId => w.appealSlash workflowId caller slashId
  | .resolveAppeal workflowId caller upheld slashId provenance =>
    w.resolveAppeal workflowId caller upheld slashId provenance
  | .appealFraudGroupSlash workflowId caller slashId =>
    w.appealFraudGroupSlash env.allocate workflowId caller slashId
  | .resolveFraudGroupAppeal workflowId caller member upheld slashId provenance =>
    w.resolveFraudGroupAppeal workflowId caller member upheld slashId provenance
  | .executeFraudSlash workflowId slashId => w.executeFraudSlash env.hash workflowId slashId
  | .executeFraudGroupSlash workflowId slashId =>
    w.executeFraudGroupSlash env.allocate env.hash workflowId slashId
  | .registerStake resolver amount => w.registerStake resolver amount
  | .withdrawStake resolver amount => w.withdrawStake resolver amount
  | .advanceTime time => w.advanceTime time

section
variable {w w' : World} {resolver : Address} {amount time : ℤ}

theorem registerStake_ok : w.registerStake resolver amount = .ok w' ↔
    0 < amount ∧ ¬ (w.heldStake resolver).AddOverflows (.ofInt amount) ∧
      w.addStake resolver amount (HostInt.ofInt amount).big = w' := by
  unfold World.registerStake
  simp only [refuse_eq_ok, not_le, Except.ok.injEq]

theorem withdrawStake_ok : w.withdrawStake resolver amount = .ok w' ↔
    0 < amount ∧ amount ≤ w.stake resolver ∧
      w.addStake resolver (-amount) (HostInt.ofInt amount).big = w' := by
  unfold World.withdrawStake
  simp only [refuse_eq_ok, not_le, not_lt, Except.ok.injEq]

theorem advanceTime_ok : w.advanceTime time = .ok w' ↔
    w.blockTs ≤ time ∧ { w with blockTs := time } = w' := by
  unfold World.advanceTime
  simp only [refuse_eq_ok, not_lt, Except.ok.injEq]

end

end PRF.Sew
