import ProtocolRobustness.Sew.Accounting
import ProtocolRobustness.Sew.Registry
import ProtocolRobustness.Sew.StateMachine

/-!
# The lifecycle of an escrow

`sew/lifecycle.clj`, with `apply-yield-policy` of `sew/yield/policy.clj`.  The yield runtime is a
parameter: an operation on a yield position returns the ledgers it writes.  Related claims and
evidence are left out; strategies are the functions the caller hands in.

* `World.finalize`      the settlement that ends an escrow;
* `World.createEscrow`, `World.raiseDispute`, `World.release`, `World.partialRelease`,
  `World.senderCancel`, `World.recipientCancel`      what the parties do;
* `World.cancelDisputedEscrowNow`   the refund of a dispute that timed out, with what it cleans up.
-/

namespace PRF.Sew
open Table Fallible

/-! ## the yield runtime -/

/-- the ledgers that an operation on a yield position writes -/
structure YieldEffect where
  held : Held
  totals : Totals
  claims : Claims
  yields : Yields

structure YieldRuntime where
  available : World → String → Token → Bool
  resolveModuleId : World → String → String
  deposit : World → String → ℕ → ℤ → Token → Except Failure YieldEffect
  /-- the accrual of an escrow, once its module is registered -/
  accrue : World → ℕ → Except Failure YieldEffect
  withdraw : World → String → ℕ → Except Failure YieldEffect

def World.applyYield (w : World) (effect : YieldEffect) : World :=
  { w with
    held := effect.held
    totals := effect.totals
    claims := effect.claims
    yields := effect.yields }

def World.yieldModule (w : World) (workflowId : ℕ) : Option String :=
  (w.getSnapshot workflowId).yieldGenerationModule.filter fun m => m ∈ w.yields.modules

def YieldPosition.partialYieldShortfall (position : YieldPosition) (shortfall : Shortfall) : Bool :=
  0 < position.principal && shortfall.basisAmount < position.principal

def YieldPosition.settledYield (position : YieldPosition) : ℤ :=
  if position.shortfall.any position.partialYieldShortfall then position.realizedYield
  else position.realizedYield + position.unrealizedYield

section
variable (runtime : YieldRuntime) (hash : Distribution → String)

namespace World
variable (w : World)

def accrueYield (workflowId : ℕ) : Except Failure World :=
  match w.yieldModule workflowId with
  | none => .ok w
  | some _ => (runtime.accrue w workflowId).map w.applyYield

def debitYield (workflowId : ℕ) (token : Token) (amount : ℤ) : Except Failure World :=
  if 0 < amount then w.subHeld token amount .yieldDistributed { workflowId := workflowId } else .ok w

def yieldShares (outcome : Direction) (preset : YieldPreset) (net : ℤ) : ℤ × ℤ :=
  match outcome, preset with
  | .released, .toRecipient => (0, net)
  | .released, .toSender => (net, 0)
  | .released, .split => (net.tdiv 2, net - net.tdiv 2)
  | .refunded, .toSender => (net, 0)
  | .refunded, .split => (net.tdiv 2, net - net.tdiv 2)
  | _, _ => (0, 0)

def recordPositive (workflowId : ℕ) (domain : ClaimDomain) (address : Address) (amount : ℤ) : World :=
  if 0 < amount then w.recordClaimable workflowId domain address amount else w

def distributeYield (workflowId : ℕ) (outcome : Direction) (et : Transfer)
    (position : YieldPosition) : Except Failure World := do
  let yield := position.settledYield
  let fee := max 0 (bpsAmount yield (w.getSnapshot workflowId).yieldProtocolFeeBps)
  let net := yield - fee
  let shares := yieldShares outcome (w.getSettings workflowId).yieldPreset net
  let unallocated := net - shares.1 - shares.2
  let w₁ := if 0 < fee then w.recordFee et.token fee else w
  let w₂ := (w₁.recordPositive workflowId .settlementYield et.sender shares.1).recordPositive
    workflowId .settlementYield et.recipient shares.2
  let w₃ ← w₂.debitYield workflowId et.token shares.1
  let w₄ ← w₃.debitYield workflowId et.token shares.2
  let w₅ ← w₄.debitYield workflowId et.token fee
  let w₆ ← w₅.debitYield workflowId et.token unallocated
  let w₇ := if 0 < unallocated then w₆.recordFee et.token unallocated else w₆
  .ok
    { w₇ with
      yields :=
        { w₇.yields with
          positions := Function.update w₇.yields.positions workflowId
            (some { position with realizedYield := 0, unrealizedYield := 0 }) } }

def applyYieldPolicy (workflowId : ℕ) (outcome : Direction) : Except Failure World :=
  match w.getTransfer workflowId, w.yields.positions workflowId with
  | some et, some position =>
    if position.settledYield = 0 then .ok w else w.distributeYield workflowId outcome et position
  | _, _ => .ok w

/-! ## settlement -/

def reserveDeferredYieldCustody (token : Token) (workflowId : ℕ) (deferred : ℤ) :
    Except Failure World :=
  let already := w.held.position ⟨token, .yieldCustody, [.id workflowId]⟩
  let required := max 0 (deferred - already)
  if w.held.position (principalPosition token workflowId) < required then
    .error .invalidDeferredYieldCustody
  else if required = 0 then .ok w
  else do
    let w ← w.subHeld token required .deferredYieldReclassifiedOut { workflowId := workflowId }
    w.addHeld token required .deferredYieldReserved { workflowId := workflowId }

def recordSettled (token : Token) (direction : Direction) (amount : ℤ) : World :=
  match direction with
  | .released =>
    { w with totals := { w.totals with released := addAt w.totals.released token amount } }
  | .refunded =>
    { w with totals := { w.totals with refunded := addAt w.totals.refunded token amount } }

def recordFotFee (token : Token) (amount : ℤ) : World :=
  { w with totals := { w.totals with fotFees := addAt w.totals.fotFees token amount } }

/-- an escrow in its terminal state: no pending settlement, no dispute, no party status -/
def clearDispute (workflowId : ℕ) : World :=
  let cleared := w.updateTransfer workflowId fun et =>
    { et with senderStatus := .none, recipientStatus := .none }
  { cleared with
    disputes :=
      { cleared.disputes with
        pending := Function.update cleared.disputes.pending workflowId none
        timestamps := Function.update cleared.disputes.timestamps workflowId 0 } }

def settlementReason : Direction → HeldReason
  | .released => .escrowSettlementReleased
  | .refunded => .escrowSettlementRefunded

def settlementRecipient (et : Transfer) : Direction → Address
  | .released => et.recipient
  | .refunded => et.sender

/-- what a settlement takes out of custody, given what is held -/
def settlementAmount (netAmount held : ℤ) (position : Option YieldPosition) : ℤ :=
  match position, position.bind YieldPosition.shortfall with
  | some position, some shortfall =>
    if position.partialYieldShortfall shortfall then held - shortfall.deferredAmount
    else if 0 < shortfall.deferredAmount then shortfall.fulfilledAmount
    else if shortfall.fulfilledAmount + shortfall.haircutAmount ≤ held then
      shortfall.fulfilledAmount + shortfall.haircutAmount
    else shortfall.fulfilledAmount
  | _, _ => min netAmount held

def settlementPosition (workflowId : ℕ) : Option YieldPosition :=
  if (w.getSnapshot workflowId).yieldGenerationModule.isSome then w.yields.positions workflowId
  else none

def deferredAmount (position : Option YieldPosition) : ℤ :=
  ((position.bind YieldPosition.shortfall).map Shortfall.deferredAmount).getD 0

/-- what an escrow has left, and what is left of it after the fee on transfer -/
def remainingAmount (workflowId : ℕ) (et : Transfer) : ℤ :=
  et.amountAfterFee - w.escrows.amountReleased workflowId

def fotFee (workflowId : ℕ) (et : Transfer) : ℤ :=
  bpsAmount (w.remainingAmount workflowId et) (w.config.tokenFotBps et.token)

def finalize (workflowId : ℕ) (direction : Direction) : Except Failure World :=
  match w.getTransfer workflowId with
  | none => .error .invalidWorkflowId
  | some et => do
    let netAmount := w.remainingAmount workflowId et - w.fotFee workflowId et
    let w₁ ← w.accrueYield runtime workflowId
    let w₂ ← (match w.yieldModule workflowId with
      | none => .ok w₁
      | some mid => (runtime.withdraw w₁ mid workflowId).map w₁.applyYield)
    let position := w₂.settlementPosition workflowId
    let w₃ ← w₂.applyYieldPolicy workflowId direction
    let settled := settlementAmount netAmount (w₃.held.total et.token) position
    if w₃.held.position (principalPosition et.token workflowId) < settled then
      .error .insufficientCustodyPosition
    else do
      let w₄ ← w₃.subHeld et.token settled (settlementReason direction) { workflowId := workflowId }
      let w₅ := w₄.recordSettled et.token direction settled
      let w₆ ← (if 0 < deferredAmount position then
        w₅.reserveDeferredYieldCustody et.token workflowId (deferredAmount position) else .ok w₅)
      let w₇ := (w₆.recordFotFee et.token (w.fotFee workflowId et)).recordClaimable workflowId
        .settlementPrincipal (settlementRecipient et direction) settled
      let w₈ ← w₇.applyTransition workflowId direction.state
      .ok (w₈.clearDispute workflowId)

/-- `finalize-escrow-accounting`, without the archive of related claims -/
def finalizeEscrowAccounting (workflowId : ℕ) (direction : Direction) : Except Failure World :=
  w.finalize runtime workflowId direction

/-! ## what the parties do -/

/-- `create-escrow`; the new workflow is the next one -/
def createEscrow (caller : Address) (token : Option Token) (recipient : Option Address) (amount : ℤ)
    (settings : Settings) (snapshot : Snapshot) : Except Failure World :=
  match token with
  | none => .error .invalidToken
  | some token =>
    if token ∈ w.config.tokenLiquidityCrunch then .error .tokenLiquidityCrunch
    else
      match recipient with
      | none => .error .invalidRecipient
      | some recipient =>
        let yieldEnabled : Bool := settings.yieldPreset ≠ .off
        let resolver := settings.customResolver <|> snapshot.disputeResolver
        let workflowId := w.escrows.nextWorkflowId
        let fee := bpsAmount amount snapshot.escrowFeeBps
        let amountAfterFee := amount - fee
        let useDefaults : Bool := settings.autoReleaseTime = 0 && settings.autoCancelTime = 0
        let autoTime (time delay : ℤ) : ℤ :=
          if 0 < time then time
          else if useDefaults ∧ 0 < delay then w.blockTs + delay
          else 0
        let et : Transfer :=
          { token := token, sender := caller, recipient := recipient
            amountAfterFee := amountAfterFee, initialFee := fee, disputeResolver := resolver
            autoReleaseTime := autoTime settings.autoReleaseTime snapshot.defaultAutoReleaseDelay
            autoCancelTime := autoTime settings.autoCancelTime snapshot.defaultAutoCancelDelay }
        if amount ≤ 0 then .error .amountZero
        else if snapshot.yieldGenerationModule.any
            (fun mid => yieldEnabled && !runtime.available w mid token) then
          .error .insufficientModuleLiquidity
        else if 0 < settings.autoReleaseTime ∧ 0 < settings.autoCancelTime then
          .error .cannotSetBothAutoTimes
        else if resolver = some "" then .error .invalidResolver
        else if resolver.any w.resolverAtCapacity then .error .resolverAtCapacity
        else if resolver.any w.resolverFrozen then .error .resolverFrozen
        else if resolver.any (fun r => 0 < snapshot.resolverBondBps && 0 < w.stake r
            && !w.config.params.canHandleEscrow (w.stake r) amountAfterFee) then
          .error .insufficientResolverStake
        else do
          let created : World :=
            { w with
              escrows :=
                { w.escrows with
                  transfers := put w.escrows.transfers workflowId et
                  settings := Function.update w.escrows.settings workflowId settings
                  snapshots := Function.update w.escrows.snapshots workflowId snapshot
                  nextWorkflowId := workflowId + 1 }
              totals :=
                { w.totals with
                  principalDeposited := addAt w.totals.principalDeposited token amount } }
          let w₁ ← created.addHeld token amountAfterFee .escrowPrincipalDeposited
            { workflowId := workflowId }
          let w₂ := (w₁.recordFee token fee).recordFotFee token (amount - amountAfterFee - fee)
          match snapshot.yieldGenerationModule with
          | none => .ok w₂
          | some mid =>
            if yieldEnabled ∧ runtime.resolveModuleId w mid ∈ w₂.yields.modules then
              (runtime.deposit w₂ (runtime.resolveModuleId w mid) workflowId amountAfterFee
                token).map w₂.applyYield
            else .ok w₂

def raiseDispute (workflowId : ℕ) (caller : Address) : Except Failure World :=
  match w.transitionToDisputed workflowId caller, w.getTransfer workflowId with
  | .error e, _ => .error e
  | .ok _, none => .error .invalidWorkflowId
  | .ok w', some et =>
    if et.disputeResolver.any w.resolverAtCapacity then .error .resolverCapacityExceeded
    else if et.disputeResolver.any w.resolverFrozen then .error .resolverFrozen
    else if w.aboveMaxEscrowPerCase et.disputeResolver et.amountAfterFee then
      .error .insufficientResolverStake
    else .ok (w'.incrementResolverCapacity et.disputeResolver)

end World

/-- a release strategy allows a release, or refuses it with a reason code -/
abbrev ReleaseStrategy := World → ℕ → Address → Bool × ℕ

/-- what a cancellation strategy says: whether to cancel, and whether without consent -/
structure CancelStrategy where
  canCancel : Bool
  unilateralCancel : Bool

namespace World
variable (w : World)

def releaseAllowed (workflowId : ℕ) (caller : Address) (strategy : Option ReleaseStrategy) :
    Except Failure Unit :=
  match strategy with
  | none => .error .releaseStrategyNotSet
  | some strategy =>
    let (allowed, reasonCode) := strategy w workflowId caller
    if allowed then .ok () else .error (if reasonCode = 1 then .notSender else .releaseNotAllowed)

def release (workflowId : ℕ) (caller : Address) (strategy : Option ReleaseStrategy) :
    Except Failure World :=
  match w.getTransfer workflowId with
  | none => .error .invalidWorkflowId
  | some et =>
    if et.escrowState ≠ .pending then .error .transferNotPending
    else do
      w.releaseAllowed workflowId caller strategy
      w.finalize runtime workflowId .released

def partialRelease (workflowId : ℕ) (caller : Address) (amount : ℤ)
    (strategy : Option ReleaseStrategy) : Except Failure World :=
  match w.getTransfer workflowId with
  | none => .error .invalidWorkflowId
  | some et =>
    if et.escrowState ≠ .pending then .error .transferNotPending
    else if amount ≤ 0 then .error .amountZero
    else if strategy.isNone then .error .releaseStrategyNotSet
    else if w.remainingAmount workflowId et < amount then .error .amountExceedsBalance
    else do
      w.releaseAllowed workflowId caller strategy
      let released := w.escrows.amountReleased workflowId + amount
      let w₁ ← ({ w with
        escrows :=
          { w.escrows with
            amountReleased := Function.update w.escrows.amountReleased workflowId released } } :
          World).subHeld et.token amount .escrowSettlementReleased { workflowId := workflowId }
      let w₂ := (w₁.recordClaimable workflowId .settlementPrincipal et.recipient amount).recordSettled
        et.token .released amount
      if et.amountAfterFee ≤ released then do
        let w₃ ← w₂.applyTransition workflowId .released
        .ok (w₃.updateTransfer workflowId fun et =>
          { et with senderStatus := .none, recipientStatus := .none })
      else .ok w₂

/-- the way a party cancels: by the strategy, or by setting its status and waiting for the other -/
def cancelAs (workflowId : ℕ) (strategy : Option CancelStrategy)
    (agree : Except Failure World) : Except Failure World :=
  if strategy.any (fun s => !s.canCancel) then .error .notAuthorizedToCancelYet
  else if strategy.any CancelStrategy.unilateralCancel then w.finalize runtime workflowId .refunded
  else do
    let w' ← agree
    if w'.bothAgreedToCancel workflowId then w'.finalize runtime workflowId .refunded else .ok w'

def senderCancel (workflowId : ℕ) (caller : Address) (strategy : Option CancelStrategy) :
    Except Failure World :=
  match w.getTransfer workflowId with
  | none => .error .invalidWorkflowId
  | some et =>
    if caller ≠ et.sender then .error .notSender
    else if et.escrowState ≠ .pending then .error .transferNotPending
    else w.cancelAs runtime workflowId strategy (w.setSenderAgreeToCancel workflowId caller)

def recipientCancel (workflowId : ℕ) (caller : Address) (strategy : Option CancelStrategy) :
    Except Failure World :=
  match w.getTransfer workflowId with
  | none => .error .invalidWorkflowId
  | some et =>
    if caller ≠ et.recipient then .error .notRecipient
    else if et.escrowState ≠ .pending then .error .transferNotPending
    else w.cancelAs runtime workflowId strategy (w.setRecipientAgreeToCancel workflowId caller)

/-! ## disputes that time out -/

/-- a reversal slash of a workflow whose appeal window has closed -/
def expiredReversal (workflowId : ℕ) (slash : SlashEntry) : Bool :=
  slash.status = .pending && slash.workflowId = workflowId && slash.kind = .reversal
    && slash.appealDeadline ≤ w.blockTs

def archiveSlash (slashId : ℕ) (slash : SlashEntry) : World :=
  { w with
    slashes :=
      { w.slashes with
        history := put w.slashes.history slashId slash
        pending := w.slashes.pending.filter fun e => e.1 ≠ slashId } }

/-- one turn of `cleanup-orphaned-slashes`: an expired reversal slash is enforced and archived -/
def cleanupSlash (workflowId slashId : ℕ) (slash : SlashEntry) : Except Failure World :=
  match slash.resolver with
  | some resolver =>
    if 0 < slash.amount ∧ 0 < w.stake resolver then do
      let (w', slashed) ← w.slashResolverStake hash resolver slash.amount none
        (w.getSnapshot workflowId).challengeBountyBps workflowId true
      .ok (w'.archiveSlash slashId
        { slash with status := .expiredExecuted, actualAmount := some slashed.total })
    else .ok (w.archiveSlash slashId { slash with status := .expiredCleanedUp })
  | none => .ok (w.archiveSlash slashId { slash with status := .expiredCleanedUp })

def cleanupOrphanedSlashes (workflowId : ℕ) : Except Failure World :=
  if w.escrowState workflowId = some .released ∨ w.escrowState workflowId = some .refunded then
    (w.slashes.pending.filter fun e => w.expiredReversal workflowId e.2).foldlM
      (fun w e => w.cleanupSlash hash workflowId e.1 e.2) w
  else .ok w

/-- the resolver of a dispute that timed out loses stake up to the amount of the escrow -/
def slashOnTimeout (workflowId : ℕ) (resolver : Option Address) (amount : ℤ) :
    Except Failure World :=
  match resolver with
  | none => .ok w
  | some resolver =>
    if resolver = zeroAddress then .ok w
    else do
      let actual ← slashableAmount (w.stake resolver) amount
      let w' ← (w.addStake resolver (-actual) true).distributeSlashedFunds hash actual none 0
        (some workflowId)
      .ok (w'.addSlashTotal resolver actual)

def cancelDisputedEscrowNow (workflowId : ℕ) : Except Failure World :=
  match w.getTransfer workflowId with
  | none => .error .invalidWorkflowId
  | some et => do
    let finalized ← w.finalize runtime workflowId .refunded
    let slashed ← finalized.slashOnTimeout hash workflowId et.disputeResolver et.amountAfterFee
    let returned ← (slashed.decrementResolverCapacity
      et.disputeResolver).returnAllBondsForWorkflow workflowId
    returned.cleanupOrphanedSlashes hash workflowId

def autoCancelDisputedEscrow (workflowId : ℕ) : Except Failure World :=
  if ¬ w.validWorkflowId workflowId then .error .invalidWorkflowId
  else if ¬ w.disputeActive workflowId then .error .transferNotInDispute
  else if (w.getPending workflowId).isSome then .error .hasPendingSettlement
  else if ¬ w.disputeTimeoutExceeded workflowId then .error .disputeTimeoutNotExceeded
  else w.cancelDisputedEscrowNow runtime hash workflowId

def autoCancelDisputedOnAutoTime (workflowId : ℕ) : Except Failure World :=
  if ¬ w.validWorkflowId workflowId then .error .invalidWorkflowId
  else if ¬ w.disputeActive workflowId then .error .transferNotInDispute
  else if (w.getPending workflowId).isSome then .error .hasPendingSettlement
  else if ¬ w.autoCancelDueOnDisputed workflowId then .error .autoCancelTimeNotPassed
  else w.cancelDisputedEscrowNow runtime hash workflowId

end World

end

end PRF.Sew
