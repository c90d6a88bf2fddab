import ProtocolRobustness.Sew.Slashes

/-!
# The resolution of disputes

`sew/resolution.clj` and `sew/authority.clj`: decisions and the windows in which they can be
appealed, escalations with their bonds, the slashes of a reversal and what a later vindication gives
back, and what a keeper does when a time has come.  A resolution module and an escalation are the
functions a caller hands in.

* `World.authorizedResolver`, `World.authorizedFallbackResolver`   who may decide;
* `World.handleReversalSlashing`, `World.vindicate`                slashes of reversed decisions;
* `World.executeResolution`, `World.executePendingSettlement`      a decision, and its settlement;
* `World.challengeResolution`, `World.escalateDispute`             the next level;
* `World.automateTimedActions`                                     the keeper.
-/

namespace PRF.Sew
open Table Fallible

/-- `resolution-module-fn`; none when the module throws or answers with something else -/
abbrev ResolutionModuleFn := ℕ → Address → Option Bool

/-- `escalation-fn`: a refusal, or the resolver of the next level -/
abbrev EscalationFn := World → ℕ → Address → ℕ → Except Failure (Option Address)

/-- `max-superseded-pending-per-workflow` -/
def maxSupersededPending : ℕ := 5

/-- `escalation-cooldown-seconds` -/
def escalationCooldown : ℤ := 86400

/-- `(take-last n l)` -/
def takeLast {α : Type} (n : ℕ) (l : List α) : List α := l.drop (l.length - n)

namespace World
variable (w : World)

/-! ## authority -/

def customResolver (workflowId : ℕ) : Option Address :=
  (w.getSettings workflowId).customResolver.filter fun a => a ≠ ""

def moduleConfigured (workflowId : ℕ) (module : Option ResolutionModuleFn) :
    Option ResolutionModuleFn :=
  module.filter fun _ => (w.getSnapshot workflowId).resolutionModule.any fun m => m ≠ ""

def authorizedResolver (workflowId : ℕ) (caller : Address) (module : Option ResolutionModuleFn) :
    Bool :=
  let assigned : Bool := (w.getTransfer workflowId).bind Transfer.disputeResolver = some caller
  match w.customResolver workflowId, w.moduleConfigured workflowId module with
  | some custom, _ => caller = custom
  | none, some fn =>
    match fn workflowId caller with
    | some authorized => authorized || assigned
    | none => false
  | none, none => assigned

def authorizedFallbackResolver (workflowId : ℕ) (caller : Address)
    (module : Option ResolutionModuleFn) : Bool :=
  match w.moduleConfigured workflowId module with
  | some fn => fn workflowId caller = some true
  | none =>
    (w.getTransfer workflowId).any fun et =>
      et.disputeResolver = some caller
        || caller ≠ et.sender && caller ≠ et.recipient && 0 < w.stake caller

/-! ## rotation and evidence -/

def assignResolver (workflowId : ℕ) (previous : Option Address) (next : Address) : World :=
  ((w.updateTransfer workflowId fun et => { et with disputeResolver := some next
    }).decrementResolverCapacity previous).incrementResolverCapacity (some next)

def rotateDisputeResolver (workflowId : ℕ) (newResolver : Option Address) : Except Failure World :=
  match w.getTransfer workflowId with
  | none => .error .invalidWorkflowId
  | some et =>
    if et.escrowState ≠ .disputed then .error .transferNotInDispute
    else if (w.getPending workflowId).isSome then .error .resolutionAlreadyPending
    else
      match newResolver.filter fun a => a ≠ "" with
      | none => .error .invalidNewResolver
      | some next =>
        let sameRotation : Bool := (w.disputes.rotations workflowId).getLast?.any fun last =>
          last.previous = et.disputeResolver && last.next = next
        if et.disputeResolver = some next ∨ sameRotation then .ok w
        else
          let rotation : Rotation :=
            { previous := et.disputeResolver, next := next, time := w.blockTs }
          let rotated : World :=
            { w with
              escrows :=
                { w.escrows with
                  settings := Function.update w.escrows.settings workflowId
                    { w.getSettings workflowId with customResolver := none } }
              disputes :=
                { w.disputes with
                  rotations := Function.update w.disputes.rotations workflowId
                    (w.disputes.rotations workflowId ++ [rotation]) } }
          .ok (rotated.assignResolver workflowId et.disputeResolver next)

def submitEvidence (workflowId : ℕ) : Except Failure World :=
  let window := (w.getSnapshot workflowId).evidenceWindowDuration
  if ¬ w.validWorkflowId workflowId then .error .invalidWorkflowId
  else if ¬ w.disputeActive workflowId then .error .transferNotInDispute
  else if 0 < window ∧ w.disputes.timestamps workflowId + window < w.blockTs then
    .error .evidenceDeadlineExceeded
  else .ok
    { w with
      disputes :=
        { w.disputes with
          evidenceUpdated := Function.update w.disputes.evidenceUpdated workflowId true } }

/-! ## pending settlements -/

def setPending (workflowId : ℕ) (pending : Option Pending) : World :=
  { w with
    disputes :=
      { w.disputes with pending := Function.update w.disputes.pending workflowId pending } }

/-- `archive-current-pending-settlement`.  Once entries were taken off the end, the archive is a
sequence, and a new entry goes to its front. -/
def archiveCurrentPendingSettlement (workflowId : ℕ) (reason : SupersedeReason) : World :=
  match w.getPending workflowId with
  | none => w
  | some pending =>
    let entry : Superseded :=
      { pending := pending, supersededAt := w.blockTs, level := w.disputeLevel workflowId
        reason := reason }
    let cleared := w.clearClaimableKind workflowId .settlementPrincipal
    ({ cleared with
      disputes :=
        { cleared.disputes with
          superseded := Function.update cleared.disputes.superseded workflowId
            (takeLast maxSupersededPending (entry :: cleared.disputes.superseded workflowId)) } } :
      World).setPending workflowId none

end World

/-! ## reversed decisions -/

section
variable (hash : Distribution → String)

namespace World
variable (w : World)

def reversalSlashExists (workflowId level : ℕ) : Bool :=
  (w.slashes.byContext workflowId .reversal level).isSome
    || (w.slashes.byContext workflowId .forceReversal level).isSome

def reversalSlashActive (workflowId : ℕ) (resolver : Address) : Bool :=
  w.slashes.pending.any fun e =>
    (e.2.kind = .reversal || e.2.kind = .forceReversal) && e.2.workflowId = workflowId
      && e.2.resolver = some resolver && e.2.active

def reversedDecision (workflowId : ℕ) (isRelease : Bool) : Option (ℕ × Decision) :=
  match w.disputeLevel workflowId with
  | 0 => none
  | level + 1 =>
    let reversed :=
      if (w.disputes.previousDecisions workflowId (level + 1)).isSome then level + 1 else level
    ((w.disputes.previousDecisions workflowId reversed).filter fun d =>
      d.isRelease ≠ isRelease).map fun d => (reversed, d)

/-- `make-reversal-slash-entry`, pending until the appeal window closes -/
def reversalEntry (slashId workflowId level : ℕ) (resolver : Address) (amount : ℤ) : SlashEntry where
  slashId := slashId
  workflowId := workflowId
  kind := .reversal
  level := level
  resolver := some resolver
  amount := amount
  token := some (((w.getTransfer workflowId).map Transfer.token).getD "USDC")
  status := .pending
  proposedAt := w.blockTs
  appealDeadline := w.blockTs + (w.getSnapshot workflowId).appealWindowDuration.getD 0

/-- `handle-reversal-slashing`: with new evidence the slash waits for appeals, without it is executed
at once -/
def handleReversalSlashing (workflowId : ℕ) (isRelease : Bool) : Except Failure World :=
  match w.reversedDecision workflowId isRelease with
  | none => .ok w
  | some (level, decision) =>
    let resolver := decision.resolver
    if w.reversalSlashExists workflowId level ∨ w.reversalSlashActive workflowId resolver then .ok w
    else
      let snap := w.getSnapshot workflowId
      let amount := bpsAmount (w.stake resolver) snap.reversalSlashBps
      if (w.heldStake resolver).MulOverflows (.ofInt snap.reversalSlashBps) then .error .integerOverflow
      else if amount ≤ 0 then .ok w
      else do
        let slashId ← w.allocateSlashId
        let entry := w.reversalEntry slashId workflowId level resolver amount
        if w.disputes.evidenceUpdated workflowId then w.insertSlash entry
        else do
          let (w', slashed) ← w.slashResolverStake hash resolver amount
            (w.disputes.challengers workflowId level) snap.challengeBountyBps workflowId true
          w'.insertSlash
            { entry with
              status := .executed
              appealDeadline := 0
              actualAmount := some slashed.total }

/-! ## vindicated decisions -/

end World

def SlashEntry.reversible (entry : SlashEntry) : Bool :=
  (entry.kind = .reversal || entry.kind = .forceReversal)
    && (entry.status = .executed || entry.status = .expiredExecuted || entry.active)

def SlashEntry.enforced (entry : SlashEntry) : Bool :=
  entry.status = .executed || entry.status = .expiredExecuted

namespace World
variable (w : World)

/-- the entry a vindication settles: in the registry, else in the history -/
def vindicatedEntry (slashId : ℕ) : Option SlashEntry :=
  (w.getSlash slashId).filter SlashEntry.reversible
    <|> (find w.slashes.history slashId).filter SlashEntry.reversible

def updateSlash (slashId : ℕ) (f : SlashEntry → SlashEntry) : World :=
  match w.getSlash slashId, find w.slashes.history slashId with
  | some entry, _ => w.putSlash slashId (f entry)
  | none, some entry =>
    { w with slashes := { w.slashes with history := put w.slashes.history slashId (f entry) } }
  | none, none => w

/-- a resolver is credited what was debited, a big integer -/
def creditVindicated (resolver : Address) (amount : ℤ) : World :=
  let credited := (w.addStake resolver amount true).addSlashTotal resolver (-amount)
  { credited with
    resolvers :=
      { credited.resolvers with
        slashCredit := addAt credited.resolvers.slashCredit resolver amount } }

/-- the slash of a vindicated decision: credited when it was enforced, else voided -/
def vindicateSlash (slashId : ℕ) (entry : SlashEntry) : Except Failure World :=
  match entry.resolver with
  | none => .ok w
  | some resolver =>
    let amount := entry.actualAmount.getD entry.amount
    if entry.enforced then
      if 0 < amount ∧ amount ≤ w.resolvers.slashTotal resolver then
        .ok ((w.creditVindicated resolver amount).updateSlash slashId fun e =>
          { e with status := .reversedWithCredit })
      else .ok w
    else
      let custody := w.slashes.custody slashId
      let wf := (custody.map AppealCustody.workflowId).getD entry.workflowId
      let token := custody.bind AppealCustody.token <|> entry.token
      let voided := w.updateSlash slashId fun e => { e with status := .reversed }
      if 0 < entry.appealBondHeld then
        (voided.returnSlashAppealBond wf slashId (some resolver) token entry.appealBondHeld).map
          fun w => (w.setCustody slashId none).updateSlash slashId fun e =>
            { e with appealBondHeld := 0 }
      else .ok voided

/-- one turn of `reverse-reversal-slash-on-vindication`: a decision that the next level reversed is
confirmed -/
def vindicateLevel (workflowId : ℕ) (isRelease : Bool) (w : World) (level : ℕ) :
    Except Failure World :=
  match w.disputes.previousDecisions workflowId level,
    w.disputes.previousDecisions workflowId (level + 1) with
  | some original, some next =>
    if original.isRelease ≠ next.isRelease ∧ original.isRelease = isRelease then
      match w.slashes.byContext workflowId .reversal level with
      | none => .ok w
      | some slashId =>
        match w.vindicatedEntry slashId with
        | none => .ok w
        | some entry => w.vindicateSlash slashId entry
    else .ok w
  | _, _ => .ok w

/-- `reverse-reversal-slash-on-vindication` -/
def vindicate (workflowId : ℕ) (isRelease : Bool) : Except Failure World :=
  (List.range (w.disputeLevel workflowId - 1)).foldlM (vindicateLevel workflowId isRelease) w

end World

end

/-! ## decisions -/

section
variable (runtime : YieldRuntime) (hash : Distribution → String)

namespace World
variable (w : World)

/-- `finalize` of `sew/resolution.clj` -/
def finalizeDispute (workflowId : ℕ) (direction : Direction) : Except Failure World := do
  let resolver := (w.getTransfer workflowId).bind Transfer.disputeResolver
  let finalized ← w.finalizeEscrowAccounting runtime workflowId direction
  .ok (finalized.decrementResolverCapacity resolver)

/-- the escrow is settled, and the expired reversal slashes are enforced -/
def settleDispute (workflowId : ℕ) (isRelease : Bool) : Except Failure World := do
  let finalized ← w.finalizeDispute runtime workflowId (direction isRelease)
  finalized.cleanupOrphanedSlashes hash workflowId

def recordDecision (workflowId : ℕ) (caller : Address) (isRelease : Bool)
    (resolutionHash : String) : World :=
  ({ w with
    disputes :=
      { w.disputes with
        previousDecisions := Function.update w.disputes.previousDecisions workflowId
          (Function.update (w.disputes.previousDecisions workflowId) (w.disputeLevel workflowId)
            (some { resolver := caller, isRelease := isRelease })) } } : World).updateTransfer
    workflowId fun et =>
      { et with
        resolution := some
          { resolvedBy := caller, isRelease := isRelease, resolutionHash := resolutionHash } }

def applyResolutionTransition (workflowId : ℕ) (caller : Address) (isRelease : Bool)
    (resolutionHash : String) : Except Failure World :=
  if ¬ w.validWorkflowId workflowId then .error .invalidWorkflowId
  else if ¬ w.disputeActive workflowId then .error .transferNotInDispute
  else if w.refused workflowId then .error .resolutionAlreadyRefused
  else do
    let archived := w.archiveCurrentPendingSettlement workflowId .newResolution
    let accrued ← archived.accrueYield runtime workflowId
    let slashed ← accrued.handleReversalSlashing hash workflowId isRelease
    let vindicated ← slashed.vindicate workflowId isRelease
    let decided := vindicated.recordDecision workflowId caller isRelease resolutionHash
    let window := (w.getSnapshot workflowId).window
    if w.finalRound workflowId ∨ window ≤ 0 then
      decided.settleDispute runtime hash workflowId isRelease
    else do
      let settled ← decided.settleAppealBondOnResolution workflowId isRelease
      .ok (settled.setPending workflowId
        (some
          { isRelease := isRelease, appealDeadline := w.blockTs + window
            resolutionHash := resolutionHash }))

/-- `execute-resolution`; once the response window has closed, the fallback resolvers decide -/
def executeResolution (workflowId : ℕ) (caller : Address) (isRelease : Bool)
    (resolutionHash : String) (module : Option ResolutionModuleFn) : Except Failure World :=
  let expired := w.resolverResponseExceeded workflowId
  if ¬ w.validWorkflowId workflowId then .error .invalidWorkflowId
  else if ¬ w.disputeActive workflowId then .error .transferNotInDispute
  else if ¬ expired ∧ (w.customResolver workflowId).any (fun a => a ≠ caller) then
    .error .notAuthorizedResolver
  else if ¬ expired ∧ ¬ w.authorizedResolver workflowId caller module then
    .error .notAuthorizedResolver
  else if expired ∧ ¬ w.authorizedFallbackResolver workflowId caller module then
    .error .notAuthorizedFallbackResolver
  else w.applyResolutionTransition runtime hash workflowId caller isRelease resolutionHash

def executeResolutionRefused (workflowId : ℕ) (caller : Address) (resolutionHash : String)
    (module : Option ResolutionModuleFn) : Except Failure World :=
  if ¬ w.validWorkflowId workflowId then .error .invalidWorkflowId
  else if ¬ w.disputeActive workflowId then .error .transferNotInDispute
  else if (w.getPending workflowId).isSome then .error .resolutionAlreadyPending
  else if ¬ w.authorizedResolver workflowId caller module then .error .notAuthorizedResolver
  else do
    let accrued ← w.accrueYield runtime workflowId
    .ok (accrued.updateTransfer workflowId fun et =>
      { et with refused := some (caller, w.blockTs, resolutionHash) })

def yieldUnsettled (workflowId : ℕ) : Bool :=
  (w.yields.positions workflowId).any fun p =>
    0 < p.unrealizedYield + p.realizedYield && p.lastAccrualTime.any fun t => t < w.blockTs

def settlementDue (workflowId : ℕ) : Option Pending :=
  w.getPending workflowId <|> (w.eligibleSupersededPending workflowId).map Superseded.pending

def executePendingSettlement (workflowId : ℕ) : Except Failure World :=
  if ¬ w.validWorkflowId workflowId then .error .invalidWorkflowId
  else if w.refused workflowId then .error .resolutionAlreadyRefused
  else
    match w.settlementDue workflowId with
    | none => .error .noPendingSettlement
    | some pending =>
      if ¬ w.disputeActive workflowId then .error .transferNotInDispute
      else if w.blockTs < pending.appealDeadline then .error .appealWindowNotExpired
      else if w.yieldUnsettled workflowId then .error .yieldPositionUnsettled
      else w.settleDispute runtime hash workflowId pending.isRelease

/-! ## the next level -/

def escalationCooldownViolated (caller : Address) (level : ℕ) : Bool :=
  (w.disputes.lastEscalationPerAddr caller level).any fun last =>
    w.blockTs - last < escalationCooldown

/-- `calculate-appeal-bond-amount` -/
def appealBondAmount (et : Transfer) (snap : Snapshot) : ℤ :=
  if 0 < snap.appealBondAmount then snap.appealBondAmount
  else if 0 < et.amountAfterFee ∧ 0 < snap.appealBondBps then
    bpsAmount et.amountAfterFee snap.appealBondBps
  else 0

/-- `calculate-challenge-bond-amount` -/
def challengeBondAmount (et : Transfer) (snap : Snapshot) : ℤ :=
  if 0 < snap.challengeBondBps then bpsAmount et.amountAfterFee snap.challengeBondBps
  else if 0 < snap.appealBondBps then bpsAmount et.amountAfterFee snap.appealBondBps
  else if 0 < snap.appealBondAmount then snap.appealBondAmount
  else 0

def nextLevel (workflowId : ℕ) (caller : Address) (et : Transfer) (reason : SupersedeReason)
    (baseBond : ℤ) (next : Address) : Except Failure World := do
  let level := w.disputeLevel workflowId
  let bond := bpsAmount baseBond (10000 + w.disputes.escalationCounts caller * 1000)
  let posted ← (if 0 < bond then
    w.postAppealBond workflowId caller (w.getSnapshot workflowId) et.token bond else .ok w)
  let archived := posted.archiveCurrentPendingSettlement workflowId reason
  let raised : World :=
    { archived with
      disputes :=
        { archived.disputes with
          challengers := Function.update archived.disputes.challengers workflowId
            (Function.update (archived.disputes.challengers workflowId) level (some caller))
          levels := Function.update archived.disputes.levels workflowId (level + 1)
          lastEscalationPerAddr := Function.update archived.disputes.lastEscalationPerAddr caller
            (Function.update (archived.disputes.lastEscalationPerAddr caller) level
              (some w.blockTs))
          escalationCounts := addAt archived.disputes.escalationCounts caller 1 } }
  .ok (raised.assignResolver workflowId et.disputeResolver next)

/-- the guards and the assignment that challenges and escalations share -/
def takeToNextLevel (workflowId : ℕ) (caller : Address) (escalation : Option EscalationFn)
    (reason : SupersedeReason) (baseBond : Transfer → Snapshot → ℤ) (noResolution : Failure)
    (et : Transfer) : Except Failure World :=
  if w.finalRound workflowId then .error .escalationNotAllowed
  else
    match w.getPending workflowId, escalation with
    | none, _ => .error noResolution
    | some pending, escalation =>
      if pending.appealDeadline ≤ w.blockTs then .error .appealWindowExpired
      else
        match escalation with
        | none => .error .escalationNotConfigured
        | some escalation =>
          if w.escalationCooldownViolated caller (w.disputeLevel workflowId) then
            .error .escalationCooldownActive
          else do
            let answer ← escalation w workflowId caller (w.disputeLevel workflowId)
            match answer.filter fun a => a ≠ "" with
            | none => .error .invalidNewResolver
            | some next =>
              w.nextLevel workflowId caller et reason (baseBond et (w.getSnapshot workflowId)) next

def challengeResolution (workflowId : ℕ) (caller : Address) (escalation : Option EscalationFn) :
    Except Failure World :=
  match w.getTransfer workflowId with
  | none => .error .invalidWorkflowId
  | some et =>
    if et.escrowState ≠ .disputed then .error .transferNotInDispute
    else w.takeToNextLevel workflowId caller escalation .challenge challengeBondAmount
      .noResolutionToChallenge et

def escalateDispute (workflowId : ℕ) (caller : Address) (escalation : Option EscalationFn) :
    Except Failure World :=
  match w.getTransfer workflowId with
  | none => .error .invalidWorkflowId
  | some et =>
    if et.escrowState ≠ .disputed then .error .transferNotInDispute
    else if caller ≠ et.sender ∧ caller ≠ et.recipient then .error .notParticipant
    else w.takeToNextLevel workflowId caller escalation .escalation appealBondAmount
      .noResolutionToAppeal et

/-! ## the keeper -/

/-- what `automate-timed-actions` chooses -/
inductive TimedAction
  | executePending | autoCancelDisputedAutoTime | autoCancelDisputed | autoRelease | autoCancel
  | none
deriving DecidableEq

/-- the choice, in the order of priority; a refused resolution and a dispute that timed out are
cancelled alike -/
def timedAction (workflowId : ℕ) : TimedAction :=
  if w.pendingSettlementExecutable workflowId then .executePending
  else if w.autoCancelDueOnDisputed workflowId then .autoCancelDisputedAutoTime
  else if w.refusedResolutionTimeout workflowId ∨ w.disputeTimeoutExceeded workflowId then
    .autoCancelDisputed
  else if w.autoReleaseDue workflowId then .autoRelease
  else if w.autoCancelDue workflowId then .autoCancel
  else .none

def automateTimedActions (workflowId : ℕ) : Except Failure World :=
  if ¬ w.validWorkflowId workflowId then .error .invalidWorkflowId
  else do
    let accrued ← w.accrueYield runtime workflowId
    match accrued.timedAction workflowId with
    | .executePending => accrued.executePendingSettlement runtime hash workflowId
    | .autoCancelDisputedAutoTime => accrued.autoCancelDisputedOnAutoTime runtime hash workflowId
    | .autoCancelDisputed => accrued.autoCancelDisputedEscrow runtime hash workflowId
    | .autoRelease => accrued.finalizeEscrowAccounting runtime workflowId .released
    | .autoCancel => accrued.finalizeEscrowAccounting runtime workflowId .refunded
    | .none => .ok accrued

end World

end

end PRF.Sew
