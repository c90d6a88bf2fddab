import ProtocolRobustness.Sew.Lifecycle

/-!
# Slashes against resolvers

The slash registry of `sew/types.clj` and the slashes of `sew/resolution.clj` that governance
proposes: against one resolver, or against a group.  A proposal waits for its appeal window, an
appeal puts a bond in custody, an execution debits the stakes.  The pro-rata allocation of an amount
among rows is made by another package, and is a parameter; the reference to a fraud incident is
resolved by the caller.  Products and sums of 64-bit integers throw when they overflow.

* `World.insertSlash`                        a new entry under the next id, indexed by its context;
* `calculateSewSlashAllocation`              an amount divided among the members of a group;
* `World.proposeFraudSlash`, `World.proposeFraudGroupSlash`     the proposals;
* `World.appealSlash`, `World.resolveAppeal`                     an appeal against one slash;
* `World.appealFraudGroupSlash`, `World.resolveFraudGroupAppeal` an appeal of one member;
* `World.executeFraudSlash`, `World.executeFraudGroupSlash`      the executions, under the epoch cap.
-/

namespace PRF.Sew
open Table Fallible LongArith

/-! ## the registry -/

def maxSupportedId : ℕ := 2 ^ 256 - 1

def SlashEntry.active (entry : SlashEntry) : Bool :=
  entry.status = .pending || entry.status = .appealed

namespace World
variable (w : World)

def getSlash (slashId : ℕ) : Option SlashEntry := find w.slashes.pending slashId

def putSlash (slashId : ℕ) (entry : SlashEntry) : World :=
  { w with slashes := { w.slashes with pending := put w.slashes.pending slashId entry } }

def allocateSlashId : Except Failure ℕ :=
  if maxSupportedId < w.slashes.nextSlashId then .error .slashIdOutOfRange
  else .ok w.slashes.nextSlashId

/-- `insert-slash`; it refuses by throwing -/
def insertSlash (entry : SlashEntry) : Except Failure World :=
  if maxSupportedId < entry.slashId then .error .slashIdOutOfRange
  else if maxSupportedId < entry.workflowId then .error .slashWorkflowOutOfRange
  else if (w.getSlash entry.slashId).isSome then .error .slashIdExists
  else if (w.slashes.byContext entry.workflowId entry.kind entry.level).isSome then
    .error .slashContextExists
  else .ok
    { w with
      slashes :=
        { w.slashes with
          pending := put w.slashes.pending entry.slashId entry
          byContext := Function.update w.slashes.byContext entry.workflowId
            (Function.update (w.slashes.byContext entry.workflowId) entry.kind
              (Function.update (w.slashes.byContext entry.workflowId entry.kind) entry.level
                (some entry.slashId)))
          nextSlashId := entry.slashId + 1 } }

/-! ## stakes -/

def registerStake (resolver : Address) (amount : ℤ) : Except Failure World :=
  if amount ≤ 0 then .error .invalidStakeAmount
  else if (w.heldStake resolver).AddOverflows (.ofInt amount) then .error .integerOverflow
  else .ok (w.addStake resolver amount (HostInt.ofInt amount).big)

def withdrawStake (resolver : Address) (amount : ℤ) : Except Failure World :=
  if amount ≤ 0 then .error .invalidAmount
  else if w.stake resolver < amount then .error .insufficientStake
  else .ok (w.addStake resolver (-amount) (HostInt.ofInt amount).big)

/-! ## proposals -/

/-- `fraud-slash-workflow-eligible?`; levels above the one of the dispute have no decision -/
def fraudSlashWorkflowEligible (workflowId : ℕ) : Bool :=
  w.disputeActive workflowId || (w.getPending workflowId).isSome
    || (List.range (w.disputeLevel workflowId + 1)).any fun level =>
      (w.disputes.previousDecisions workflowId level).isSome

/-- `active-manual-fraud-slash?`, asked for a number that is read as a slash id and as a workflow -/
def activeManualFraudSlash (id : ℕ) : Bool :=
  (w.getSlash id).any SlashEntry.active
    || w.slashes.pending.any fun e => e.2.workflowId = id && e.2.active

/-- the time a proposal can be appealed -/
def governanceDelay (workflowId : ℕ) : ℤ :=
  (w.getSnapshot workflowId).appealWindowDuration.getD
    (w.config.params.appealWindowDays * w.config.params.tickSeconds)

/-- the deadline of a proposal made now is out of 64 bits -/
def deadlineOverflows (workflowId : ℕ) : Prop :=
  (w.getSnapshot workflowId).appealWindowDuration = none ∧
      (HostInt.ofInt w.config.params.appealWindowDays).MulOverflows
        (.ofInt w.config.params.tickSeconds) ∨
    (HostInt.ofInt w.blockTs).AddOverflows (.ofInt (w.governanceDelay workflowId))

instance (workflowId : ℕ) : Decidable (w.deadlineOverflows workflowId) :=
  inferInstanceAs (Decidable (_ ∧ _ ∨ _))

def offenseCapOverflows (resolver : Address) : Prop :=
  (w.heldStake resolver).MulOverflows (.ofInt w.config.params.maxSlashPerOffenseBps)

instance (resolver : Address) : Decidable (w.offenseCapOverflows resolver) :=
  inferInstanceAs (Decidable (HostInt.MulOverflows _ _))

/-- the entry of `handle-fraud-slashing` -/
def fraudEntry (slashId workflowId : ℕ) (resolver : Address) (amount : ℤ) : SlashEntry where
  slashId := slashId
  workflowId := workflowId
  kind := .fraud
  level := 0
  resolver := some resolver
  amount := amount
  token := some (((w.getTransfer workflowId).map Transfer.token).getD "USDC")
  status := .pending
  proposedAt := w.blockTs
  appealDeadline := w.blockTs + w.governanceDelay workflowId

def proposeFraudSlash (workflowId : ℕ) (caller : Option Address) (resolver : Address)
    (amount : ℤ) : Except Failure World :=
  if caller = none ∨ caller = some "" then .error .missingCallerContext
  else
    match w.getTransfer workflowId with
    | none => .error .invalidWorkflowId
    | some et =>
      if ¬ w.fraudSlashWorkflowEligible workflowId then .error .workflowNotSlashable
      else if w.activeManualFraudSlash workflowId then .error .slashAlreadyPending
      else if amount ≤ 0 then .error .invalidSlashAmount
      else if et.disputeResolver = none ∨ et.disputeResolver = some "" then
        .error .invalidResolverAddr
      else if ¬ (et.disputeResolver = some resolver ∨
          et.resolution.map Resolution.resolvedBy = some resolver) then
        .error .slashResolverMismatch
      else if w.stake resolver ≤ 0 then .error .insufficientResolverStake
      else if (HostInt.ofInt amount).MulOverflows (.ofInt 10000) ∨ w.offenseCapOverflows resolver then
        .error .integerOverflow
      else if w.stake resolver * w.config.params.maxSlashPerOffenseBps < amount * 10000 then
        .error .slashExceedsMaxPerOffense
      else if w.deadlineOverflows workflowId then .error .integerOverflow
      else do
        let slashId ← w.allocateSlashId
        w.insertSlash (w.fraudEntry slashId workflowId resolver amount)

end World

/-! ## allocations -/

/-- a row of a pro-rata request -/
structure AllocationRow where
  id : Address
  requested : ℤ
  weight : ℤ
  cap : ℤ
deriving DecidableEq

/-- `allocate` of the pro-rata package: what is allocated to each row, by its id, as big integers -/
abbrev RowAllocator := ℤ → List AllocationRow → Except Failure (Address → Option ℤ)

/-- `(max 0 (long n))` -/
def longBasis (n : ℤ) : Except Failure ℤ :=
  if Fits n then .ok (max 0 n) else .error .numberTooLarge

/-- the sum of the stakes -/
def totalBasis (members : List Member) : Except Failure ℤ :=
  members.foldlM (fun total m => do
    let basis ← longBasis m.slashableStake
    if Fits (total + basis) then .ok (total + basis) else .error .integerOverflow) 0

/-- how an amount is divided among the members of a group, in their order: what each one pays -/
abbrev GroupAllocator := ℤ → List Member → Except Failure (List (Address × ℤ))

/-- `calculate-sew-slash-allocation`; stakes are both the weights and the caps -/
def calculateSewSlashAllocation (allocate : RowAllocator) : GroupAllocator := fun amount members => do
  let total ← totalBasis members
  if total = 0 then .ok []
  else do
    let byRowId ← allocate amount (members.map fun m =>
      ⟨m.id, amount, max 0 m.slashableStake, max 0 m.slashableStake⟩)
    members.mapM fun m =>
      match byRowId m.id with
      | some paid => .ok (m.id, paid)
      | none => .error .allocationFailure

section
variable (allocate : GroupAllocator) (hash : Distribution → String)

namespace World
variable (w : World)

def snapshotMembers (ids : List Address) : List Member :=
  (ids.map fun id => { id := id, slashableStake := w.stake id : Member }).insertionSort
    fun m n => notAfter m.id n.id

def groupEntry (slashId workflowId : ℕ) (members : List Member) (amount : ℤ) : SlashEntry where
  slashId := slashId
  workflowId := workflowId
  kind := .fraudGroup
  level := 0
  resolver := none
  amount := amount
  token := none
  status := .pending
  proposedAt := w.blockTs
  appealDeadline := w.blockTs + w.governanceDelay workflowId
  members := members

/-- what a member is to pay is above the cap on one offense -/
def overCapped (row : Address × ℤ) : Bool :=
  w.stake row.1 * w.config.params.maxSlashPerOffenseBps < row.2 * 10000

/-- the rows that `(seq (filter over-capped rows))` tests: the filter of a vector works on chunks of
32, up to the one that has its first row -/
def tested (rows : List (Address × ℤ)) : List (Address × ℤ) :=
  rows.take (32 * (rows.findIdx w.overCapped / 32 + 1))

/-- `propose-fraud-group-slash`; `incidentFound` says that the incident reference resolves -/
def proposeFraudGroupSlash (workflowId : ℕ) (caller : Option Address) (ids : List Address)
    (amount : ℤ) (incidentFound : Bool) : Except Failure World :=
  if caller = none ∨ caller = some "" then .error .missingCallerContext
  else
    match w.getTransfer workflowId with
    | none => .error .invalidWorkflowId
    | some et =>
      if ¬ w.fraudSlashWorkflowEligible workflowId then .error .workflowNotSlashable
      else if ¬ incidentFound then .error .fraudIncident
      else if ids = [] then .error .emptyLiableResolvers
      else if ¬ ids.Nodup then .error .duplicateLiableResolver
      else if amount ≤ 0 then .error .invalidSlashAmount
      else if "" ∈ ids then .error .invalidResolverAddr
      else if ¬ ids.any fun id => et.disputeResolver = some id
          || et.resolution.map Resolution.resolvedBy = some id then .error .slashResolverMismatch
      else if ids.any fun id => !w.resolvers.registered id then .error .unregisteredLiableResolver
      else if ids.any fun id => w.stake id ≤ 0 then .error .insufficientResolverStake
      else if w.activeManualFraudSlash workflowId then .error .slashAlreadyPending
      else if w.deadlineOverflows workflowId then .error .integerOverflow
      else do
        let slashId ← w.allocateSlashId
        let members := w.snapshotMembers ids
        let allocations ← allocate amount members
        let proposed ← w.insertSlash (w.groupEntry slashId workflowId members amount)
        -- what a member pays is a big integer, so its own product does not overflow
        if (w.tested allocations).any fun row => w.offenseCapOverflows row.1 then
          .error .integerOverflow
        else if allocations.any w.overCapped then .error .slashExceedsMaxPerOffense
        else .ok proposed

/-! ## appeals -/

/-- `calculate-appeal-bond-amount` for the escrow of a slash -/
def slashAppealBond (workflowId : ℕ) : ℤ :=
  let snap := w.getSnapshot workflowId
  if 0 < snap.appealBondAmount then snap.appealBondAmount
  else
    match w.getTransfer workflowId with
    | some et =>
      if 0 < et.amountAfterFee ∧ 0 < snap.appealBondBps then
        bpsAmount et.amountAfterFee snap.appealBondBps
      else 0
    | none => 0

def appealScope (workflowId slashId : ℕ) (actor : Option Address) : HeldScope where
  workflowId := workflowId
  slashId := some slashId
  actor := actor

def postSlashAppealBond (workflowId slashId : ℕ) (caller : Address) (token : Option Token)
    (amount : ℤ) : Except Failure World :=
  match token with
  | none => .error .missingToken
  | some token =>
    ({ w with
      totals :=
        { w.totals with
          bondsPosted := addAt w.totals.bondsPosted token amount
          bondPostedByWorkflow := addAt w.totals.bondPostedByWorkflow workflowId amount } } :
      World).addHeld token amount .appealBondPosted (appealScope workflowId slashId (some caller))

def setCustody (slashId : ℕ) (custody : Option AppealCustody) : World :=
  { w with
    slashes := { w.slashes with custody := Function.update w.slashes.custody slashId custody } }

def setMemberCustody (slashId : ℕ) (member : Address) (custody : Option AppealCustody) : World :=
  { w with
    slashes :=
      { w.slashes with
        memberCustody := Function.update w.slashes.memberCustody slashId
          (Function.update (w.slashes.memberCustody slashId) member custody) } }

def recordForfeited (token : Token) (amount : ℤ) : World :=
  { w with
    slashes :=
      { w.slashes with
        forfeitedByToken := addAt w.slashes.forfeitedByToken token amount
        forfeitedInsurance := w.slashes.forfeitedInsurance + amount } }

def appealSlash (workflowId : ℕ) (caller : Address) (slashId : ℕ) : Except Failure World :=
  if maxSupportedId < slashId then .error .invalidSlashId
  else
    match w.getSlash slashId with
    | none => .error .slashNotFound
    | some entry =>
      if entry.workflowId ≠ workflowId then .error .slashWorkflowMismatch
      else if entry.status ≠ .pending then .error .slashNotPending
      else if entry.appealDeadline < w.blockTs then .error .appealWindowExpired
      else if entry.resolver ≠ some caller then .error .notResolver
      else
        let token := (w.getTransfer workflowId).map Transfer.token
        let bond := w.slashAppealBond workflowId
        if 0 < bond then
          ((w.putSlash slashId { entry with appealBondHeld := bond, status := .appealed }).setCustody
            slashId (some { resolver := caller, workflowId := workflowId, amount := bond
                            token := token })).postSlashAppealBond workflowId slashId caller token
            bond
        else .ok (w.putSlash slashId { entry with status := .appealed })

def returnSlashAppealBond (workflowId slashId : ℕ) (resolver : Option Address)
    (token : Option Token) (amount : ℤ) : Except Failure World :=
  match token, resolver with
  | some token, some resolver =>
    (w.subHeld token amount .appealBondReturned
      (appealScope workflowId slashId (some resolver))).map fun w =>
        w.recordClaimable workflowId .bondRefund resolver amount
  | _, _ => .error .missingToken

def forfeitSlashAppealBond (workflowId slashId : ℕ) (resolver : Option Address)
    (token : Option Token) (amount : ℤ) : Except Failure World :=
  match token with
  | some token =>
    (w.subHeld token amount .appealBondForfeited
      (appealScope workflowId slashId resolver)).map fun w => w.recordForfeited token amount
  | none => .error .missingToken

/-- `resolve-appeal`; an upheld appeal reverses the slash, a rejected one reopens it -/
def resolveAppeal (workflowId : ℕ) (caller : Option Address) (upheld : Bool) (slashId : ℕ)
    (provenance : Bool) : Except Failure World :=
  if maxSupportedId < slashId then .error .invalidSlashId
  else
    match w.getSlash slashId with
    | none => .error .slashNotFound
    | some entry =>
      if entry.workflowId ≠ workflowId then .error .slashWorkflowMismatch
      else if entry.kind = .fraudGroup then .error .useResolveFraudGroupAppeal
      else if ¬ provenance then .error .missingAuthorizationProvenance
      else if caller = none ∨ caller = some "" then .error .missingCallerContext
      else if entry.status ≠ .appealed then
        .error (if entry.status = .executed then .cannotReverseExecutedSlash else .noActiveAppeal)
      else
        let custody := w.slashes.custody slashId
        let resolver := custody.map AppealCustody.resolver <|> entry.resolver
        let wf := (custody.map AppealCustody.workflowId).getD entry.workflowId
        let token := custody.bind AppealCustody.token <|> entry.token
        let resolved := (w.putSlash slashId
          { entry with
            appealBondHeld := 0
            status := if upheld then .reversed else .pending }).setCustody slashId none
        if token.isNone then .error .missingToken
        else if 0 < entry.appealBondHeld then
          if upheld then
            resolved.returnSlashAppealBond wf slashId resolver token entry.appealBondHeld
          else resolved.forfeitSlashAppealBond wf slashId resolver token entry.appealBondHeld
        else .ok resolved

def appealFraudGroupSlash (workflowId : ℕ) (caller : Address) (slashId : ℕ) :
    Except Failure World :=
  if maxSupportedId < slashId then .error .invalidSlashId
  else
    match w.getSlash slashId with
    | none => .error .slashNotFound
    | some entry =>
      if entry.workflowId ≠ workflowId then .error .slashWorkflowMismatch
      else if entry.kind ≠ .fraudGroup then .error .notFraudGroupSlash
      else if entry.status ≠ .pending then .error .slashNotPending
      else if entry.appealDeadline < w.blockTs then .error .appealWindowExpired
      else if caller ∉ entry.members.map Member.id then .error .notLiableMember
      else if (find entry.appeals caller).isSome then .error .memberAppealAlreadyPending
      else do
        let allocations ← allocate entry.amount entry.members
        let token := (w.getTransfer workflowId).map Transfer.token
        let bond := w.slashAppealBond workflowId
        let appeal : MemberAppeal :=
          { status := .appealed
            allocatedDebit := (find allocations caller).getD 0
            appealBondHeld := bond }
        let appealed := (w.putSlash slashId
          { entry with appeals := put entry.appeals caller appeal }).setMemberCustody slashId caller
          (some { resolver := caller, workflowId := workflowId, amount := bond, token := token })
        if 0 < bond then appealed.postSlashAppealBond workflowId slashId caller token bond
        else .ok appealed

def resolveFraudGroupAppeal (workflowId : ℕ) (caller : Option Address) (member : Address)
    (upheld : Bool) (slashId : ℕ) (provenance : Bool) : Except Failure World :=
  if maxSupportedId < slashId then .error .invalidSlashId
  else
    match w.getSlash slashId with
    | none => .error .slashNotFound
    | some entry =>
      if entry.workflowId ≠ workflowId then .error .slashWorkflowMismatch
      else if entry.kind ≠ .fraudGroup then .error .notFraudGroupSlash
      else if ¬ provenance then .error .missingAuthorizationProvenance
      else if caller = none ∨ caller = some "" then .error .missingCallerContext
      else
        match find entry.appeals member with
        | none => .error .noActiveMemberAppeal
        | some appeal =>
          if appeal.status ≠ .appealed then .error .noActiveMemberAppeal
          else
            let custody := w.slashes.memberCustody slashId member
            let amount := (custody.map AppealCustody.amount).getD 0
            let token := custody.bind AppealCustody.token
            let resolved := (w.putSlash slashId
              { entry with
                appeals := put entry.appeals member
                  { appeal with
                    status := if upheld then .upheld else .rejected
                    appealBondHeld := 0 } }).setMemberCustody slashId member none
            if 0 < amount then
              if upheld then
                resolved.returnSlashAppealBond workflowId slashId (some member) token amount
              else resolved.forfeitSlashAppealBond workflowId slashId (some member) token amount
            else .ok resolved

/-! ## executions -/

/-- `resolver-epoch-state`: the start of the epoch and what was slashed in it -/
def resolverEpochState (resolver : Address) : ℤ × ℤ :=
  let duration := w.config.params.slashEpochDurationSeconds.getD
    (w.config.params.freezeDurationDays * w.config.params.tickSeconds)
  match w.resolvers.epochStart resolver with
  | none => (w.blockTs, w.resolvers.epochSlashed resolver)
  | some start =>
    if duration ≤ w.blockTs - start then (w.blockTs, 0)
    else (start, w.resolvers.epochSlashed resolver)

/-- what was slashed in the epoch, as it is held: what a slash adds is a big integer, the zero of a
new epoch is not -/
def heldEpoch (resolver : Address) : HostInt :=
  let duration := w.config.params.slashEpochDurationSeconds.getD
    (w.config.params.freezeDurationDays * w.config.params.tickSeconds)
  .promote ((w.resolvers.epochStart resolver).any fun start => w.blockTs - start < duration)
    (w.resolverEpochState resolver).2

/-- whether an amount goes above the cap of an epoch; none when a number is out of 64 bits -/
def exceedsEpochCap (resolver : Address) (amount : HostInt) : Option Bool := do
  let total ← (w.heldEpoch resolver).add? amount
  let basis ← (w.heldStake resolver).add? (w.heldEpoch resolver)
  let reached ← total.mul? (.ofInt 10000)
  let allowed ← basis.mul? (.ofInt w.config.params.slashEpochCapBps)
  return decide (allowed.value < reached.value)

def setEpoch (resolver : Address) (start amount : ℤ) : World :=
  { w with
    resolvers :=
      { w.resolvers with
        epochStart := Function.update w.resolvers.epochStart resolver (some start)
        epochSlashed := Function.update w.resolvers.epochSlashed resolver amount } }

def freezeUntil : ℤ :=
  w.blockTs + w.config.params.freezeDurationDays * w.config.params.tickSeconds

def freeze (resolver : Address) (time : ℤ) : World :=
  { w with
    resolvers :=
      { w.resolvers with
        frozenUntil := Function.update w.resolvers.frozenUntil resolver time } }

def resolverHasOtherActiveDisputes (resolver : Option Address) (workflowId : ℕ) : Bool :=
  w.escrows.transfers.any fun e =>
    e.2.escrowState = .disputed && e.2.disputeResolver = resolver && e.1 ≠ workflowId

/-- `execute-fraud-slash`; only the slash of a group has no resolver -/
def executeFraudSlash (workflowId slashId : ℕ) : Except Failure World :=
  if maxSupportedId < slashId then .error .invalidSlashId
  else
    match w.getSlash slashId with
    | none => .error .slashNotFound
    | some entry =>
      if entry.workflowId ≠ workflowId then .error .slashWorkflowMismatch
      else if entry.kind = .fraudGroup then .error .notFraudGroupSlash
      else if entry.status ≠ .pending then
        .error (match entry.status with
          | .appealed => .appealInProgress
          | .reversed | .reversedWithCredit => .slashAlreadyReversed
          | .executed => .alreadyExecuted
          | _ => .unknownStatus)
      else if w.blockTs ≤ entry.appealDeadline then .error .timelockNotExpired
      else if w.resolverHasOtherActiveDisputes entry.resolver workflowId then
        .error .freezeBlockedActiveDispute
      else
        match entry.resolver with
        | none => .error .invalidResolverAddr
        | some resolver =>
          let stake := w.stake resolver
          let epoch := w.resolverEpochState resolver
          match if 0 < stake + epoch.2 then w.exceedsEpochCap resolver (.ofInt entry.amount)
            else some false with
          | none => .error .integerOverflow
          | some true => .error .slashEpochCapExceeded
          | some false => do
            let (w₁, slashed) ← (w.putSlash slashId
              { entry with status := .executed }).slashResolverStake hash resolver entry.amount none
              0 entry.workflowId false
            ((w₁.freeze resolver w.freezeUntil).setEpoch resolver epoch.1
              (epoch.2 + slashed.total)).cleanupOrphanedSlashes hash workflowId

/-- the state of the loop over the members of a group -/
structure GroupExecution where
  world : World
  payments : List Payment := []
  blocked : Bool := false

/-- the payment an earlier execution has recorded for a member -/
def priorPayment (entry : SlashEntry) (id : Address) : Option Payment :=
  (entry.allocation.filter fun p => p.id = id).getLast?

/-- one turn of the loop of `execute-fraud-group-slash`; `amount` is added to what is recorded for
the epoch, whatever epoch that is -/
def payMember (workflowId : ℕ) (entry : SlashEntry) (time : ℤ) (acc : GroupExecution)
    (row : Address × ℤ) : Except Failure GroupExecution :=
  let id := row.1
  let paid := row.2
  match (priorPayment entry id).filter fun p => p.execution = .paid && 0 < p.actualPaid with
  | some prior => .ok { acc with payments := acc.payments ++ [prior] }
  | none =>
    if (find entry.appeals id).any fun a => a.status = .upheld then
      .ok
        { acc with
          payments := acc.payments
            ++ [{ id := id, paid := paid, actualPaid := 0, execution := .stayed }] }
    else
      let w := acc.world
      let stake := w.stake id
      let epoch := w.resolverEpochState id
      match if w.resolverHasOtherActiveDisputes (some id) workflowId ∨ stake < paid then some true
        else w.exceedsEpochCap id (.bigint paid) with
      | none => .error .integerOverflow
      | some true =>
        .ok
          { world := w
            payments := acc.payments
              ++ [{ id := id, paid := paid, actualPaid := 0, execution := .unpaid }]
            blocked := true }
      | some false => do
        let (w₁, _) ← w.slashResolverStake hash id paid none 0 workflowId false
        .ok
          { acc with
            world := (w₁.freeze id time).setEpoch id epoch.1 (w₁.resolvers.epochSlashed id + paid)
            payments := acc.payments
              ++ [{ id := id, paid := paid, actualPaid := paid, execution := .paid }] }

/-- `execute-fraud-group-slash`; the members who are blocked stay unpaid, and the slash pending -/
def executeFraudGroupSlash (workflowId slashId : ℕ) : Except Failure World :=
  if maxSupportedId < slashId then .error .invalidSlashId
  else
    match w.getSlash slashId with
    | none => .error .slashNotFound
    | some entry =>
      if entry.workflowId ≠ workflowId then .error .slashWorkflowMismatch
      else if entry.kind ≠ .fraudGroup then .error .notFraudGroupSlash
      else if entry.status ≠ .pending then
        .error (if entry.status = .executed then .alreadyExecuted else .slashNotPending)
      else if entry.members.any fun m =>
          (find entry.appeals m.id).any fun a => a.status = .appealed then .error .appealInProgress
      else if w.blockTs ≤ entry.appealDeadline then .error .timelockNotExpired
      else do
        let allocations ← allocate entry.amount entry.members
        let done ← allocations.foldlM (payMember hash workflowId entry w.freezeUntil) { world := w }
        (done.world.putSlash slashId
          { entry with
            allocation := done.payments
            status := if done.blocked then .pending else .executed }).cleanupOrphanedSlashes hash
          workflowId

end World

end

end PRF.Sew
