import ProtocolRobustness.Library.CheckedSum

/-!
# The world of the escrow protocol

`sew/types.clj`: the records of an escrow and of the ledgers around it, and what is read off a world.
A map that only answers lookups is a function, with the default of the lookup for absent keys; a map
that is also walked through is the list of its entries.

* `World`      the state, one component for each ledger;
* `Failure`    why an operation is refused;
* `EscrowState.next`   the transition graph, `EscrowState.terminal` its end points.

Amounts, rates in basis points and times are integers; which stakes are held in 64 bits and which as
big integers is kept beside them, since a product of the former may overflow.
-/

namespace PRF.Sew
open Table LongArith

abbrev Address := String
abbrev Token := String

/-- "no resolver assigned" -/
def zeroAddress : Address := "0x0000000000000000000000000000000000000000"

/-! ## escrows -/

inductive EscrowState
  | none | pending | released | refunded | disputed | resolved
deriving DecidableEq

/-- `allowed-transitions` -/
def EscrowState.next : EscrowState → List EscrowState
  | .none => [.pending]
  | .pending => [.disputed, .released, .refunded]
  | .disputed => [.released, .refunded, .resolved]
  | .resolved | .released | .refunded => []

/-- `terminal-states` -/
def EscrowState.terminal (state : EscrowState) : Bool := state.next.isEmpty

inductive Direction
  | released | refunded
deriving DecidableEq

def Direction.state : Direction → EscrowState
  | .released => .released
  | .refunded => .refunded

/-- the direction a decision asks for -/
def direction (isRelease : Bool) : Direction := if isRelease then .released else .refunded

inductive PartyStatus
  | none | agreeToCancel | raiseDispute
deriving DecidableEq

/-- the `:resolution` record of an escrow -/
structure Resolution where
  resolvedBy : Address
  isRelease : Bool
  resolutionHash : String
deriving DecidableEq

/-- `:from` and `:to` are the sender and the recipient -/
structure Transfer where
  token : Token
  sender : Address
  recipient : Address
  amountAfterFee : ℤ
  initialFee : ℤ := 0
  disputeResolver : Option Address := .none
  autoReleaseTime : ℤ := 0
  autoCancelTime : ℤ := 0
  escrowState : EscrowState := .pending
  senderStatus : PartyStatus := .none
  recipientStatus : PartyStatus := .none
  resolution : Option Resolution := .none
  /-- the arbitrator refused to rule: by whom, when, on which hash -/
  refused : Option (Address × ℤ × String) := .none
deriving DecidableEq

inductive YieldPreset
  | off | toSender | toRecipient | split
  | other (name : String)
deriving DecidableEq

structure Settings where
  customResolver : Option Address := .none
  yieldPreset : YieldPreset := .off
  autoReleaseTime : ℤ := 0
  autoCancelTime : ℤ := 0
deriving DecidableEq

/-- a module snapshot, with the values that lookups fall back to -/
structure Snapshot where
  escrowFeeBps : ℤ := 0
  defaultAutoReleaseDelay : ℤ := 0
  defaultAutoCancelDelay : ℤ := 0
  disputeResolver : Option Address := .none
  resolutionModule : Option String := .none
  yieldGenerationModule : Option String := .none
  resolverBondBps : ℤ := 0
  maxDisputeDuration : ℤ := 0
  resolverResponseWindow : ℤ := 0
  appealWindowDuration : Option ℤ := .none
  challengeWindowDuration : ℤ := 0
  reversalSlashBps : ℤ := 0
  challengeBountyBps : ℤ := 0
  appealBondAmount : ℤ := 0
  appealBondBps : ℤ := 0
  challengeBondBps : ℤ := 0
  appealBondProtocolFeeBps : ℤ := 0
  yieldProtocolFeeBps : ℤ := 0
  evidenceWindowDuration : ℤ := 0
deriving DecidableEq

/-- the time a decision can be appealed or challenged -/
def Snapshot.window (snap : Snapshot) : ℤ :=
  max (snap.appealWindowDuration.getD 0) snap.challengeWindowDuration

structure Escrows where
  transfers : List (ℕ × Transfer) := []
  settings : ℕ → Settings := fun _ => {}
  snapshots : ℕ → Snapshot := fun _ => {}
  nextWorkflowId : ℕ := 0
  amountReleased : ℕ → ℤ := fun _ => 0

/-! ## disputes -/

/-- a pending settlement that exists -/
structure Pending where
  isRelease : Bool
  appealDeadline : ℤ
  resolutionHash : String
deriving DecidableEq

inductive SupersedeReason
  | newResolution | escalation | challenge
deriving DecidableEq

structure Superseded where
  pending : Pending
  supersededAt : ℤ
  level : ℕ
  reason : SupersedeReason
deriving DecidableEq

structure Decision where
  resolver : Address
  isRelease : Bool
deriving DecidableEq

structure Rotation where
  previous : Option Address
  next : Address
  time : ℤ
deriving DecidableEq

structure Disputes where
  pending : ℕ → Option Pending := fun _ => .none
  superseded : ℕ → List Superseded := fun _ => []
  timestamps : ℕ → ℤ := fun _ => 0
  levels : ℕ → ℕ := fun _ => 0
  previousDecisions : ℕ → ℕ → Option Decision := fun _ _ => .none
  challengers : ℕ → ℕ → Option Address := fun _ _ => .none
  lastEscalationPerAddr : Address → ℕ → Option ℤ := fun _ _ => .none
  escalationCounts : Address → ℤ := fun _ => 0
  evidenceUpdated : ℕ → Bool := fun _ => false
  rotations : ℕ → List Rotation := fun _ => []

/-! ## custody -/

inductive HeldAccount
  | escrowPrincipal | yieldCustody | appealBond | resolverSlashCustody
deriving DecidableEq

/-- A bond is known by the workflow, the funder and the ordinal its id is written from. -/
structure BondId where
  workflowId : ℕ
  funder : Address
  ordinal : ℕ
deriving DecidableEq

/-- the values that scope a position; slash ids and workflow ids are numbers alike -/
inductive ScopeValue
  | id (n : ℕ)
  | bond (bond : BondId)
  | address (a : Address)
deriving DecidableEq

structure PositionId where
  token : Token
  account : HeldAccount
  scope : List ScopeValue
deriving DecidableEq

/-- the held ledger: what a token has in all, and what each position has -/
structure Held where
  total : Token → ℤ := fun _ => 0
  positions : List (PositionId × ℤ) := []

def Held.position (held : Held) (position : PositionId) : ℤ :=
  (find held.positions position).getD 0

/-! ## running totals and claims -/

structure Totals where
  principalDeposited : Token → ℤ := fun _ => 0
  fees : Token → ℤ := fun _ => 0
  feesWithdrawn : Token → ℤ := fun _ => 0
  feePayouts : Token → Address → ℤ := fun _ _ => 0
  fotFees : Token → ℤ := fun _ => 0
  released : Token → ℤ := fun _ => 0
  refunded : Token → ℤ := fun _ => 0
  withdrawn : Token → ℤ := fun _ => 0
  bondFees : Token → ℤ := fun _ => 0
  bondsPosted : Token → ℤ := fun _ => 0
  bondPostedByWorkflow : ℕ → ℤ := fun _ => 0

inductive ClaimDomain
  | settlementPrincipal | settlementYield | bondRefund | challengeBounty
deriving DecidableEq

structure ClaimKey where
  workflowId : ℕ
  domain : ClaimDomain
  address : Address
deriving DecidableEq

/-- `:claimable-v2` -/
abbrev Claims := List (ClaimKey × ℤ)

def Claims.amount (claims : Claims) (workflowId : ℕ) (domain : ClaimDomain) (address : Address) : ℤ :=
  (find claims ⟨workflowId, domain, address⟩).getD 0

/-! ## appeal bonds -/

inductive BondStatus
  | opened | disposed
deriving DecidableEq

structure BondRecord where
  bondId : BondId
  workflowId : ℕ
  funder : Address
  ordinal : ℕ
  asset : Token
  escalationFromLevel : ℕ
  postedAmount : ℤ
  postingFee : ℤ
  custodiedAmount : ℤ
  remainingCustody : ℤ
  status : BondStatus
deriving DecidableEq

inductive DispositionKind
  | refund | distribution | forfeiture
deriving DecidableEq

inductive DispositionCause
  | appealUpheld | resolutionReversed | explicitForfeit | disputeFinalized
deriving DecidableEq

structure Disposition where
  bondId : BondId
  kind : DispositionKind
  allocations : List (Address × ℤ)
  total : ℤ
  cause : DispositionCause
deriving DecidableEq

structure BondClaim where
  allocated : ℤ
  claimable : ℤ
  claimed : ℤ
  asset : Token
deriving DecidableEq

structure Bonds where
  records : List (BondId × BondRecord) := []
  balances : ℕ → Address → ℤ := fun _ _ => 0
  slashed : ℕ → ℤ := fun _ => 0
  dispositions : List ((BondId × DispositionKind) × Disposition) := []
  claims : BondId → Address → Option BondClaim := fun _ _ => .none

/-! ## slash pools -/

/-- where distributed slashes go; `applied` is keyed by workflow and challenger, 0 and none when
absent -/
structure SlashPools where
  insurance : ℤ := 0
  protocol : ℤ := 0
  retained : ℤ := 0
  applied : ℕ → Option Address → Option String := fun _ _ => .none

/-! ## resolvers -/

structure Capacity where
  maxConcurrent : ℤ
  currentActive : ℤ
deriving DecidableEq

structure Resolvers where
  stakes : Address → ℤ := fun _ => 0
  /-- the stakes that are held as big integers: those that a slash was taken of, for one -/
  bigStakes : Address → Bool := fun _ => false
  /-- the addresses with an entry in `:resolver-stakes` -/
  registered : Address → Bool := fun _ => false
  slashTotal : Address → ℤ := fun _ => 0
  senior : Address → Option Address := fun _ => .none
  reservedCoverage : Address → ℤ := fun _ => 0
  capacities : Address → Option Capacity := fun _ => .none
  frozenUntil : Address → ℤ := fun _ => 0
  epochStart : Address → Option ℤ := fun _ => .none
  epochSlashed : Address → ℤ := fun _ => 0
  slashCredit : Address → ℤ := fun _ => 0

/-! ## slashes -/

inductive SlashKind
  | reversal | forceReversal | fraud | fraudGroup
deriving DecidableEq

inductive SlashStatus
  | pending | appealed | executed | reversed | reversedWithCredit | expiredExecuted
  | expiredCleanedUp
deriving DecidableEq

inductive AppealStatus
  | appealed | upheld | rejected
deriving DecidableEq

structure Member where
  id : Address
  slashableStake : ℤ
deriving DecidableEq

structure MemberAppeal where
  status : AppealStatus
  allocatedDebit : ℤ
  appealBondHeld : ℤ
deriving DecidableEq

inductive ExecutionStatus
  | paid | stayed | unpaid
deriving DecidableEq

structure Payment where
  id : Address
  paid : ℤ
  actualPaid : ℤ
  execution : ExecutionStatus
deriving DecidableEq

structure SlashEntry where
  slashId : ℕ
  workflowId : ℕ
  kind : SlashKind
  level : ℕ
  resolver : Option Address
  amount : ℤ
  token : Option Token
  status : SlashStatus
  proposedAt : ℤ
  appealDeadline : ℤ
  appealBondHeld : ℤ := 0
  actualAmount : Option ℤ := .none
  members : List Member := []
  appeals : List (Address × MemberAppeal) := []
  allocation : List Payment := []
deriving DecidableEq

structure AppealCustody where
  resolver : Address
  workflowId : ℕ
  amount : ℤ
  token : Option Token
deriving DecidableEq

structure Slashes where
  pending : List (ℕ × SlashEntry) := []
  byContext : ℕ → SlashKind → ℕ → Option ℕ := fun _ _ _ => .none
  nextSlashId : ℕ := 0
  history : List (ℕ × SlashEntry) := []
  custody : ℕ → Option AppealCustody := fun _ => .none
  memberCustody : ℕ → Address → Option AppealCustody := fun _ _ => .none
  forfeitedByToken : Token → ℤ := fun _ => 0
  forfeitedInsurance : ℤ := 0

/-! ## yield -/

structure Shortfall where
  basisAmount : ℤ := 0
  fulfilledAmount : ℤ := 0
  deferredAmount : ℤ := 0
  haircutAmount : ℤ := 0
deriving DecidableEq

structure YieldPosition where
  principal : ℤ := 0
  realizedYield : ℤ := 0
  unrealizedYield : ℤ := 0
  lastAccrualTime : Option ℤ := .none
  shortfall : Option Shortfall := .none
deriving DecidableEq

structure Yields where
  modules : List String := []
  positions : ℕ → Option YieldPosition := fun _ => .none

/-! ## configuration -/

/-- `:params`, with the values that lookups fall back to.  `canHandleEscrow` and `withinCase` are the
comparisons of an escrow with a multiple of the stake of its resolver, made in doubles. -/
structure Params where
  insuranceCutBps : ℤ := 5000
  protocolRetainedBps : ℤ := 3000
  maxDisputeLevel : ℤ := 2
  resolverBondBps : ℤ := 0
  canHandleEscrow : ℤ → ℤ → Bool := fun stake amount => amount ≤ stake
  withinCase : ℤ → ℤ → Bool := fun stake amount => amount ≤ 4 * stake
  slashEpochCapBps : ℤ := 2000
  slashEpochDurationSeconds : Option ℤ := .none
  freezeDurationDays : ℤ := 3
  maxSlashPerOffenseBps : ℤ := 5000
  appealWindowDays : ℤ := 7
  tickSeconds : ℤ := 86400

structure Config where
  params : Params := {}
  tokenFotBps : Token → ℕ := fun _ => 0
  tokenLiquidityCrunch : List Token := []
  reentrancyGuard : Bool := false

/-! ## worlds -/

structure World where
  blockTs : ℤ := 0
  config : Config := {}
  escrows : Escrows := {}
  disputes : Disputes := {}
  held : Held := {}
  totals : Totals := {}
  claims : Claims := []
  bonds : Bonds := {}
  pools : SlashPools := {}
  resolvers : Resolvers := {}
  slashes : Slashes := {}
  yields : Yields := {}

/-- `empty-world`, under a configuration -/
def emptyWorld (config : Config) (blockTs : ℤ) : World where
  blockTs := blockTs
  config := config

namespace World
variable (w : World) (workflowId : ℕ)

def getTransfer : Option Transfer := find w.escrows.transfers workflowId
def getSettings : Settings := w.escrows.settings workflowId
def getSnapshot : Snapshot := w.escrows.snapshots workflowId
def getPending : Option Pending := w.disputes.pending workflowId
def escrowState : Option EscrowState := (w.getTransfer workflowId).map Transfer.escrowState
def validWorkflowId : Bool := (w.getTransfer workflowId).isSome
def disputeActive : Bool := w.escrowState workflowId = some .disputed
def terminalState : Bool := (w.escrowState workflowId).any EscrowState.terminal
def disputeLevel : ℕ := w.disputes.levels workflowId
def finalRound : Bool := w.config.params.maxDisputeLevel ≤ w.disputeLevel workflowId
def stake (resolver : Address) : ℤ := w.resolvers.stakes resolver
def heldStake (resolver : Address) : HostInt :=
  .promote (w.resolvers.bigStakes resolver) (w.stake resolver)

end World

/-! ## refusals -/

/-- the errors of the guards, and the exceptions that operations throw -/
inductive Failure
  -- guards
  | invalidWorkflowId | transferNotPending | transferNotInDispute | transferNotFinalized
  | notParticipant | notSender | notRecipient | invalidToken | invalidRecipient
  | tokenLiquidityCrunch
  | amountZero | insufficientModuleLiquidity | cannotSetBothAutoTimes | invalidResolver
  | resolverAtCapacity | resolverCapacityExceeded | resolverFrozen | insufficientResolverStake
  | releaseStrategyNotSet | releaseNotAllowed | amountExceedsBalance | notAuthorizedToCancelYet
  | hasPendingSettlement | disputeTimeoutNotExceeded | autoCancelTimeNotPassed
  | insufficientCustodyPosition | reentrancyGuardViolated | noFeesToWithdraw
  | liquidityInsufficient | noClaimableBalance | noBondToSlash | noBondToReturn
  | resolutionAlreadyPending | invalidNewResolver | resolutionAlreadyRefused
  | notAuthorizedResolver | notAuthorizedFallbackResolver | noPendingSettlement
  | appealWindowNotExpired | yieldPositionUnsettled | escalationNotAllowed
  | noResolutionToChallenge | noResolutionToAppeal | appealWindowExpired
  | escalationNotConfigured | escalationCooldownActive
  | invalidSlashId | slashNotFound | slashWorkflowMismatch | notFraudGroupSlash
  | appealInProgress | slashAlreadyReversed | alreadyExecuted | unknownStatus
  | timelockNotExpired | freezeBlockedActiveDispute | slashEpochCapExceeded
  | missingCallerContext | workflowNotSlashable | slashAlreadyPending | invalidSlashAmount
  | invalidResolverAddr | slashResolverMismatch | slashExceedsMaxPerOffense
  | fraudIncident | emptyLiableResolvers | duplicateLiableResolver | unregisteredLiableResolver
  | slashNotPending | notLiableMember | memberAppealAlreadyPending | noActiveMemberAppeal
  | notResolver | missingAuthorizationProvenance | useResolveFraudGroupAppeal | noActiveAppeal
  | cannotReverseExecutedSlash | evidenceDeadlineExceeded | invalidAmount | insufficientStake
  -- exceptions
  | missingToken | invalidHeldAmount | subHeldUnderflow | subHeldPositionUnderflow
  | unknownAppealBond | appealBondNotOpen | bondTokenMismatch | appealBondConservationFailure
  | ambiguousAppealBond | invalidBondWorkflow | invalidDistribution | missingBountyAward
  | illegalStateTransition | slashContextExists | slashIdExists | slashIdOutOfRange
  | slashWorkflowOutOfRange | numberTooLarge | invalidDeferredYieldCustody | invalidStakeAmount
  | allocationFailure | yieldFailure | regressiveTime | integerOverflow
deriving DecidableEq

end PRF.Sew
