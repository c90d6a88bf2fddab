import ProtocolRobustness.Library.Fallible
import ProtocolRobustness.Library.Runs
import ProtocolRobustness.Resubmission.Disposition

/-!
# The transition of a resubmission chain

`resubmission/transition.clj`: given a state and a command, a result, and nothing is mutated.

* `ChainState`, `emptyState`   the state, and the part of it that is projected for its root;
* `admitChild`                 a receipt is committed under its parent, in the pinned order of the
                               rejections;
* `applyDisposition`, `applyAuthoritativeDisposition`   a signed event changes the lifecycle;
* `applyAction`, `transition`  the dispatch.  A comparison of what is no number throws.

Every index is a map from keys that may be `nil`, and a stored value may be `nil` too.
-/

namespace PRF.Resubmission

/-! ## the state -/

structure IdempotencyEntry (ι : Type*) where
  contentKey : Option ι
  receiptHash : Option ι
deriving DecidableEq

structure ContentEntry (ι : Type*) where
  parentReceiptHash : Option ι
  receiptHash : Option ι
deriving DecidableEq

/-- `sequence` is `none` for what is no integer -/
structure AttemptEntry (ι : Type*) where
  attemptReceipt : Option (Receipt ι)
  sequence : Option ℤ
  parentReceiptHash : Option ι
deriving DecidableEq

/-- the state; `dispositionStatusByReceipt` is `none` while the key is absent -/
structure ChainState (ι : Type*) where
  familyId : ι
  dispositionPublicHex : Option ι
  dispositionAuthorityContext : Option (AuthorityContext ι)
  version : ℤ
  commitIndex : ℤ
  lastHash : Option ι
  head : Option ι
  successorByParent : Option ι → Option (Option ι)
  effectiveDispositionByReceipt : Option ι → Option Lifecycle
  dispositionStatusByReceipt : Option (Option ι → Option Status)
  dispositionHeadByReceipt : Option ι → Option ι
  idempotencyIndex : Option ι → Option (IdempotencyEntry ι)
  contentIndex : Option ι → Option (ContentEntry ι)
  attemptReceipts : Option ι → Option (AttemptEntry ι)

/-- `chain-state-projection` -/
structure Projection (ι : Type*) where
  familyId : ι
  version : ℤ
  commitIndex : ℤ
  head : Option ι
  successorByParent : Option ι → Option (Option ι)
  effectiveDispositionByReceipt : Option ι → Option Lifecycle
  dispositionHeadByReceipt : Option ι → Option ι
  idempotencyIndex : Option ι → Option (IdempotencyEntry ι)
  contentIndex : Option ι → Option (ContentEntry ι)
  dispositionStatusByReceipt : Option (Option ι → Option Status)

/-! ## commands and results -/

/-- the input of `:prf.resubmission/admit-child`.  `sequence` is `none` for what is no number, where
the comparison throws.  Numbers that are no integers are left out: 2.0 passes as 2 does, and `##NaN` is
neither below nor above what is expected. -/
structure AdmitInput (ι : Type*) where
  parentReceiptHash : Option ι
  candidateAttemptReceipt : Option (Receipt ι)
  candidateAttemptReceiptId : Option ι
  idempotencyKey : Option ι
  contentKey : Option ι
  sequence : Option ℤ
  expectedChainVersion : Option ℤ
deriving DecidableEq

/-- the input of `:prf.resubmission/apply-disposition`, and of its authoritative form, which reads
the artifact and the expected head only -/
structure DispositionInput (ι : Type*) where
  attemptReceiptHash : Option ι
  dispositionArtifact : Option (Disposition ι)
  expectedDispositionHead : Option ι
  expectedChainVersion : Option ℤ
deriving DecidableEq

inductive Command (ι : Type*)
  | admitChild (input : AdmitInput ι)
  | applyDisposition (input : DispositionInput ι)
  | applyAuthoritativeDisposition (input : DispositionInput ι)
  | unknown
deriving DecidableEq

inductive Effect (ι : Type*)
  | chainSuccessor (parent child : Option ι)
  | chainHead (familyId : ι) (head : Option ι)
  | chainVersion (familyId : ι) (version : ℤ)
  | idempotencyIndex (key child : Option ι)
  | contentIndex (key child : Option ι)
  | attemptReceipt (receiptId : Option ι)
  | disposition (attemptReceiptHash : Option ι) (status : Option Status)
      (dispositionArtifactHash : ι)
deriving DecidableEq

/-- what a command expected of the chain, or observed -/
inductive Snapshot (ι : Type*)
  | chainHead (head : Option ι) (chainVersion : ℤ)
  | dispositionHead (head : Option ι) (chainVersion : ℤ)
deriving DecidableEq

inductive Action
  | admitChild
  | applyDisposition
  | applyAuthoritativeDisposition
deriving DecidableEq

/-- the part of an ordering record that the transition supplies.  Its scope and its conflict key
are those of the family. -/
structure OrderingInput (ι : Type*) where
  action : Action
  familyId : ι
  expected : Snapshot ι
  observed : Snapshot ι
  inputRoot : ι
deriving DecidableEq

inductive PublicResult (ι : Type*)
  | existing (receiptHash : Option ι)
  | priorParent (parent : Option ι)
  | parentMismatch (mismatch : Option Reason)
  | sequences (sequence expected : ℤ)
  | versions (expected observed : ℤ)
  | previousHeads (expected declared : Option ι)
  | statuses (current next : Option Status)
  | dispositionHeads (expected observed : Option ι)
  | admitted (chainHead : Option ι) (sequence : Option ℤ)
  | disposed (attemptReceiptHash : Option ι) (status : Option Status)
deriving DecidableEq

structure Commit (ι : Type*) where
  state : ChainState ι
  publicResult : PublicResult ι
  effects : List (Effect ι)
  orderingInput : OrderingInput ι

/-- `threw` is an exception of the comparison with what is no number -/
inductive Result (ι : Type*)
  | committed (commit : Commit ι)
  | idempotentReplay (existing : Option ι)
  | rejected (reason : Reason) (publicResult : Option (PublicResult ι))
  | threw

/-! ## roots -/

/-- what `command-input-root` commits to, by action -/
inductive InputBasis (ι : Type*)
  | admitChild (parentReceiptHash candidateAttemptReceiptId idempotencyKey contentKey : Option ι)
  | applyDisposition (attemptReceiptHash dispositionArtifactHash : Option ι)
  | applyAuthoritativeDisposition
      (attemptReceiptHash dispositionArtifactHash parentCheckpointRoot : Option ι)
      (authorityEpoch : Option ℤ)
deriving DecidableEq

/-- the canonical hash in the domains of the transition -/
structure Roots (ι : Type*) extends Crypto ι where
  inputRoot : InputBasis ι → ι
  stateRoot : Projection ι → ι
  effectsRoot : List (Effect ι) → ι

section
variable {ι : Type*}

def emptyState (familyId : ι) (dispositionPublicHex : Option ι) : ChainState ι where
  familyId := familyId
  dispositionPublicHex := dispositionPublicHex
  dispositionAuthorityContext := none
  version := 0
  commitIndex := 0
  lastHash := none
  head := none
  successorByParent := fun _ => none
  effectiveDispositionByReceipt := fun _ => none
  dispositionStatusByReceipt := none
  dispositionHeadByReceipt := fun _ => none
  idempotencyIndex := fun _ => none
  contentIndex := fun _ => none
  attemptReceipts := fun _ => none

/-- `(or (:attempt-receipt/id candidate-attempt-receipt) candidate-attempt-receipt-id)` -/
def AdmitInput.childReceiptHash (input : AdmitInput ι) : Option ι :=
  (input.candidateAttemptReceipt.bind (·.id)).or input.candidateAttemptReceiptId

namespace ChainState
variable (s : ChainState ι)

def projection : Projection ι where
  familyId := s.familyId
  version := s.version
  commitIndex := s.commitIndex
  head := s.head
  successorByParent := s.successorByParent
  effectiveDispositionByReceipt := s.effectiveDispositionByReceipt
  dispositionHeadByReceipt := s.dispositionHeadByReceipt
  idempotencyIndex := s.idempotencyIndex
  contentIndex := s.contentIndex
  dispositionStatusByReceipt := s.dispositionStatusByReceipt

/-- `effective-disposition`: active until a disposition is applied -/
def effectiveDisposition (receiptHash : Option ι) : Lifecycle :=
  (s.effectiveDispositionByReceipt receiptHash).getD .active

/-- `current-disposition-status`, where `none` is `:active` -/
def currentDispositionStatus (receiptHash : Option ι) : Option Status :=
  s.dispositionStatusByReceipt.bind fun m => m receiptHash

end ChainState

def AttemptEntry.eligibleParent (entry : AttemptEntry ι) : Bool :=
  directResubmissionParent entry.attemptReceipt

variable (R : Roots ι)

/-- `command-input-root`: the intent of a command, without its place in the chain -/
def admitInputRoot (input : AdmitInput ι) : ι :=
  R.inputRoot (.admitChild input.parentReceiptHash input.candidateAttemptReceiptId
    input.idempotencyKey input.contentKey)

def dispositionInputRoot (input : DispositionInput ι) : ι :=
  R.inputRoot (.applyDisposition input.attemptReceiptHash
    (input.dispositionArtifact.map (dispositionHash R.toCrypto)))

def authoritativeInputRoot (input : DispositionInput ι) : ι :=
  let artifact := input.dispositionArtifact
  R.inputRoot (.applyAuthoritativeDisposition (artifact.bind (·.attemptReceiptHash))
    (artifact.map (authoritativeDispositionHash R.toCrypto))
    (artifact.bind (·.parentCheckpointRoot)) (artifact.bind (·.authorityEpoch)))

/-- `command-input-root`, which throws on an unsupported action -/
def commandInputRoot : Command ι → Option ι
  | .admitChild input => some (admitInputRoot R input)
  | .applyDisposition input => some (dispositionInputRoot R input)
  | .applyAuthoritativeDisposition input => some (authoritativeInputRoot R input)
  | .unknown => none

/-- `state-root`, which `:transaction/last-hash` and the receipts are no part of -/
def stateRoot (s : ChainState ι) : ι := R.stateRoot s.projection

def effectsRoot (effects : List (Effect ι)) : ι := R.effectsRoot effects

variable [DecidableEq ι]

/-! ## admission -/

/-- the state after a receipt is committed -/
def ChainState.admitted (s : ChainState ι) (input : AdmitInput ι)
    (childReceiptHash parentReceiptHash : Option ι) : ChainState ι :=
  { s with
    version := s.version + 1
    commitIndex := s.commitIndex + 1
    head := childReceiptHash
    successorByParent :=
      Function.update s.successorByParent parentReceiptHash (some childReceiptHash)
    attemptReceipts :=
      Function.update s.attemptReceipts childReceiptHash
        (some ⟨input.candidateAttemptReceipt, input.sequence, parentReceiptHash⟩)
    idempotencyIndex :=
      Function.update s.idempotencyIndex input.idempotencyKey
        (some ⟨input.contentKey, childReceiptHash⟩)
    contentIndex :=
      Function.update s.contentIndex input.contentKey
        (some ⟨parentReceiptHash, childReceiptHash⟩) }

def commitAdmit (s : ChainState ι) (input : AdmitInput ι)
    (childReceiptHash parentReceiptHash : Option ι) : Result ι :=
  .committed
    { state := s.admitted input childReceiptHash parentReceiptHash
      publicResult := .admitted childReceiptHash input.sequence
      effects :=
        [.chainSuccessor parentReceiptHash childReceiptHash,
         .chainHead s.familyId childReceiptHash,
         .chainVersion s.familyId (s.version + 1),
         .idempotencyIndex input.idempotencyKey childReceiptHash,
         .contentIndex input.contentKey childReceiptHash,
         .attemptReceipt childReceiptHash]
      orderingInput :=
        { action := .admitChild
          familyId := s.familyId
          expected := .chainHead parentReceiptHash s.version
          observed := .chainHead parentReceiptHash s.version
          inputRoot := admitInputRoot R input } }

/-- the entry of a key that is not `nil` -/
def ChainState.priorSubmission (s : ChainState ι) (input : AdmitInput ι) :
    Option (IdempotencyEntry ι) :=
  if input.idempotencyKey.isSome then s.idempotencyIndex input.idempotencyKey else none

def AttemptEntry.expectedSequence (parentEntry : AttemptEntry ι) : ℤ :=
  match parentEntry.sequence with
  | some n => n + 1
  | none => 1

/-- the last guard of both actions: the version, where one is expected -/
def ChainState.unlessContended (s : ChainState ι) (expectedChainVersion : Option ℤ)
    (commit : Result ι) : Result ι :=
  match expectedChainVersion with
  | none => commit
  | some v =>
    if v ≠ s.version then .rejected .commitContention (some (.versions v s.version)) else commit

/-- guards 8 to 10: the sequence, the identity of the child, and the version -/
def admitAtHead (s : ChainState ι) (input : AdmitInput ι) (parentEntry : AttemptEntry ι) :
    Result ι :=
  match input.sequence with
  | none => .threw
  | some sequence =>
    let expected := parentEntry.expectedSequence
    if sequence < expected then
      .rejected .sequenceRegression (some (.sequences sequence expected))
    else if expected < sequence then
      .rejected .sequenceGap (some (.sequences sequence expected))
    else if (s.attemptReceipts input.childReceiptHash).isSome then
      .rejected .receiptAlreadyCommitted none
    else if input.childReceiptHash = input.parentReceiptHash then .rejected .cycleDetected none
    else s.unlessContended input.expectedChainVersion
      (commitAdmit R s input input.childReceiptHash input.parentReceiptHash)

/-- guards 5 to 7, under a parent that is stored -/
def admitUnder (s : ChainState ι) (input : AdmitInput ι) (parentEntry : AttemptEntry ι) :
    Result ι :=
  if s.effectiveDisposition input.parentReceiptHash ≠ .active then
    .rejected .parentRejectionNotFinal none
  else if parentEntry.eligibleParent = false then
    let mismatch := resubmissionParentRequirementMismatch parentEntry.attemptReceipt
    .rejected (mismatch.getD .parentRejectionNotResubmittable) (some (.parentMismatch mismatch))
  else if input.parentReceiptHash ≠ s.head then .rejected .parentNotCurrentHead none
  else if (s.successorByParent input.parentReceiptHash).isSome then
    .rejected .parentAlreadyHasSuccessor none
  else admitAtHead R s input parentEntry

/-- guard 5: a first receipt, or one with a parent -/
def admitFresh (s : ChainState ι) (input : AdmitInput ι) : Result ι :=
  if input.parentReceiptHash = none then
    if s.head = none ∧ input.sequence = some 1 then
      commitAdmit R s input input.childReceiptHash none
    else .rejected .initialSequenceMismatch none
  else match s.attemptReceipts input.parentReceiptHash with
    | none => .rejected .previousNotFound none
    | some parentEntry => admitUnder R s input parentEntry

def admitChild (s : ChainState ι) (input : AdmitInput ι) : Result ι :=
  match s.priorSubmission input with
  | some idem =>
    if input.contentKey = idem.contentKey then .idempotentReplay idem.receiptHash
    else .rejected .idempotencyContentMismatch (some (.existing idem.receiptHash))
  | none =>
    match s.contentIndex input.contentKey with
    | some content =>
      if content.parentReceiptHash = input.parentReceiptHash then
        .rejected .duplicateContentSubmission (some (.existing content.receiptHash))
      else .rejected .idempotencyKeyRebound (some (.priorParent content.parentReceiptHash))
    | none => admitFresh R s input

/-! ## dispositions -/

def allowedDispositionTransitions : Option Status → List Status
  | none => [.pendingReview, .final, .withdrawn, .revoked, .superseded]
  | some .pendingReview => [.final, .withdrawn, .revoked, .superseded]
  | some .final => [.withdrawn, .revoked, .superseded]
  | some .withdrawn => []
  | some .revoked => []
  | some .superseded => []

/-- the state after a disposition is committed -/
def ChainState.disposed (s : ChainState ι) (attemptReceiptHash : Option ι) (status : Option Status)
    (dispositionArtifactHash : ι) : ChainState ι :=
  { s with
    version := s.version + 1
    commitIndex := s.commitIndex + 1
    effectiveDispositionByReceipt :=
      Function.update s.effectiveDispositionByReceipt attemptReceiptHash
        (status.map Status.lifecycle)
    dispositionStatusByReceipt :=
      some (Function.update (s.dispositionStatusByReceipt.getD fun _ => none) attemptReceiptHash
        status)
    dispositionHeadByReceipt :=
      Function.update s.dispositionHeadByReceipt attemptReceiptHash
        (some dispositionArtifactHash) }

def commitDisposition (s : ChainState ι) (input : DispositionInput ι) (artifact : Disposition ι) :
    Result ι :=
  let curHead := s.dispositionHeadByReceipt input.attemptReceiptHash
  let hash := dispositionHash R.toCrypto artifact
  .committed
    { state := s.disposed input.attemptReceiptHash artifact.status hash
      publicResult := .disposed input.attemptReceiptHash artifact.status
      effects := [.disposition input.attemptReceiptHash artifact.status hash]
      orderingInput :=
        { action := .applyDisposition
          familyId := s.familyId
          expected := .dispositionHead curHead s.version
          observed := .dispositionHead curHead s.version
          inputRoot := dispositionInputRoot R input } }

/-- the head of the dispositions of a receipt, where one is expected -/
def ChainState.unlessHeadMoved (s : ChainState ι) (attemptReceiptHash : Option ι)
    (expectedDispositionHead : Option ι) (commit : Result ι) : Result ι :=
  match expectedDispositionHead with
  | none => commit
  | some h =>
    let curHead := s.dispositionHeadByReceipt attemptReceiptHash
    if some h ≠ curHead then
      .rejected .dispositionHeadMismatch (some (.dispositionHeads (some h) curHead))
    else commit

/-- the guards on an artifact that is verified -/
def applyVerified (s : ChainState ι) (input : DispositionInput ι) (artifact : Disposition ι) :
    Result ι :=
  let curHead := s.dispositionHeadByReceipt input.attemptReceiptHash
  let current := s.currentDispositionStatus input.attemptReceiptHash
  if input.attemptReceiptHash ≠ artifact.attemptReceiptHash then
    .rejected .dispositionReceiptMismatch none
  else if curHead ≠ artifact.previousDispositionHash then
    .rejected .dispositionPreviousHashMismatch
      (some (.previousHeads curHead artifact.previousDispositionHash))
  else if artifact.status ∉ (allowedDispositionTransitions current).map some then
    .rejected .invalidDispositionTransition (some (.statuses current artifact.status))
  else s.unlessHeadMoved input.attemptReceiptHash input.expectedDispositionHead
    (s.unlessContended input.expectedChainVersion (commitDisposition R s input artifact))

/-- the reason an artifact is not valid for the chain; a chain without an authority context is
local and trusts its configured key -/
def verification (s : ChainState ι) (publicHex : ι) (artifact : Disposition ι) : Option Reason :=
  match s.dispositionAuthorityContext with
  | some authority => verifyAuthorizedDisposition R.toCrypto artifact authority
  | none => verifyDisposition R.toCrypto artifact publicHex

def applyDisposition (s : ChainState ι) (input : DispositionInput ι) : Result ι :=
  if s.attemptReceipts input.attemptReceiptHash = none then .rejected .attemptNotFound none
  else match s.dispositionPublicHex with
    | none => .rejected .dispositionAuthorityNotConfigured none
    | some publicHex =>
      if (s.dispositionAuthorityContext.all fun a => a.publicKey = some publicHex) = false then
        .rejected .dispositionAuthorityContextKeyMismatch none
      else match input.dispositionArtifact with
        | none => .rejected .missingDispositionArtifact none
        | some artifact =>
          match verification R s publicHex artifact with
          | some reason => .rejected reason none
          | none => applyVerified R s input artifact

def applyAuthoritativeDisposition (s : ChainState ι) (input : DispositionInput ι) : Result ι :=
  let attemptReceiptHash := input.dispositionArtifact.bind (·.attemptReceiptHash)
  match s.dispositionAuthorityContext with
  | none => .rejected .noAuthorityContext none
  | some authority =>
    match s.attemptReceipts attemptReceiptHash, input.dispositionArtifact with
    | some _, some artifact =>
      match verifyAuthoritativeDisposition R.toCrypto artifact authority.publicKey with
      | some reason => .rejected reason none
      | none =>
        applyDisposition R s
          { input with
            attemptReceiptHash := attemptReceiptHash
            expectedChainVersion := none }
    | some _, none => .rejected .invalidDispositionSchema none
    | none, _ => .rejected .attemptNotFound none

def applyAction (s : ChainState ι) : Command ι → Result ι
  | .admitChild input => admitChild R s input
  | .applyDisposition input => applyDisposition R s input
  | .applyAuthoritativeDisposition input => applyAuthoritativeDisposition R s input
  | .unknown => .rejected .unknownAction none

/-- a command as a step: the state it commits, or the result that leaves the state as it is -/
def transition (s : ChainState ι) (command : Command ι) : Except (Result ι) (ChainState ι) :=
  match applyAction R s command with
  | .committed c => .ok c.state
  | r => .error r

variable {R}

theorem transition_ok {s s' : ChainState ι} {command : Command ι} :
    transition R s command = .ok s' ↔
      ∃ c, applyAction R s command = .committed c ∧ c.state = s' := by
  unfold transition
  split
  · next c hc => simp [hc]
  · next hno =>
    constructor
    · exact nofun
    · rintro ⟨c, hc, -⟩
      exact absurd hc (hno c)

end

end PRF.Resubmission
