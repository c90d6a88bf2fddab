import ProtocolRobustness.Resubmission.Transition

/-!
# The transition in Rust

`etc/conformance/rust/verify/src/transition.rs`, on the states and commands of the Clojure side with
strings for ids.  A key that is no string reads as absent, and an absent content key is stored as
the empty string.  A keyword is read by its name alone, in `map_get` and as a status: its namespace does
not count.

* `Dalek`                      the hex decoder and the checks of `ed25519_dalek`, as parameters;
* `verifyDispositionInternal`  the check of a disposition;
* `Rust.admitChild`, `Rust.applyDisposition`   the two actions;
* `Rust.isAllowedTransition`   the table of transitions, as it stands there.
-/

namespace PRF.Resubmission.Rust

/-! ## signatures -/

/-- `hex_to_bytes`, `none` where it panics, and what is asked of the bytes -/
structure Dalek where
  hexToBytes : String → Option (List UInt8)
  verifyingKey : List UInt8 → Bool
  signatureFormat : List UInt8 → Bool
  verify : Disposition String → List UInt8 → List UInt8 → Bool

inductive Verification
  | ok
  | refused (reason : Reason)
  | panicked
deriving DecidableEq

section
variable (D : Dalek) (R : Roots String)

/-- the bytes of a signature and of a key, checked in the order of the source -/
def checkSignature (unsigned : Disposition String) (sigHex pubHex : String) : Verification :=
  match D.hexToBytes sigHex with
  | none => .panicked
  | some sigBytes =>
    if sigBytes.length ≠ 64 then .refused .badSignatureLength
    else match D.hexToBytes pubHex with
      | none => .panicked
      | some pubBytes =>
        if pubBytes.length ≠ 32 then .refused .badPubkeyLength
        else if D.verifyingKey pubBytes = false then .refused .badPubkey
        else if D.signatureFormat sigBytes = false then .refused .badSignatureFormat
        else if D.verify unsigned sigBytes pubBytes then .ok
        else .refused .invalidDispositionSignature

/-- `verify_disposition_internal` of a map -/
def verifyDispositionInternal (d : Disposition String) (pubHex : String) : Verification :=
  if d.schema ≠ some dispositionSchema then .refused .invalidDispositionSchema
  else if d.status = none then .refused .invalidDispositionStatus
  else match d.signature.bind (·.signature) with
    | none => .refused .missingDispositionSignature
    | some sigHex => checkSignature D d.unsigned sigHex pubHex

/-! ## admission -/

/-- the state after a receipt is committed; keys that are absent are not indexed -/
def admitted (s : ChainState String) (input : AdmitInput String) (childHash : String)
    (parentHash : Option String) : ChainState String :=
  { s with
    lastHash := none
    dispositionAuthorityContext := none
    version := s.version + 1
    commitIndex := s.commitIndex + 1
    head := some childHash
    successorByParent := Function.update s.successorByParent parentHash (some (some childHash))
    attemptReceipts :=
      Function.update s.attemptReceipts (some childHash)
        (some ⟨input.candidateAttemptReceipt, some (input.sequence.getD 0), parentHash⟩)
    idempotencyIndex :=
      match input.idempotencyKey with
      | some key =>
        Function.update s.idempotencyIndex (some key)
          (some ⟨some (input.contentKey.getD ""), some childHash⟩)
      | none => s.idempotencyIndex
    contentIndex :=
      match input.contentKey with
      | some key =>
        Function.update s.contentIndex (some key) (some ⟨parentHash, some childHash⟩)
      | none => s.contentIndex }

def commitAdmit (s : ChainState String) (input : AdmitInput String) (childHash : String)
    (parentHash : Option String) : Result String :=
  .committed
    { state := admitted s input childHash parentHash
      publicResult := .admitted (some childHash) (some (input.sequence.getD 0))
      effects :=
        [.chainSuccessor parentHash (some childHash),
         .chainHead s.familyId (some childHash),
         .chainVersion s.familyId (s.version + 1),
         .idempotencyIndex input.idempotencyKey (some childHash),
         .contentIndex input.contentKey (some childHash),
         .attemptReceipt (some childHash)]
      orderingInput :=
        { action := .admitChild
          familyId := s.familyId
          expected := .chainHead parentHash s.version
          observed := .chainHead parentHash s.version
          inputRoot := admitInputRoot R input } }

def candidateId (input : AdmitInput String) : String := input.candidateAttemptReceiptId.getD ""

/-- after the first submission guards: the parent is stored and is the head -/
def admitFresh (s : ChainState String) (input : AdmitInput String) : Result String :=
  match input.parentReceiptHash with
  | none =>
    if s.head = none ∧ input.sequence.getD 0 = 1 then
      commitAdmit R s input (candidateId input) none
    else .rejected .initialSequenceMismatch none
  | some parent =>
    if s.attemptReceipts (some parent) = none then .rejected .previousNotFound none
    else if s.head ≠ some parent then .rejected .parentNotCurrentHead none
    else commitAdmit R s input (candidateId input) (some parent)

/-- an entry of the content index, for a key that is there -/
def priorContent (s : ChainState String) (input : AdmitInput String) :
    Option (ContentEntry String) :=
  if input.contentKey.isSome then s.contentIndex input.contentKey else none

def admitChild (s : ChainState String) (input : AdmitInput String) : Result String :=
  match s.priorSubmission input with
  | some idem =>
    if idem.contentKey.getD "" = input.contentKey.getD "" then .idempotentReplay idem.receiptHash
    else .rejected .idempotencyContentMismatch (some (.existing idem.receiptHash))
  | none =>
    match priorContent s input with
    | some content =>
      if content.parentReceiptHash = input.parentReceiptHash then
        .rejected .duplicateContentSubmission (some (.existing content.receiptHash))
      else .rejected .idempotencyKeyRebound (some (.priorParent content.parentReceiptHash))
    | none => admitFresh R s input

/-! ## dispositions -/

/-- `is_allowed_transition`, where `none` is `"active"` before and no status after -/
def isAllowedTransition : Option Status → Option Status → Bool
  | none, some .pendingReview => true
  | none, some .final => true
  | some .pendingReview, some .final => true
  | some .final, some .withdrawn => true
  | some .final, some .revoked => true
  | some .final, some .superseded => true
  | some .superseded, some .final => true
  | _, _ => false

def commitDisposition (s : ChainState String) (input : DispositionInput String)
    (artifact : Disposition String) : Result String :=
  let curHead := s.dispositionHeadByReceipt input.attemptReceiptHash
  let hash := dispositionHash R.toCrypto artifact
  .committed
    { state := s.disposed input.attemptReceiptHash artifact.status hash
      publicResult := .disposed input.attemptReceiptHash artifact.status
      effects := [.disposition input.attemptReceiptHash artifact.status hash]
      orderingInput :=
        { action := .applyDisposition
          familyId := s.familyId
          expected := .dispositionHead input.expectedDispositionHead s.version
          observed := .dispositionHead curHead s.version
          inputRoot := dispositionInputRoot R input } }

/-- a version that is expected is not the current one -/
def contended (s : ChainState String) (input : DispositionInput String) : Bool :=
  input.expectedChainVersion.any fun v => v ≠ s.version

/-- a head that is expected is not the current one -/
def headMoved (s : ChainState String) (input : DispositionInput String) : Bool :=
  input.expectedDispositionHead.any fun h =>
    some h ≠ s.dispositionHeadByReceipt input.attemptReceiptHash

/-- an expected version is compared before an expected head -/
def applyVerified (s : ChainState String) (input : DispositionInput String)
    (artifact : Disposition String) : Result String :=
  let curHead := s.dispositionHeadByReceipt input.attemptReceiptHash
  let current := s.currentDispositionStatus input.attemptReceiptHash
  if artifact.attemptReceiptHash ≠ input.attemptReceiptHash then
    .rejected .dispositionReceiptMismatch none
  else if curHead ≠ artifact.previousDispositionHash then
    .rejected .dispositionPreviousHashMismatch none
  else if isAllowedTransition current artifact.status = false then
    .rejected .invalidDispositionTransition (some (.statuses current artifact.status))
  else if contended s input then .rejected .commitContention none
  else if headMoved s input then .rejected .dispositionHeadMismatch none
  else commitDisposition R s input artifact

/-- a missing artifact is a panic, after the guards on the receipt and on the key -/
def applyDisposition (s : ChainState String) (input : DispositionInput String) : Result String :=
  if (input.attemptReceiptHash.any fun h => (s.attemptReceipts (some h)).isSome) = false then
    .rejected .attemptNotFound none
  else match s.dispositionPublicHex with
    | none => .rejected .dispositionAuthorityNotConfigured none
    | some publicHex =>
      match input.dispositionArtifact with
      | none => .threw
      | some artifact =>
        match verifyDispositionInternal D artifact publicHex with
        | .panicked => .threw
        | .refused reason => .rejected reason none
        | .ok => applyVerified R s input artifact

end

end PRF.Resubmission.Rust
