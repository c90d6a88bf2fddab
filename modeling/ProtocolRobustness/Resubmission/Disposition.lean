import Mathlib.Tactic

/-!
# Attempt receipts and dispositions

`resubmission/receipt.clj` and `resubmission/disposition.clj`.  A receipt never changes; what
becomes of its attempt is a list of signed dispositions, each naming the hash of the one before it.

* `directResubmissionParent`   a receipt that may be resubmitted against;
* `Crypto`                     the canonical hash and the signature check, as parameters;
* `verifyDisposition`, `verifyAuthorizedDisposition`, `verifyAuthoritativeDisposition`
                               the reason a disposition is refused, if there is one;
* `effectiveLifecycleStatus`   the lifecycle a list of dispositions gives, read offline.

`nil` and a value outside its vocabulary are both `none`: nothing here tells them apart.
-/

namespace PRF.Resubmission

/-! ## receipts -/

inductive Outcome
  | accepted
  | rejected
  | systemFailure
  | indeterminate
deriving DecidableEq

inductive Finality
  | provisional
  | final
deriving DecidableEq

inductive Eligibility
  | eligible
  | ineligible
  | retrySameAttempt
deriving DecidableEq

inductive Lifecycle
  | active
  | withdrawn
  | revoked
  | superseded
deriving DecidableEq

/-- the keys of a receipt that the chain reads -/
structure Receipt (ι : Type*) where
  id : Option ι
  outcome : Option Outcome
  finality : Option Finality
  resubmissionEligibility : Option Eligibility
  lifecycleStatus : Option Lifecycle
deriving DecidableEq

/-- the reasons the transition and the checks of signatures give -/
inductive Reason
  | submissionAlreadyObserved
  | idempotencyContentMismatch
  | duplicateContentSubmission
  | idempotencyKeyRebound
  | initialSequenceMismatch
  | previousNotFound
  | parentRejectionNotFinal
  | parentNotRejected
  | parentNotResubmittable
  | parentAttemptWithdrawn
  | parentRejectionNotResubmittable
  | parentNotCurrentHead
  | parentAlreadyHasSuccessor
  | sequenceRegression
  | sequenceGap
  | receiptAlreadyCommitted
  | cycleDetected
  | commitContention
  | attemptNotFound
  | dispositionAuthorityNotConfigured
  | dispositionAuthorityContextKeyMismatch
  | missingDispositionArtifact
  | dispositionReceiptMismatch
  | dispositionPreviousHashMismatch
  | invalidDispositionTransition
  | dispositionHeadMismatch
  | noAuthorityContext
  | unknownAction
  | invalidDispositionSchema
  | invalidDispositionStatus
  | missingDispositionSignature
  | invalidDispositionSignature
  | invalidDispositionAuthorityContext
  | dispositionActionNotAuthorized
  | unauthorizedDispositionKey
  | invalidPublicKey
  | invalidDispositionAction
  | unauthorizedSignerKey
  | notAMap
  | badSignatureLength
  | badPubkeyLength
  | badPubkey
  | badSignatureFormat
deriving DecidableEq

section
variable {ι : Type*}

def Receipt.DirectResubmissionParent (r : Receipt ι) : Prop :=
  r.outcome = some .rejected ∧ r.finality = some .final
    ∧ r.resubmissionEligibility = some .eligible ∧ r.lifecycleStatus = some .active

instance (r : Receipt ι) : Decidable r.DirectResubmissionParent :=
  inferInstanceAs (Decidable (_ ∧ _ ∧ _ ∧ _))

/-- `direct-resubmission-parent?`, of `nil` too -/
def directResubmissionParent : Option (Receipt ι) → Bool
  | none => false
  | some r => r.DirectResubmissionParent

/-- `resubmission-parent-requirement-mismatch`: the first dimension that disqualifies -/
def resubmissionParentRequirementMismatch (receipt : Option (Receipt ι)) : Option Reason :=
  if receipt.bind (·.outcome) ≠ some .rejected then some .parentNotRejected
  else if receipt.bind (·.finality) ≠ some .final then some .parentRejectionNotFinal
  else if receipt.bind (·.resubmissionEligibility) ≠ some .eligible then
    some .parentNotResubmittable
  else if receipt.bind (·.lifecycleStatus) ≠ some .active then some .parentAttemptWithdrawn
  else none

end

/-! ## dispositions -/

/-- `disposition-statuses`: events, which are no lifecycle statuses -/
inductive Status
  | pendingReview
  | final
  | withdrawn
  | revoked
  | superseded
deriving DecidableEq

/-- `disposition->lifecycle-status` -/
def Status.lifecycle : Status → Lifecycle
  | .pendingReview => .active
  | .final => .active
  | .withdrawn => .withdrawn
  | .revoked => .revoked
  | .superseded => .superseded

structure Signature (ι : Type*) where
  publicKey : Option ι
  signature : Option String
deriving DecidableEq

/-- an `attempt-disposition`; `body` is the canonical form of the keys nothing here reads -/
structure Disposition (ι : Type*) where
  schema : Option String
  action : Option String
  status : Option Status
  attemptReceiptHash : Option ι
  previousDispositionHash : Option ι
  parentCheckpointRoot : Option ι
  authorityEpoch : Option ℤ
  body : String
  signature : Option (Signature ι)
deriving DecidableEq

/-- `resubmission-disposition-authority-context.v1`: who may sign, once admitted -/
structure AuthorityContext (ι : Type*) where
  contextSchema : Option String
  permittedActions : List String
  publicKey : Option ι
deriving DecidableEq

section
variable {ι : Type*}

/-- `unsigned-disposition-projection` -/
def Disposition.unsigned (d : Disposition ι) : Disposition ι := { d with signature := none }

/-- the canonical hashes of the two kinds of disposition, read on the unsigned projection, and the
check of an Ed25519 signature over its canonical bytes -/
structure Crypto (ι : Type*) where
  hash : Disposition ι → ι
  authoritativeHash : Disposition ι → ι
  verifyBytes : Disposition ι → Option String → ι → Bool

variable (C : Crypto ι)

def dispositionHash (d : Disposition ι) : ι := C.hash d.unsigned
def authoritativeDispositionHash (d : Disposition ι) : ι := C.authoritativeHash d.unsigned

def dispositionSchema : String := "attempt-disposition.v1"
def authorityContextSchema : String := "resubmission-disposition-authority-context.v1"
def authoritativeDispositionSchema : String := "attempt-disposition-authoritative.v2"
def applyDispositionAction : String := "prf.resubmission/apply-disposition"
def authoritativeAction : String := "prf.resubmission/admit"

/-- `verify-disposition`: the reason a disposition is not valid -/
def verifyDisposition (d : Disposition ι) (publicHex : ι) : Option Reason :=
  if d.schema ≠ some dispositionSchema then some .invalidDispositionSchema
  else if d.status = none then some .invalidDispositionStatus
  else match d.signature with
    | none => some .missingDispositionSignature
    | some sig =>
      if C.verifyBytes d.unsigned sig.signature publicHex then none
      else some .invalidDispositionSignature

theorem verifyDisposition_eq_none {d : Disposition ι} {publicHex : ι}
    (h : verifyDisposition C d publicHex = none) :
    d.schema = some dispositionSchema ∧ d.status.isSome := by
  unfold verifyDisposition at h
  split_ifs at h with h₁ h₂
  exact ⟨of_not_not h₁, Option.isSome_iff_ne_none.mpr h₂⟩

variable [DecidableEq ι]

/-- `verify-authorized-disposition`: a supplied key is a claim of the signer, no trust anchor -/
def verifyAuthorizedDisposition (d : Disposition ι) (authority : AuthorityContext ι) :
    Option Reason :=
  let signerKey := d.signature.bind (·.publicKey)
  if authority.contextSchema ≠ some authorityContextSchema then
    some .invalidDispositionAuthorityContext
  else if applyDispositionAction ∉ authority.permittedActions then
    some .dispositionActionNotAuthorized
  else match authority.publicKey with
    | none => some .dispositionAuthorityNotConfigured
    | some publicKey =>
      if signerKey ≠ none ∧ signerKey ≠ some publicKey then some .unauthorizedDispositionKey
      else verifyDisposition C d publicKey

def verifyAuthoritativeDisposition (d : Disposition ι) (expectedPublicHex : Option ι) :
    Option Reason :=
  if d.schema ≠ some authoritativeDispositionSchema then some .invalidDispositionSchema
  else match expectedPublicHex with
    | none => some .invalidPublicKey
    | some hex =>
      if d.action ≠ some authoritativeAction then some .invalidDispositionAction
      else match d.signature with
        | none => some .missingDispositionSignature
        | some sig =>
          if sig.publicKey.getD hex ≠ hex then some .unauthorizedSignerKey
          else if C.verifyBytes d.unsigned sig.signature hex then none
          else some .invalidDispositionSignature

/-- a disposition is valid in one of the two schemas only -/
theorem verifyAuthoritativeDisposition_eq_none {d : Disposition ι} {expectedPublicHex : Option ι}
    (h : verifyAuthoritativeDisposition C d expectedPublicHex = none) :
    d.schema = some authoritativeDispositionSchema := by
  by_contra hschema
  unfold verifyAuthoritativeDisposition at h
  rw [if_pos hschema] at h
  cases h

/-! ## a list of dispositions, the most recent first -/

/-- each names the hash of the one after it -/
def linked : List (Disposition ι) → Bool
  | current :: previous :: rest =>
    current.previousDispositionHash = some (dispositionHash C previous)
      && linked (previous :: rest)
  | _ => true

def validDispositionChain (dispositions : List (Disposition ι)) (attemptReceiptHash : Option ι)
    (verify : Disposition ι → Bool) : Bool :=
  dispositions.all verify
    && dispositions.all (fun d => d.attemptReceiptHash = attemptReceiptHash)
    && linked C dispositions
    && dispositions.getLast?.all (fun d => d.previousDispositionHash = none)

def latestDisposition (dispositions : List (Disposition ι)) (attemptReceiptHash : Option ι)
    (verify : Disposition ι → Bool) : Option (Disposition ι) :=
  if validDispositionChain C dispositions attemptReceiptHash verify then dispositions.head?
  else none

def effectiveLifecycleStatus (dispositions : List (Disposition ι)) (attemptReceiptHash : Option ι)
    (verify : Disposition ι → Bool) : Option Lifecycle :=
  if dispositions = [] then some .active
  else (latestDisposition C dispositions attemptReceiptHash verify).bind fun d =>
    d.status.map Status.lifecycle

end

/-! ## countable artifacts, so that a hash of them can be injective -/

instance countableChar : Countable Char :=
  Function.Injective.countable (f := Char.toNat) fun _ _ h => Char.ext (UInt32.toNat_inj.mp h)

instance countableString : Countable String :=
  Function.Injective.countable (f := String.toList) fun _ _ h => String.toList_inj.mp h

deriving instance Countable for Status
deriving instance Countable for Signature
deriving instance Countable for Disposition

end PRF.Resubmission
