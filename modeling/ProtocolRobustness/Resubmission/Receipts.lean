import ProtocolRobustness.Library.Callers
import ProtocolRobustness.Library.Table
import ProtocolRobustness.Resubmission.Store

/-!
# Receipts that a commit owes

`resubmission/receipt.clj`, `receipt_obligation.clj`, `issuance.clj`, `receipt_worker.clj` and the
part of `store.clj` and `chain.clj` that they meet: an admission is committed with the obligation to
issue a receipt for it, and a worker issues it later.

* `AttemptReceipt`, `verifyReceiptSignature`, `signReceipt`   signed receipts of both schemas;
* `Obligation`, `build`, `Obligation.valid`   what a commit owes;
* `receiptChainJoin`   the check of a receipt against the ordering of the commit;
* `ReceiptJournal`, `admitReceipt`, `prepare`, `markReceiptIssued`   the cell with its obligations, and the
  calls that change it.
-/

set_option linter.unusedSectionVars false

namespace PRF.Resubmission
open CompareAndSet

/-! ## receipts -/

inductive ReceiptSchema
  | v1
  | v2
  | other
deriving DecidableEq

inductive RootStatus
  | verified
  | invalid
  | unavailable
deriving DecidableEq

/-- `none` is what is no text, and what is no status of a root -/
structure RootEntry (ι : Type*) where
  schema : Option ι
  status : Option RootStatus
  hash : Option ι

structure ReceiptRoots (ι : Type*) where
  researchSubject : Option (RootEntry ι)
  executionContext : Option (RootEntry ι)
  results : Option (RootEntry ι)
  submissionBasis : Option (RootEntry ι)

structure SignatureBlock (ι : Type*) where
  ed25519 : Bool
  signature : Option ι

structure Validator (ι : Type*) where
  policyHash : Option ι
  keyId : Option ι
  signature : Option (SignatureBlock ι)

/-- `:attempt-receipt/chain`; a sequence may be a number or another value -/
structure ChainBlock (ι : Type*) where
  admitted : Bool
  familyId : Option ι
  sequence : Option (ℤ ⊕ ι)
  parentReceiptHash : Option ι
  transactionOrderingHash : Option ι

/-- a receipt with what the chain does not read; the outer `none` of the root of its subject is an
absent key, and `other` are the keys that only its hash depends on -/
structure AttemptReceipt (ι : Type*) extends Receipt ι where
  schema : Option ReceiptSchema
  submittedBundleRoot : Option ι
  attemptSubjectRoot : Option (Option ι)
  roots : Option (ReceiptRoots ι)
  validator : Option (Validator ι)
  chain : Option (ChainBlock ι)
  other : Option ι

structure ObligationBody (ι : Type*) where
  schema : String
  transactionOrderingHash : Option ι
  receiptSchema : ReceiptSchema
  subjectSchema : Option String
  attemptSubjectRoot : Option ι
  receiptAuthorityPublicKey : Option ι
  receiptAuthorityKeyId : Option ι

structure Obligation (ι : Type*) extends ObligationBody ι where
  id : ι

/-- the hashes of receipts and obligations, and the signature of the bytes of a receipt -/
structure ReceiptCrypto (ι : Type*) where
  receiptRoot : AttemptReceipt ι → ι
  receiptRootV2 : AttemptReceipt ι → ι
  sign : ι → AttemptReceipt ι → ι
  verifyBytes : AttemptReceipt ι → ι → ι → Bool
  obligationRoot : ObligationBody ι → ι

inductive SignatureReason
  | missingValidatorSignature
  | unsupportedSignatureAlgorithm
  | receiptHashMismatch
  | invalidSignature
deriving DecidableEq

section
variable {ι : Type*}

namespace AttemptReceipt
variable (r : AttemptReceipt ι)

/-- `unsigned-receipt-projection`, of both schemas -/
def unsigned : AttemptReceipt ι :=
  { r with id := none, validator := r.validator.map fun v => { v with signature := none } }

def schemaOf : ReceiptSchema := r.schema.getD .v1

/-- `(get-in receipt [:attempt-receipt/validator :signature])` -/
def signature : Option (SignatureBlock ι) := r.validator.bind (·.signature)

/-- `(get-in receipt [:attempt-receipt/validator :key/id])` -/
def keyId : Option ι := r.validator.bind (·.keyId)

/-- `assoc-in` at the signature of the validator -/
def withSignature (s : ι) : AttemptReceipt ι :=
  { r with
    validator := some { r.validator.getD ⟨none, none, none⟩ with signature := some ⟨true, some s⟩ } }

end AttemptReceipt

def validRootShape (e : Option (RootEntry ι)) : Bool :=
  e.any fun e => e.schema.isSome && e.status.isSome && e.hash.isSome

/-- what both schemas ask of the shape of a receipt -/
def commonShape (r : AttemptReceipt ι) : Bool :=
  r.submittedBundleRoot.isSome && r.outcome.isSome && r.finality.isSome
    && r.resubmissionEligibility.isSome && r.lifecycleStatus.isSome
    && (r.roots.any fun m => validRootShape m.researchSubject && validRootShape m.executionContext
      && validRootShape m.results && validRootShape m.submissionBasis)
    && r.validator.any fun v => v.policyHash.isSome && v.keyId.isSome

variable [DecidableEq ι] (O : OrderingRoots ι) (K : ReceiptCrypto ι)

def validReceiptShape (r : AttemptReceipt ι) : Bool :=
  r.schema = some .v1 && r.attemptSubjectRoot.all (fun x => x.any (O.validSha256Ref ·))
    && commonShape r

def validReceiptV2Shape (r : AttemptReceipt ι) : Bool :=
  r.schema = some .v2 && r.attemptSubjectRoot.any (fun x => x.any (O.validSha256Ref ·))
    && commonShape r

/-- `receipt-hash` and `receipt-hash-v2` -/
def receiptHash (v2 : Bool) (r : AttemptReceipt ι) : ι :=
  if v2 then K.receiptRootV2 r.unsigned else K.receiptRoot r.unsigned

/-- `verify-receipt-signature` and `verify-receipt-signature-v2`, and the dispatch between them -/
def verifyReceiptSignature (r : AttemptReceipt ι) (publicHex : Option ι) : Option SignatureReason :=
  match r.signature with
  | none => some .missingValidatorSignature
  | some s =>
    if s.ed25519 = false then some .unsupportedSignatureAlgorithm
    else if r.id ≠ some (receiptHash K (r.schemaOf = .v2) r) then some .receiptHashMismatch
    else if (s.signature.any fun b => publicHex.any fun k => K.verifyBytes r.unsigned b k) = false
    then some .invalidSignature
    else none

def signedBy (v2 : Bool) (r : AttemptReceipt ι) (privateKey : ι) : AttemptReceipt ι :=
  let signed := r.withSignature (K.sign privateKey r.unsigned)
  { signed with id := some (receiptHash K v2 signed) }

/-- `sign-receipt` and `sign-receipt-v2`, which throws without the root of a subject -/
def signReceipt (v2 : Bool) (r : AttemptReceipt ι) (privateKey : ι) : Option (AttemptReceipt ι) :=
  if v2 && !(r.attemptSubjectRoot.any fun x => x.any (O.validSha256Ref ·)) then none
  else some (signedBy K v2 r privateKey)

/-! ## obligations -/

def obligationSchema : String := "resubmission-receipt-obligation.v1"
def subjectSchema : String := "acceptance-attempt-subject.v1"

def receiptRequired (ordering : Ordering ι) (candidate : AttemptReceipt ι)
    (receiptPublicKey : Option ι) : Bool :=
  ordering.action = some .admitChild && (candidate.schemaOf = .v1 || candidate.schemaOf = .v2)
    && receiptPublicKey.isSome && candidate.keyId.isSome

def obligationBody (ordering : Ordering ι) (candidate : AttemptReceipt ι)
    (receiptPublicKey : Option ι) : ObligationBody ι where
  schema := obligationSchema
  transactionOrderingHash := ordering.hash
  receiptSchema := candidate.schemaOf
  subjectSchema := if candidate.schemaOf = .v2 then some subjectSchema else none
  attemptSubjectRoot := if candidate.schemaOf = .v2 then candidate.attemptSubjectRoot.join else none
  receiptAuthorityPublicKey := receiptPublicKey
  receiptAuthorityKeyId := candidate.keyId

def build (ordering : Ordering ι) (candidate : AttemptReceipt ι) (receiptPublicKey : Option ι) :
    Obligation ι :=
  let body := obligationBody ordering candidate receiptPublicKey
  { body with id := K.obligationRoot body }

def Obligation.valid (o : Obligation ι) : Bool :=
  o.schema = obligationSchema && o.transactionOrderingHash.any (O.validSha256Ref ·)
    && (o.receiptSchema = .v1 || o.receiptSchema = .v2) && o.receiptAuthorityPublicKey.isSome
    && o.receiptAuthorityKeyId.isSome
    && (if o.receiptSchema = .v2 then
          o.subjectSchema = some subjectSchema && o.attemptSubjectRoot.any (O.validSha256Ref ·)
        else o.subjectSchema = none && o.attemptSubjectRoot.isNone)
    && o.id = K.obligationRoot o.toObligationBody

/-- `:receipt-obligation/status`, with what an issued entry keeps -/
inductive Processing (ι : Type*)
  | pending
  | issued (root : Option ι) (receipt : AttemptReceipt ι)

structure Entry (ι : Type*) where
  obligation : Obligation ι
  processing : Processing ι

/-! ## the join with an ordering -/

/-- `:transaction/input`, as far as the join reads it -/
structure InputBlock (ι : Type*) where
  sequence : Option (ℤ ⊕ ι)
  parentReceiptHash : Option ι

inductive JoinReason
  | receiptOrderingBindingMismatch
  | familyInconsistent
  | sequenceInconsistent
  | parentInconsistent
deriving DecidableEq

def receiptBindsOrdering (r : AttemptReceipt ι) (ordering : Ordering ι) : Bool :=
  verifyOrdering O ordering = none && ordering.action = some .admitChild
    && ordering.hash = r.chain.bind (·.transactionOrderingHash) && r.chain.any (·.admitted)

/-- `input` is what the ordering has under `:transaction/input` -/
def receiptChainJoin (r : AttemptReceipt ι) (ordering : Ordering ι)
    (input : Option (InputBlock ι)) : Option JoinReason :=
  if receiptBindsOrdering O r ordering = false then some .receiptOrderingBindingMismatch
  else if ordering.conflictKey ≠ r.chain.bind (·.familyId) then some .familyInconsistent
  else if input.bind (·.sequence) ≠ r.chain.bind (·.sequence) then some .sequenceInconsistent
  else if input.bind (·.parentReceiptHash) ≠ r.chain.bind (·.parentReceiptHash) then
    some .parentInconsistent
  else none

inductive OrderingValue (ι : Type*)
  | text (s : Option String)
  | action (a : Option Action)
  | index (n : Option ℤ)
  | ref (r : Option ι)
  | snapshot (s : Option (Snapshot ι))
  | input (b : InputBlock ι)

/-- an ordering as a map: the ordering input of the transition, and what the store merges into it -/
def Ordering.entries (o : Ordering ι) : List (String × OrderingValue ι) :=
  [("transaction-ordering/schema", .text o.schema), ("transaction/action", .action o.action),
    ("transaction/scope", .text o.scope), ("transaction/conflict-key", .ref o.conflictKey),
    ("transaction/commit-index", .index o.commitIndex),
    ("transaction/previous-transaction-hash", .ref o.previousTransactionHash),
    ("transaction/state-before-root", .ref o.stateBeforeRoot),
    ("transaction/state-after-root", .ref o.stateAfterRoot),
    ("transaction/effects-root", .ref o.effectsRoot),
    ("transaction/expected", .snapshot o.expected), ("transaction/observed", .snapshot o.observed),
    ("transaction/input-root", .ref o.inputRoot),
    ("transaction/change-identity", .ref o.changeIdentity), ("transaction-ordering/hash", .ref o.hash)]

/-- `(:transaction/input ordering)` -/
def Ordering.input (o : Ordering ι) : Option (InputBlock ι) :=
  match Table.find o.entries "transaction/input" with
  | some (.input b) => some b
  | _ => none

theorem Ordering.input_eq_none (o : Ordering ι) : o.input = none := by
  simp [Ordering.input, Ordering.entries, Table.find]

/-! ## the cell -/

/-- the configuration of a store with a receipt authority, or without one -/
structure ReceiptConfig (ι : Type*) extends Config ι where
  receiptPublicHex : Option ι

/-- the cell: `candidates` are the candidate receipts in the commands of the records, under the
hashes of their orderings -/
structure ReceiptJournal (ι : Type*) where
  journal : Journal ι
  candidates : ι → Option (AttemptReceipt ι)
  obligations : List (ι × Entry ι)

def ReceiptJournal.empty : ReceiptJournal ι := ⟨Journal.empty, fun _ => none, []⟩

/-- a request of `admit!` -/
structure AdmitRequest (ι : Type*) where
  candidateAttemptReceipt : Option (AttemptReceipt ι)
  parentReceiptHash : Option ι
  idempotencyKey : Option ι
  basisRoot : Option ι
  sequence : Option ℤ
  expectedChainVersion : Option ℤ

inductive AdmitReason
  | receiptAuthorityNotConfigured
  | invalidCandidateReceipt
  | receiptNotFinal
deriving DecidableEq

/-- the checks of `admit!` before its transaction -/
def admitRefusal (receiptPublicHex : Option ι) (candidate : AttemptReceipt ι) :
    Option AdmitReason :=
  if receiptPublicHex = none then some .receiptAuthorityNotConfigured
  else if validReceiptShape O candidate = false then some .invalidCandidateReceipt
  else if verifyReceiptSignature K candidate receiptPublicHex ≠ none then
    some .invalidCandidateReceipt
  else if candidate.finality ≠ some .final then some .receiptNotFinal
  else none

def admitCommand (q : AdmitRequest ι) (candidate : AttemptReceipt ι) : Command ι :=
  .admitChild
    { parentReceiptHash := q.parentReceiptHash
      candidateAttemptReceipt := some candidate.toReceipt
      candidateAttemptReceiptId := candidate.id
      idempotencyKey := q.idempotencyKey
      contentKey := q.basisRoot
      sequence := q.sequence
      expectedChainVersion := q.expectedChainVersion }

/-- the obligation of a commit, if a receipt is required -/
def obligationOf (receiptPublicHex : Option ι) (candidate : AttemptReceipt ι)
    (ordering : Ordering ι) : Option (Obligation ι) :=
  if receiptRequired ordering candidate receiptPublicHex then
    some (build K ordering candidate receiptPublicHex)
  else none

/-- the store as it serves the admission of a candidate -/
def ReceiptConfig.serving (cfg : ReceiptConfig ι) (candidate : AttemptReceipt ι) : Config ι :=
  { cfg.toConfig with
    obligationValid := fun ordering _ =>
      (obligationOf K cfg.receiptPublicHex candidate ordering).all fun o => o.valid O K }

/-- the cell after the commit of an admission -/
def ReceiptJournal.commit (J : ReceiptJournal ι) (journal : Journal ι) (ordering : Ordering ι)
    (candidate : AttemptReceipt ι) (obligation : Option (Obligation ι)) : ReceiptJournal ι where
  journal := journal
  candidates :=
    match ordering.hash with
    | some hash => Function.update J.candidates hash (some candidate)
    | none => J.candidates
  obligations :=
    match obligation with
    | some o => Table.put J.obligations o.id ⟨o, .pending⟩
    | none => J.obligations

inductive ReceiptAnswer (ι : Type*)
  | refused (reason : AdmitReason)
  | transaction (a : Answer ι)
  | notFound
  | invalidObligation
  | idempotent (receipt : AttemptReceipt ι)
  | unavailable
  | committedTransactionInvalid (errors : List RecordError)
  | candidateShapeInvalid
  | candidateIdCommandMismatch
  | candidateIdRecomputationMismatch
  | candidateSignatureInvalid (reason : SignatureReason)
  | joinInvalid (reason : JoinReason)
  | threw
  | issuedReceiptVerificationFailed (reason : SignatureReason)
  | signed (receipt : AttemptReceipt ι)
  | issued (entry : Entry ι)
  | alreadyIssued (entry : Entry ι)
  | conflict (entry : Entry ι)

/-- one turn of the transaction of `admit!` -/
def admitTransaction (cfg : ReceiptConfig ι) (q : AdmitRequest ι) (candidate : AttemptReceipt ι)
    (J : ReceiptJournal ι) : CompareAndSet.Outcome (ReceiptJournal ι) (ReceiptAnswer ι) :=
  match transact O (cfg.serving O K candidate) ⟨admitCommand q candidate, none⟩ J.journal with
  | .write journal (.committed c ordering) =>
    .write
      (J.commit journal ordering candidate (obligationOf K cfg.receiptPublicHex candidate ordering))
      (.transaction (.committed c ordering))
  | .write journal a => .write { J with journal := journal } (.transaction a)
  | .answer a => .answer (.transaction a)

def admitReceipt (cfg : ReceiptConfig ι) (q : AdmitRequest ι) (J : ReceiptJournal ι) :
    CompareAndSet.Outcome (ReceiptJournal ι) (ReceiptAnswer ι) :=
  match q.candidateAttemptReceipt with
  | none =>
    .answer (.refused (if cfg.receiptPublicHex = none then .receiptAuthorityNotConfigured
      else .invalidCandidateReceipt))
  | some candidate =>
    match admitRefusal O K cfg.receiptPublicHex candidate with
    | some reason => .answer (.refused reason)
    | none => admitTransaction O K cfg q candidate J

/-- the transaction of a disposition, which has no candidate -/
def dispose (cfg : ReceiptConfig ι) (input : DispositionInput ι) (J : ReceiptJournal ι) :
    CompareAndSet.Outcome (ReceiptJournal ι) (ReceiptAnswer ι) :=
  match transact O { cfg.toConfig with obligationValid := fun _ _ => true }
      ⟨.applyDisposition input, none⟩ J.journal with
  | .write journal a => .write { J with journal := journal } (.transaction a)
  | .answer a => .answer (.transaction a)

def markReceiptIssued (obligationId : ι) (signed : AttemptReceipt ι) (J : ReceiptJournal ι) :
    CompareAndSet.Outcome (ReceiptJournal ι) (ReceiptAnswer ι) :=
  match Table.find J.obligations obligationId with
  | none => .answer .notFound
  | some ⟨o, .pending⟩ =>
    let entry : Entry ι := ⟨o, .issued signed.id signed⟩
    .write { J with obligations := Table.put J.obligations obligationId entry } (.issued entry)
  | some ⟨o, .issued root receipt⟩ =>
    if root = signed.id then .answer (.alreadyIssued ⟨o, .issued root receipt⟩)
    else .answer (.conflict ⟨o, .issued root receipt⟩)

/-! ## the worker -/

def receiptFromCommit (candidate : AttemptReceipt ι) (ordering : Ordering ι) : AttemptReceipt ι :=
  { candidate.unsigned with
    schema := some candidate.schemaOf
    chain := some
      { candidate.chain.getD ⟨false, none, none, none, none⟩ with
        admitted := true
        transactionOrderingHash := ordering.hash } }

/-- `authenticate-candidate`: the reason a candidate is not authentic, if there is one -/
def authenticateCandidate (candidate : AttemptReceipt ι) (committedCandidateId : Option ι)
    (publicHex : Option ι) : Option (ReceiptAnswer ι) :=
  let v2 : Bool := candidate.schemaOf = .v2
  if (if v2 then validReceiptV2Shape O candidate else validReceiptShape O candidate) = false then
    some .candidateShapeInvalid
  else if committedCandidateId ≠ candidate.id then some .candidateIdCommandMismatch
  else if committedCandidateId ≠ some (receiptHash K v2 candidate) then
    some .candidateIdRecomputationMismatch
  else (verifyReceiptSignature K candidate publicHex).map .candidateSignatureInvalid

/-- `(:candidate-attempt-receipt-id command-input)`, or the id of the candidate -/
def Command.candidateId (command : Command ι) (candidate : AttemptReceipt ι) : Option ι :=
  match command with
  | .admitChild input => input.candidateAttemptReceiptId.or candidate.id
  | _ => candidate.id

/-- the receipt for a candidate that is authentic -/
def issueReceipt (o : Obligation ι) (candidate : AttemptReceipt ι) (ordering : Ordering ι)
    (input : Option (InputBlock ι)) (privateKey : ι) : ReceiptAnswer ι :=
  let receipt := receiptFromCommit candidate ordering
  match receiptChainJoin O receipt ordering input with
  | some reason => .joinInvalid reason
  | none =>
    match signReceipt O K (o.receiptSchema = .v2) receipt privateKey with
    | none => .threw
    | some signed =>
      match verifyReceiptSignature K signed o.receiptAuthorityPublicKey with
      | some reason => .issuedReceiptVerificationFailed reason
      | none => .signed signed

/-- `reconstruct` up to its call of `mark-receipt-issued!`, where what an ordering has under
`:transaction/input` is a parameter -/
def prepareWith (inputOf : Ordering ι → Option (InputBlock ι)) (obligationId privateKey : ι)
    (J : ReceiptJournal ι) : ReceiptAnswer ι :=
  match Table.find J.obligations obligationId with
  | none => .notFound
  | some entry =>
    if entry.obligation.valid O K = false then .invalidObligation
    else match entry.processing with
    | .issued _ receipt => .idempotent receipt
    | .pending =>
      match entry.obligation.transactionOrderingHash.bind J.journal.committedTransactions with
      | none => .unavailable
      | some record =>
        if validateRecord O record ≠ [] then
          .committedTransactionInvalid (validateRecord O record)
        else match entry.obligation.transactionOrderingHash.bind J.candidates with
        | none => .candidateShapeInvalid
        | some candidate =>
          match authenticateCandidate O K candidate (record.command.candidateId candidate)
              entry.obligation.receiptAuthorityPublicKey with
          | some refusal => refusal
          | none => issueReceipt O K entry.obligation candidate record.ordering
              (inputOf record.ordering) privateKey

def prepare (obligationId privateKey : ι) (J : ReceiptJournal ι) : ReceiptAnswer ι :=
  prepareWith O K Ordering.input obligationId privateKey J

/-- `reconstruct` without another call in between -/
def reconstruct (obligationId privateKey : ι) (J : ReceiptJournal ι) :
    CompareAndSet.Outcome (ReceiptJournal ι) (ReceiptAnswer ι) :=
  match prepare O K obligationId privateKey J with
  | .signed receipt => markReceiptIssued obligationId receipt J
  | a => .answer a

/-! ## calls -/

/-- `reconstruct` reads and signs, and then calls `mark-receipt-issued!` as any other call does -/
inductive ReceiptCall (ι : Type*)
  | admitReceipt (request : AdmitRequest ι)
  | dispose (input : DispositionInput ι)
  | prepare (obligationId privateKey : ι)
  | mark (obligationId : ι) (signed : AttemptReceipt ι)

def attemptCall (cfg : ReceiptConfig ι) :
    ReceiptCall ι → ReceiptJournal ι → CompareAndSet.Outcome (ReceiptJournal ι) (ReceiptAnswer ι)
  | .admitReceipt q, J => admitReceipt O K cfg q J
  | .dispose input, J => dispose O cfg input J
  | .prepare id key, J => .answer (prepare O K id key J)
  | .mark id signed, J => markReceiptIssued id signed J

end

end PRF.Resubmission
