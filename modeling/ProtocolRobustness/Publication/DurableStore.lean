import ProtocolRobustness.Library.Table
import ProtocolRobustness.Publication.Records

/-!
# The durable store of publications

`pro_rata/postgres_publication_store.clj` over the tables of the migration 0007.  A publication is one
serializable transaction that locks the row of its conflict key, so it is one step here; it is run
again from the start when the database gives up on it, and leaves nothing when it throws.  The columns
hold keys and records as text: the keys and the records here are those that `edn/read-string` reads
back from what was printed of them.

* `PartitionRow`, `Store`        the three tables;
* `lockedPartition`, `lockedPredecessorOrdering`, `semanticSuccessorViolation`, `retainedOrdering`,
  `retainedBinding`              the parts of the transaction;
* `publishApplicationBound`      the transaction, with the checks before it;
* `currentHeadAndVersion`, `resolveOrdering`, `resolveBinding`   what readers see.
-/

namespace PRF.Publication
open Table Fallible

/-! ## the tables -/

structure PartitionRow (κ ι : Type*) where
  conflictKey : κ
  head : Head ι
  headRoot : ι
  storeVersion : ℕ
deriving DecidableEq

/-- partitions under their ids, orderings under their hashes, and bindings under their roots, each
with the hash of its ordering -/
structure Store (κ ι : Type*) where
  partitions : List (ι × PartitionRow κ ι)
  orderings : List (ι × Ordering κ ι)
  bindings : List (ι × (ι × Binding ι))
deriving DecidableEq

def Store.empty {κ ι : Type*} : Store κ ι := ⟨[], [], []⟩

inductive Failure
  | expectedParentRootRequired
  | expectedStoreVersionRequired
  | invalidApplicationBinding
  | durablePrerequisiteUnresolved
  | partitionConflictKeyMismatch
  | lockedPredecessorOrderingInvalid
  | publicationImmutableConflict
  | foreignKeyViolation
deriving DecidableEq

inductive SuccessorViolation
  | previousOrderingRootMismatch
  | stateContinuityMismatch
  | predecessorCommitIndexSequenceMismatch
  | commitIndexSequenceMismatch
deriving DecidableEq

inductive Reply (ι : Type*)
  | parentRootMismatch (expected observed : ι)
  | versionMismatch (expected observed : ℕ)
  | idempotent (head : Head ι) (orderingRoot bindingRoot : ι)
  | rejected (reason : SuccessorViolation)
  | committed (head : Head ι) (orderingRoot bindingRoot : ι)
deriving DecidableEq

/-- the arguments of `publish-application-bound!`; `resolved` holds the bodies that are validated -/
structure Submission (κ ι ε : Type*) where
  ordering : Ordering κ ι
  binding : Binding ι
  resolved : ε
  expectedParentRoot : Option ι
  expectedStoreVersion : Option ℕ

/-- what is validated of the resolved bodies: the other conjuncts of `binding-eligible?`, and that
each of them is retained -/
structure Validation (κ ι ε : Type*) where
  closure : Binding ι → Ordering κ ι → ε → Bool
  durablePrerequisites : ε → Bool

section
variable {κ ι ε : Type} [DecidableEq κ] [DecidableEq ι] (R : Roots κ ι) (V : Validation κ ι ε)

/-! ## the transaction -/

/-- the row of the partition, which is made if there is none -/
def lockedPartition (s : Store κ ι) (conflictKey : κ) :
    Except Failure (Store κ ι × PartitionRow κ ι) :=
  let id := R.partitionId conflictKey
  match find s.partitions id with
  | none =>
    let initial := initialHead R .v2
    let row : PartitionRow κ ι := ⟨conflictKey, initial, initial.headRoot, 0⟩
    .ok ({ s with partitions := put s.partitions id row }, row)
  | some row =>
    if row.conflictKey ≠ conflictKey then .error .partitionConflictKeyMismatch else .ok (s, row)

def lockedPredecessorOrdering (s : Store κ ι) (head : Head ι) :
    Except Failure (Option (Ordering κ ι)) :=
  match head.lastOrderingRoot with
  | none => .ok none
  | some root =>
    match find s.orderings root with
    | some predecessor =>
      if root = predecessor.hash ∧ verifyOrdering R predecessor = none then .ok (some predecessor)
      else .error .lockedPredecessorOrderingInvalid
    | none => .error .lockedPredecessorOrderingInvalid

def semanticSuccessorViolation (head : Head ι) (predecessor : Option (Ordering κ ι))
    (ordering : Ordering κ ι) : Option SuccessorViolation :=
  if head.lastOrderingRoot ≠ ordering.previousTransactionHash then
    some .previousOrderingRootMismatch
  else if predecessor.any fun p => p.stateAfterRoot ≠ ordering.stateBeforeRoot then
    some .stateContinuityMismatch
  else if predecessor.any fun p => (head.sequence : ℤ) ≠ p.commitIndex then
    some .predecessorCommitIndexSequenceMismatch
  else if (head.sequence : ℤ) + 1 ≠ ordering.commitIndex then some .commitIndexSequenceMismatch
  else none

/-- `immutable-insert!` of an ordering under its hash -/
def retainedOrdering (s : Store κ ι) (ordering : Ordering κ ι) : Except Failure (Store κ ι) :=
  match find s.orderings ordering.hash with
  | none => .ok { s with orderings := put s.orderings ordering.hash ordering }
  | some existing =>
    if existing = ordering then .ok s else .error .publicationImmutableConflict

def retainedBinding (s : Store κ ι) (binding : Binding ι) : Except Failure (Store κ ι) :=
  match find s.bindings binding.root with
  | none =>
    if (find s.orderings binding.publicationOrderingRoot).isNone then .error .foreignKeyViolation
    else .ok { s with
      bindings := put s.bindings binding.root (binding.publicationOrderingRoot, binding) }
  | some existing =>
    if existing = (binding.publicationOrderingRoot, binding) then .ok s
    else .error .publicationImmutableConflict

/-- the ordering and the binding are retained, and then the head moves -/
def advance (s : Store κ ι) (conflictKey : κ) (row : PartitionRow κ ι) (ordering : Ordering κ ι)
    (binding : Binding ι) : Except Failure (Store κ ι × Reply ι) := do
  let intended := successorHead R .v2 row.head ordering.hash (some binding.root)
  let s₁ ← retainedOrdering s ordering
  let s₂ ← retainedBinding s₁ binding
  .ok ({ s₂ with
          partitions := put s₂.partitions (R.partitionId conflictKey)
            { row with
              head := intended
              headRoot := intended.headRoot
              storeVersion := row.storeVersion + 1 } },
        .committed intended ordering.hash binding.root)

/-- the transaction on a locked partition -/
def publishLocked (s : Store κ ι) (row : PartitionRow κ ι) (ordering : Ordering κ ι)
    (binding : Binding ι) (expectedParentRoot : ι) (expectedStoreVersion : ℕ) :
    Except Failure (Store κ ι × Reply ι) := do
  let predecessor ← lockedPredecessorOrdering R s row.head
  if expectedParentRoot ≠ row.head.headRoot then
    .ok (s, .parentRootMismatch expectedParentRoot row.head.headRoot)
  else if expectedStoreVersion ≠ row.storeVersion then
    .ok (s, .versionMismatch expectedStoreVersion row.storeVersion)
  else if row.head.applicationBindingRoot = some binding.root
      ∧ row.head.lastOrderingRoot = some ordering.hash then
    .ok (s, .idempotent row.head ordering.hash binding.root)
  else
    match semanticSuccessorViolation row.head predecessor ordering with
    | some reason => .ok (s, .rejected reason)
    | none => advance R s ordering.conflictKey row ordering binding

def publishApplicationBound (s : Store κ ι) (q : Submission κ ι ε) :
    Except Failure (Store κ ι × Reply ι) :=
  match q.expectedParentRoot with
  | none => .error .expectedParentRootRequired
  | some expectedParentRoot =>
    match q.expectedStoreVersion with
    | none => .error .expectedStoreVersionRequired
    | some expectedStoreVersion =>
      if bindingEligible R V.closure q.binding q.ordering q.resolved = false then
        .error .invalidApplicationBinding
      else if V.durablePrerequisites q.resolved = false then .error .durablePrerequisiteUnresolved
      else do
        let (s₁, row) ← lockedPartition R s q.ordering.conflictKey
        publishLocked R s₁ row q.ordering q.binding expectedParentRoot expectedStoreVersion

/-! ## readers -/

/-- `head-valid?` -/
def Head.valid (head : Head ι) : Bool :=
  head.schema = .v2 && head.headRoot = R.head head.toHeadBody

def currentHeadAndVersion (s : Store κ ι) (conflictKey : κ) : Option (Head ι × ℕ) :=
  (find s.partitions (R.partitionId conflictKey)).bind fun row =>
    if row.head.valid R ∧ row.head.headRoot = row.headRoot then some (row.head, row.storeVersion)
    else none

def resolveOrdering (s : Store κ ι) (orderingRoot : ι) : Option (Ordering κ ι) :=
  (find s.orderings orderingRoot).bind fun ordering =>
    if orderingRoot = ordering.hash ∧ verifyOrdering R ordering = none then some ordering else none

def resolveBinding (s : Store κ ι) (bindingRoot : ι) : Option (Binding ι) :=
  (find s.bindings bindingRoot).bind fun (_, binding) =>
    if bindingRoot = binding.root ∧ bindingRoot = R.binding binding.toBindingBody then some binding
    else none

/-- a publication as a reader resolves it -/
structure Resolution (κ ι : Type*) where
  head : Head ι
  binding : Binding ι
  ordering : Ordering κ ι
deriving DecidableEq

/-- `resolve-authoritative-application-publication`: three reads, each of the store as it is then -/
def resolveAuthoritative (atHead atBinding atOrdering : Store κ ι) (conflictKey : κ) :
    Option (Resolution κ ι) := do
  let (head, _) ← currentHeadAndVersion R atHead conflictKey
  let bindingRoot ← head.applicationBindingRoot
  let binding ← resolveBinding R atBinding bindingRoot
  let orderingRoot ← head.lastOrderingRoot
  let ordering ← resolveOrdering R atOrdering orderingRoot
  if head.lastOrderingRoot = some binding.publicationOrderingRoot
      ∧ ordering.hash = binding.publicationOrderingRoot then
    some ⟨head, binding, ordering⟩
  else none

/-! ## runs -/

/-- a publication that throws leaves the store as it was -/
def Store.publish (s : Store κ ι) (q : Submission κ ι ε) :
    Store κ ι × Except Failure (Reply ι) :=
  match publishApplicationBound R V s q with
  | .ok (s', reply) => (s', .ok reply)
  | .error failure => (s, .error failure)

/-- the store after publications, and what each was told -/
def Store.run (s : Store κ ι) :
    List (Submission κ ι ε) → Store κ ι × List (Submission κ ι ε × Except Failure (Reply ι))
  | [] => (s, [])
  | q :: rest =>
    let (s₁, told) := s.publish R V q
    let (s₂, log) := Store.run s₁ rest
    (s₂, (q, told) :: log)

end

end PRF.Publication
