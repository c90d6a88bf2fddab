import ProtocolRobustness.Library.Table

/-!
# Fenced admission: the transitions

`resubmission/admission.clj`: a reservation is authority to publish one candidate under one fence
until its deadline; a finalization publishes it.  The transitions are functions from the state of
one family to the state after and an answer.

* `AdmissionState`, `Reservation`, `Finalization`   the state of a family;
* `terminalizeExpired`, `normalizeState`   what the adapter does before every transition;
* `reserveTransition`, `finalizeTransition`, `withdrawTransition`, `expireTransition`,
  `compactTransition`, `snapshot`.

Values other than `nil` and `false` are of a type `ι`; times are nanoseconds since the epoch.
-/

namespace PRF.Admission

abbrev Instant := ℤ

def admissionStateSchema : String := "resubmission-admission-state.v2"
def reservationLeaseSeconds : ℤ := 120
def maxIdempotencyKeyBytes : ℕ := 512
def maxFamilyIdBytes : ℕ := 512
def maxReservationCount : ℕ := 10000
def longMaxValue : ℕ := 2 ^ 63 - 1

/-- `[:resubmission-family family-id]`, or a value that is no key of a family -/
inductive PartitionKey (ι : Type*)
  | family (id : ι)
  | malformed
deriving DecidableEq

inductive Status
  | active
  | finalized
  | aborted
  | expired
deriving DecidableEq

inductive TerminalReason
  | legacyNoLease
  | leaseExpired
deriving DecidableEq

/-- a reservation, or the tombstone that compaction leaves of it: the keys that are optional here
are dropped from a tombstone, or found only in one -/
structure Reservation (ι : Type*) where
  id : ι
  partitionKey : PartitionKey ι
  fence : ℤ
  snapshotRoot : Option ι
  expectedStateVersion : ℤ
  candidateRoot : ι
  validationRoot : Option ι
  proposedOrderingRoot : Option ι
  idempotencyKey : ι
  issuedAt : Option Instant
  expiresAt : Option Instant
  status : Status
  terminalReason : Option TerminalReason
  root : Option ι
  finalizationRequestRoot : Option ι
  receiptRoot : Option ι
  authorizationEvidenceRoot : Option ι
  signingPayloadRoot : Option ι
deriving DecidableEq

structure Finalization (ι : Type*) where
  requestRoot : ι
  reservationId : ι
  fence : ℤ
  version : ℤ
  head : ι
  receiptRoot : ι
  authorizationEvidenceRoot : ι
  signingPayloadRoot : ι
  candidateRoot : ι
  validationRoot : Option ι
  proposedOrderingRoot : Option ι
deriving DecidableEq

structure AdmissionState (ι : Type*) where
  schema : String
  partitionKey : PartitionKey ι
  fence : ℤ
  version : ℤ
  head : Option ι
  reservations : List (ι × Reservation ι)
  idempotencyIndex : List (ι × Reservation ι)
  candidateIndex : List (ι × Finalization ι)
  finalizations : List (ι × Finalization ι)
deriving DecidableEq

structure Snapshot (ι : Type*) where
  partitionKey : PartitionKey ι
  snapshotRoot : ι
  expectedStateVersion : ℤ
  fence : ℤ
  version : ℤ
  head : Option ι
  schema : String

/-- the request of `reserve!`; the adapter sets the times -/
structure ReserveRequest (ι : Type*) where
  partitionKey : PartitionKey ι
  snapshotRoot : Option ι
  expectedStateVersion : Option ℤ
  idempotencyKey : Option ι
  candidateRoot : Option ι
  validationRoot : Option ι
  proposedOrderingRoot : Option ι
  issuedAt : Option Instant
  expiresAt : Option Instant

/-- the request of `finalize!`; `other` are the keys that only its root depends on -/
structure FinalizeRequest (ι : Type*) where
  partitionKey : PartitionKey ι
  requestRoot : Option ι
  reservationId : Option ι
  fence : Option ℤ
  expectedStateVersion : Option ℤ
  candidateRoot : Option ι
  validationRoot : Option ι
  proposedOrderingRoot : Option ι
  signingPayloadRoot : Option ι
  receiptRoot : Option ι
  authorizationEvidenceRoot : Option ι
  other : Option ι

/-- what the id of a reservation is the root of -/
structure ReservationBinding (ι : Type*) where
  partitionKey : PartitionKey ι
  fence : ℤ
  candidateRoot : ι
  validationRoot : ι
  proposedOrderingRoot : ι
  idempotencyKey : ι
  issuedAt : Instant
  expiresAt : Instant

structure SigningPayload (ι : Type*) where
  partitionKey : PartitionKey ι
  reservationId : ι
  fence : ℤ
  expectedStateVersion : ℤ
  candidateRoot : ι
  validationRoot : Option ι
  proposedOrderingRoot : Option ι

/-- the domain hashes of the contract, and the length of a text in UTF-8 -/
structure AdmissionRoots (ι : Type*) where
  utf8Bytes : ι → Option ℕ
  snapshot : PartitionKey ι → ℤ → Option ι → List (ι × Reservation ι) →
    List (ι × Finalization ι) → ι
  reservationId : ReservationBinding ι → ι
  reservation : Reservation ι → ι
  signing : SigningPayload ι → ι
  finalization : FinalizeRequest ι → ι

/-! ## answers -/

inductive Rejection (ι : Type*)
  | partitionMismatch
  | partitionCapacityExhausted
  | missingReservationBinding
  | inputTooLarge
  | idempotencyConflict (existing : Reservation ι)
  | idempotencyAttemptClosed (existing : Reservation ι)
  | unknownReservation
  | staleFence (current : Option ℤ)
  | reservationNotActive
  | reservationNotExpired
  | finalizationRequestRootMismatch
  | finalizationConflict (finalization : Finalization ι)
  | reservationFenceMismatch
  | stateVersionMismatch (observed : ℤ)
  | reservationBindingMismatch
  | signingPayloadMismatch
  | missingAuthorizationEvidence
  | invalidWithdrawalStatus

/-- an active reservation is named without its fence: it has none under `:concurrency/fence` -/
inductive Contention (ι : Type*)
  | stateVersionMismatch (observed : ℤ)
  | activeReservation (reservationId : ι)

inductive Answer (ι : Type*)
  | rejected (reason : Rejection ι)
  | contention (reason : Contention ι)
  | reserved (reservation : Reservation ι)
  | reservationReplay (reservation : Reservation ι)
  | candidateReplay (existing : Finalization ι)
  | finalized (finalization : Finalization ι)
  | finalizationReplay (finalization : Finalization ι)
  | withdrawn (status : Status) (reservationId : ι)
  | withdrawalReplay (status : Status) (reservationId : ι)
  | compacted
  | snapshot (snapshot : Snapshot ι)
  | resolution (partitionKey : PartitionKey ι) (fence version : ℤ)
      (reservation : Option (Reservation ι)) (finalization : Option (Finalization ι))

section
variable {ι : Type*} [DecidableEq ι]

/-- what an answer hands out: a new reservation -/
def Answer.handed : Answer ι → Option (Reservation ι)
  | .reserved r => some r
  | _ => none

/-- what an answer publishes -/
def Answer.published : Answer ι → Option (Finalization ι)
  | .finalized f => some f
  | _ => none

def emptyPartition (familyId : ι) : AdmissionState ι where
  schema := admissionStateSchema
  partitionKey := .family familyId
  fence := 0
  version := 0
  head := none
  reservations := []
  idempotencyIndex := []
  candidateIndex := []
  finalizations := []

/-! ## expiry -/

def isExpired (r : Reservation ι) (now : Instant) : Bool := r.expiresAt.any (· ≤ now)

def Reservation.terminalized (r : Reservation ι) (now : Instant) : Reservation ι :=
  if r.status = .active ∧ isExpired r now then
    { r with status := .expired, terminalReason := some .leaseExpired }
  else r

def terminalizeExpired (s : AdmissionState ι) (now : Instant) : AdmissionState ι :=
  { s with reservations := s.reservations.map fun e => (e.1, e.2.terminalized now) }

def Reservation.migrated (r : Reservation ι) : Reservation ι :=
  if r.status = .active then
    { r with status := .expired, terminalReason := some .legacyNoLease }
  else r

def normalizeState (s : AdmissionState ι) : AdmissionState ι :=
  if s.schema = admissionStateSchema then s
  else
    { s with
      schema := admissionStateSchema
      reservations := s.reservations.map fun e => (e.1, e.2.migrated) }

def AdmissionState.setReservation (s : AdmissionState ι) (id : ι) (r : Reservation ι) :
    AdmissionState ι :=
  { s with reservations := Table.put s.reservations id r }

def expireTransition (s : AdmissionState ι) (reservationId : ι) (fence : Option ℤ)
    (now : Instant) :
    AdmissionState ι × Answer ι :=
  match Table.find s.reservations reservationId with
  | none => (s, .rejected .unknownReservation)
  | some r =>
    if fence ≠ some s.fence then (s, .rejected (.staleFence none))
    else if r.status = .expired then (s, .withdrawalReplay .expired reservationId)
    else if r.status ≠ .active then (s, .rejected .reservationNotActive)
    else if ¬ isExpired r now then (s, .rejected .reservationNotExpired)
    else
      (s.setReservation reservationId
          { r with status := .expired, terminalReason := some .leaseExpired },
        .withdrawn .expired reservationId)

def withdrawTransition (s : AdmissionState ι) (reservationId : ι) (fence : Option ℤ)
    (status : Status) :
    AdmissionState ι × Answer ι :=
  if ¬ (status = .aborted ∨ status = .expired) then (s, .rejected .invalidWithdrawalStatus)
  else match Table.find s.reservations reservationId with
  | none => (s, .rejected .unknownReservation)
  | some r =>
    if fence ≠ some s.fence then (s, .rejected (.staleFence none))
    else if r.status = status then (s, .withdrawalReplay status reservationId)
    else if r.status ≠ .active then (s, .rejected .reservationNotActive)
    else (s.setReservation reservationId { r with status := status }, .withdrawn status reservationId)

/-! ## compaction -/

/-- the keys that a tombstone keeps, and those of the finalization if there is one -/
def Reservation.tombstone (r : Reservation ι) (f : Option (Finalization ι)) : Reservation ι where
  id := r.id
  partitionKey := r.partitionKey
  fence := r.fence
  snapshotRoot := none
  expectedStateVersion := r.expectedStateVersion
  candidateRoot := r.candidateRoot
  validationRoot := none
  proposedOrderingRoot := none
  idempotencyKey := r.idempotencyKey
  issuedAt := none
  expiresAt := none
  status := r.status
  terminalReason := r.terminalReason
  root := none
  finalizationRequestRoot := f.map (·.requestRoot)
  receiptRoot := f.map (·.receiptRoot)
  authorizationEvidenceRoot := f.map (·.authorizationEvidenceRoot)
  signingPayloadRoot := f.map (·.signingPayloadRoot)

def AdmissionState.compact (s : AdmissionState ι) (id : ι) (r : Reservation ι) : Reservation ι :=
  if r.status = .active then r else r.tombstone (Table.find s.finalizations id)

def compactTransition (s : AdmissionState ι) : AdmissionState ι × Answer ι :=
  ({ s with reservations := s.reservations.map fun e => (e.1, s.compact e.1 e.2) }, .compacted)

variable (H : AdmissionRoots ι)

def snapshot (s : AdmissionState ι) : Snapshot ι where
  partitionKey := s.partitionKey
  snapshotRoot := H.snapshot s.partitionKey s.version s.head s.idempotencyIndex s.candidateIndex
  expectedStateVersion := s.version
  fence := s.fence
  version := s.version
  head := s.head
  schema := s.schema

/-! ## reservation -/

/-- the values a reservation binds, if none is missing -/
def ReserveRequest.binding (q : ReserveRequest ι) (fence : ℤ) : Option (ReservationBinding ι) :=
  q.candidateRoot.bind fun candidateRoot =>
  q.validationRoot.bind fun validationRoot =>
  q.proposedOrderingRoot.bind fun proposedOrderingRoot =>
  q.idempotencyKey.bind fun idempotencyKey =>
  q.issuedAt.bind fun issuedAt =>
  q.expiresAt.map fun expiresAt =>
    ⟨q.partitionKey, fence, candidateRoot, validationRoot, proposedOrderingRoot, idempotencyKey,
      issuedAt, expiresAt⟩

/-- a value that is no text is too large -/
def textBytes (value : ι) : ℕ := (H.utf8Bytes value).getD longMaxValue

def ReservationBinding.tooLarge (b : ReservationBinding ι) : Bool :=
  maxIdempotencyKeyBytes < textBytes H b.idempotencyKey
    || (match b.partitionKey with
        | .family id => maxFamilyIdBytes < textBytes H id
        | .malformed => true)

/-- a reservation without its root -/
def ReservationBinding.unrooted (b : ReservationBinding ι) (snapshotRoot : Option ι)
    (version : ℤ) : Reservation ι where
  id := H.reservationId b
  partitionKey := b.partitionKey
  fence := b.fence
  snapshotRoot := snapshotRoot
  expectedStateVersion := version
  candidateRoot := b.candidateRoot
  validationRoot := some b.validationRoot
  proposedOrderingRoot := some b.proposedOrderingRoot
  idempotencyKey := b.idempotencyKey
  issuedAt := some b.issuedAt
  expiresAt := some b.expiresAt
  status := .active
  terminalReason := none
  root := none
  finalizationRequestRoot := none
  receiptRoot := none
  authorizationEvidenceRoot := none
  signingPayloadRoot := none

def ReservationBinding.reservation (b : ReservationBinding ι) (snapshotRoot : Option ι)
    (version : ℤ) : Reservation ι :=
  let r := b.unrooted H snapshotRoot version
  { r with root := some (H.reservation r) }

def AdmissionState.reserve (s : AdmissionState ι) (r : Reservation ι) : AdmissionState ι :=
  { s with
    fence := r.fence
    reservations := Table.put s.reservations r.id r
    idempotencyIndex := Table.put s.idempotencyIndex r.idempotencyKey r }

/-- a reservation whose values are complete, or what stands in its way -/
def arbitrate (s : AdmissionState ι) (snapshotRoot : Option ι) (b : ReservationBinding ι) :
    AdmissionState ι × Answer ι :=
  match Table.find s.idempotencyIndex b.idempotencyKey with
  | some idem =>
    let latest := (Table.find s.reservations idem.id).getD idem
    if b.candidateRoot ≠ idem.candidateRoot then (s, .rejected (.idempotencyConflict idem))
    else if latest.status = .active then (s, .reservationReplay latest)
    else (s, .rejected (.idempotencyAttemptClosed latest))
  | none =>
    match Table.find s.candidateIndex b.candidateRoot with
    | some existing => (s, .candidateReplay existing)
    | none =>
      match s.reservations.find? fun e => e.2.status = .active with
      | some e => (s, .contention (.activeReservation e.2.id))
      | none =>
        let r := b.reservation H snapshotRoot s.version
        (s.reserve r, .reserved r)

def reserveTransition (s : AdmissionState ι) (q : ReserveRequest ι) :
    AdmissionState ι × Answer ι :=
  if q.partitionKey ≠ s.partitionKey then (s, .rejected .partitionMismatch)
  else if q.expectedStateVersion ≠ some s.version then
    (s, .contention (.stateVersionMismatch s.version))
  else if maxReservationCount ≤ s.reservations.length then
    (s, .rejected .partitionCapacityExhausted)
  else match q.binding (s.fence + 1) with
  | none => (s, .rejected .missingReservationBinding)
  | some b =>
    if b.tooLarge H then (s, .rejected .inputTooLarge) else arbitrate H s q.snapshotRoot b

/-! ## finalization -/

def signingPayload (r : Reservation ι) : SigningPayload ι where
  partitionKey := r.partitionKey
  reservationId := r.id
  fence := r.fence
  expectedStateVersion := r.expectedStateVersion
  candidateRoot := r.candidateRoot
  validationRoot := r.validationRoot
  proposedOrderingRoot := r.proposedOrderingRoot

def finalizationRequestRoot (q : FinalizeRequest ι) : ι :=
  H.finalization { q with requestRoot := none }

def AdmissionState.publish (s : AdmissionState ι) (r : Reservation ι) (f : Finalization ι) :
    AdmissionState ι :=
  { s with
    version := f.version
    head := some f.receiptRoot
    reservations := Table.put s.reservations f.reservationId { r with status := .finalized }
    finalizations := Table.put s.finalizations f.reservationId f
    candidateIndex := Table.put s.candidateIndex f.candidateRoot f }

/-- a request for a reservation that is in the state and not finalized -/
def finalizeReservation (s : AdmissionState ι) (q : FinalizeRequest ι) (id : ι)
    (r : Reservation ι) : AdmissionState ι × Answer ι :=
  if q.fence ≠ some s.fence then (s, .rejected (.staleFence (some s.fence)))
  else if r.status ≠ .active then (s, .rejected .reservationNotActive)
  else if q.fence ≠ some r.fence then (s, .rejected .reservationFenceMismatch)
  else if q.expectedStateVersion ≠ some s.version then
    (s, .rejected (.stateVersionMismatch s.version))
  else if ¬ (q.candidateRoot = some r.candidateRoot ∧ q.validationRoot = r.validationRoot
      ∧ q.proposedOrderingRoot = r.proposedOrderingRoot) then
    (s, .rejected .reservationBindingMismatch)
  else if q.signingPayloadRoot ≠ some (H.signing (signingPayload r)) then
    (s, .rejected .signingPayloadMismatch)
  else match q.receiptRoot, q.authorizationEvidenceRoot with
  | some root, some evidenceRoot =>
    -- the values of the request that were compared with the reservation's are written as these
    let f : Finalization ι :=
      { requestRoot := finalizationRequestRoot H q
        reservationId := id
        fence := s.fence
        version := s.version + 1
        head := root
        receiptRoot := root
        authorizationEvidenceRoot := evidenceRoot
        signingPayloadRoot := H.signing (signingPayload r)
        candidateRoot := r.candidateRoot
        validationRoot := r.validationRoot
        proposedOrderingRoot := r.proposedOrderingRoot }
    (s.publish r f, .finalized f)
  | _, _ => (s, .rejected .missingAuthorizationEvidence)

/-- the key of the request is compared with itself, not with the key of the state; a request
without an id finds no finalization and no reservation -/
def finalizeTransition (s : AdmissionState ι) (q : FinalizeRequest ι) :
    AdmissionState ι × Answer ι :=
  if q.partitionKey ≠ q.partitionKey then (s, .rejected .partitionMismatch)
  else if q.requestRoot.any (· ≠ finalizationRequestRoot H q) then
    (s, .rejected .finalizationRequestRootMismatch)
  else match q.reservationId with
  | none => (s, .rejected .unknownReservation)
  | some id =>
    match Table.find s.finalizations id, Table.find s.reservations id with
    | some f, _ =>
      if finalizationRequestRoot H q = f.requestRoot then (s, .finalizationReplay f)
      else (s, .rejected (.finalizationConflict f))
    | none, none => (s, .rejected .unknownReservation)
    | none, some r => finalizeReservation H s q id r

end

end PRF.Admission
