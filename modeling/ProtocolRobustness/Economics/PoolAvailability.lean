import ProtocolRobustness.Canonical.Compare
import ProtocolRobustness.Library.Datum
import ProtocolRobustness.Library.Fallible
import ProtocolRobustness.Library.CheckedSum

/-!
# Pool snapshots and reservations

`economics/pool_availability.clj`.  A map is a record with an option for each of its known keys, the
key being absent where it is `none`, and the names of its other keys.

* `buildPoolAvailability`, `verifyPoolAvailability`   a snapshot, and the check of one;
* `buildReservation`, `verifyReservation`             a reservation against a snapshot;
* `poolAfterReservation`                              the successor of a snapshot.

An amount is an integer of the host, in 64 bits or big; the hashes of a map, which may throw, and the
comparison of two times are parameters.
-/

namespace PRF.PoolAvailability
open LongArith Fallible

/-! ## maps -/

/-- a source map or an artifact -/
structure PoolMap where
  artifactType : Option String
  id : Option Datum
  kind : Option Datum
  ownerId : Option Datum
  stateRoot : Option Datum
  policyRoot : Option Datum
  snapshotTime : Option Datum
  grossAmount : Option HostInt
  reservedAmount : Option HostInt
  protectedAmount : Option HostInt
  availableAmount : Option HostInt
  liabilityRoots : Option (List String)
  reservationRoots : Option (List String)
  predecessorHash : Option Datum
  artifactHash : Option String
  unknown : List String
deriving DecidableEq

structure ReservationMap where
  artifactType : Option String
  id : Option Datum
  poolRoot : Option Datum
  amount : Option HostInt
  purposeRoot : Option Datum
  artifactHash : Option String
  unknown : List String
deriving DecidableEq

/-- the messages of the exceptions -/
inductive Refusal
  | unknownSourceFields
  | missingSourceFields
  | duplicateRoots (label : String)
  | negativeAmount
  | encumberedExceedsGross
  | unhashable
  | missingKeys (label : String)
  | unknownFields (label : String)
  | wrongType
  | notNatural (key : String)
  | builtEncumberedExceedsGross
  | amountNotPositive
  | notText (key : String)
  | poolFailsVerification
  | insufficientAvailability
  | poolRootMismatch
  | predecessorFailsVerification
  | reservationFailsVerification
  | reservationAlreadyInRoots
  | incomparableTimes
  | snapshotTimePrecedes
deriving DecidableEq

inductive Flaw
  | invalidStructure (refusal : Refusal)
  | hashMismatch
  | availableMismatch
  | reservationInvalid (flaws : List Flaw) (id : Option Datum)
  | candidateRootMismatch (id : Option Datum)
  | duplicateReservationHashes
  | duplicateReservationIds
  | overcommits (total available : ℤ)

/-- `{:valid? true}` has no errors -/
abbrev Verification := List Flaw

def poolAvailabilityType : String := "pool-availability.v2"
def poolReservationType : String := "pool-reservation.v1"

def refuseIf (p : Prop) [Decidable p] (refusal : Refusal) : Except Refusal Unit :=
  if p then .error refusal else .ok ()

theorem refuseIf_eq_ok {p : Prop} [Decidable p] {refusal : Refusal} {u : Unit} :
    refuseIf p refusal = .ok u ↔ ¬ p := by
  unfold refuseIf
  by_cases h : p <;> simp [h]

/-- a value that has to be there -/
def need {α : Type} (x : Option α) (refusal : Refusal) : Except Refusal α :=
  match x with
  | some a => .ok a
  | none => .error refusal

theorem need_eq_ok {α : Type} {x : Option α} {refusal : Refusal} {a : α} :
    need x refusal = .ok a ↔ x = some a := by
  unfold need
  cases x <;> simp

/-! ## source maps -/

/-- `(vec (sort roots))`, of distinct roots -/
def canonicalizeRoots (label : String) (roots : List String) : Except Refusal (List String) := do
  refuseIf (¬ roots.Nodup) (.duplicateRoots label)
  return roots.insertionSort notAfter

namespace PoolMap
variable (m : PoolMap)

def SourceKeysOnly : Prop :=
  m.artifactType = none ∧ m.availableAmount = none ∧ m.artifactHash = none ∧ m.unknown = []

instance : Decidable m.SourceKeysOnly := inferInstanceAs (Decidable (_ ∧ _ ∧ _ ∧ _))

/-- every key of a source map but the predecessor, which is optional -/
def HasSourceKeys : Prop :=
  m.id.isSome ∧ m.kind.isSome ∧ m.ownerId.isSome ∧ m.stateRoot.isSome ∧ m.policyRoot.isSome ∧
    m.snapshotTime.isSome ∧ m.grossAmount.isSome ∧ m.reservedAmount.isSome ∧
    m.protectedAmount.isSome ∧ m.liabilityRoots.isSome ∧ m.reservationRoots.isSome

instance : Decidable m.HasSourceKeys :=
  inferInstanceAs (Decidable (_ ∧ _ ∧ _ ∧ _ ∧ _ ∧ _ ∧ _ ∧ _ ∧ _ ∧ _ ∧ _))

/-- `(select-keys m pool-source-fields)` -/
def sourceFields : PoolMap :=
  { m with artifactType := none, availableAmount := none, artifactHash := none, unknown := [] }

/-- `pool-availability-hash-projection` -/
def hashProjection : PoolMap := { m with artifactHash := none, unknown := [] }

end PoolMap

def canonicalizePoolInput (m : PoolMap) : Except Refusal PoolMap := do
  refuseIf (¬ m.SourceKeysOnly) .unknownSourceFields
  refuseIf (¬ m.HasSourceKeys) .missingSourceFields
  let liabilityRoots ← canonicalizeRoots "liability-roots" (m.liabilityRoots.getD [])
  let reservationRoots ← canonicalizeRoots "reservation-roots" (m.reservationRoots.getD [])
  return { m with
    liabilityRoots := some liabilityRoots
    reservationRoots := some reservationRoots }

def derivePoolAmounts (m : PoolMap) : Except Refusal PoolMap := do
  let gross ← need m.grossAmount .missingSourceFields
  let reserved ← need m.reservedAmount .missingSourceFields
  let protectedAmount ← need m.protectedAmount .missingSourceFields
  refuseIf (gross.value < 0 ∨ reserved.value < 0 ∨ protectedAmount.value < 0) .negativeAmount
  let encumbered := reserved.addPromote protectedAmount
  refuseIf (gross.value < encumbered.value) .encumberedExceedsGross
  return { m with availableAmount := some (gross.subPromote encumbered) }

/-- `nat-int?`: big integers are none -/
def natInt (a : HostInt) : Bool := !a.big && decide (0 ≤ a.value)

/-- a string that is not empty -/
def isText : Datum → Bool
  | .atom (.str s) => s ≠ ""
  | _ => false

section
variable (hashPool : PoolMap → Option String) (hashReservation : ReservationMap → Option String)

def poolAvailabilityHash (pa : PoolMap) : Except Refusal String :=
  need (hashPool pa.hashProjection) .unhashable

def buildPoolAvailability (input : PoolMap) : Except Refusal PoolMap := do
  let canonical ← canonicalizePoolInput input
  let derived ← derivePoolAmounts canonical
  let pa := { derived with artifactType := some poolAvailabilityType }
  let hash ← poolAvailabilityHash hashPool pa
  return { pa with artifactHash := some hash }

/-! ## the check of a snapshot -/

/-- an amount of an artifact -/
def checkNat (key : String) (amount : Option HostInt) : Except Refusal HostInt := do
  let a ← need amount (.missingKeys "pool-availability")
  refuseIf (natInt a = false) (.notNatural key)
  return a

def validatePoolAvailability (pa : PoolMap) : Except Refusal Unit := do
  refuseIf (¬ (pa.HasSourceKeys ∧ pa.artifactType.isSome ∧ pa.availableAmount.isSome))
    (.missingKeys "pool-availability")
  refuseIf (pa.unknown ≠ []) (.unknownFields "pool-availability")
  refuseIf (pa.artifactType ≠ some poolAvailabilityType) .wrongType
  let gross ← checkNat "gross-amount" pa.grossAmount
  let reserved ← checkNat "reserved-amount" pa.reservedAmount
  let protectedAmount ← checkNat "protected-amount" pa.protectedAmount
  let _ ← checkNat "available-amount" pa.availableAmount
  refuseIf (gross.value < (reserved.addPromote protectedAmount).value) .builtEncumberedExceedsGross

/-- gross less reserved less protected, of the amounts that are there -/
def rederived (pa : PoolMap) : Option ℤ := do
  let gross ← pa.grossAmount
  let reserved ← pa.reservedAmount
  let protectedAmount ← pa.protectedAmount
  some ((gross.subPromote reserved).subPromote protectedAmount).value

def verifyPoolAvailability (pa : PoolMap) : Verification :=
  match validatePoolAvailability pa, poolAvailabilityHash hashPool pa with
  | .error e, _ => [.invalidStructure e]
  | .ok _, .error e => [.invalidStructure e]
  | .ok _, .ok expected =>
    (if some expected = pa.artifactHash then [] else [.hashMismatch]) ++
      if rederived pa = pa.availableAmount.map HostInt.value then [] else [.availableMismatch]

/-! ## reservations -/

def ReservationMap.hashProjection (r : ReservationMap) : ReservationMap :=
  { r with artifactHash := none, unknown := [] }

def reservationHash (r : ReservationMap) : Except Refusal String :=
  need (hashReservation r.hashProjection) .unhashable

/-- what a reservation is built from; an absent key is `nil` -/
structure ReservationOpts where
  id : Datum
  amount : Option HostInt
  purposeRoot : Datum

def buildReservation (pool : PoolMap) (opts : ReservationOpts) : Except Refusal ReservationMap := do
  refuseIf (¬ (verifyPoolAvailability hashPool pool).isEmpty) .poolFailsVerification
  let amount ← need (opts.amount.filter fun a => natInt a && a.value ≠ 0) .amountNotPositive
  let available ← need (pool.availableAmount) .poolFailsVerification
  refuseIf (available.value < amount.value) .insufficientAvailability
  let r : ReservationMap :=
    { artifactType := some poolReservationType
      id := some opts.id
      poolRoot := some ((pool.artifactHash.map Datum.str).getD .null)
      amount := some amount
      purposeRoot := some opts.purposeRoot
      artifactHash := none
      unknown := [] }
  let hash ← reservationHash hashReservation r
  return { r with artifactHash := some hash }

def validateReservation (r : ReservationMap) : Except Refusal Unit := do
  refuseIf (¬ (r.artifactType.isSome ∧ r.id.isSome ∧ r.poolRoot.isSome ∧ r.amount.isSome ∧
    r.purposeRoot.isSome)) (.missingKeys "reservation")
  refuseIf (r.unknown ≠ []) (.unknownFields "reservation")
  refuseIf (r.artifactType ≠ some poolReservationType) .wrongType
  refuseIf (¬ r.amount.any fun a => natInt a && 0 < a.value) .amountNotPositive
  refuseIf (¬ r.id.any isText) (.notText "id")
  refuseIf (¬ r.poolRoot.any isText) (.notText "pool-root")
  refuseIf (¬ r.purposeRoot.any isText) (.notText "purpose-root")

def verifyReservation (r : ReservationMap) : Verification :=
  match validateReservation r, reservationHash hashReservation r with
  | .error e, _ => [.invalidStructure e]
  | .ok _, .error e => [.invalidStructure e]
  | .ok _, .ok expected => if some expected = r.artifactHash then [] else [.hashMismatch]

/-! ## successors -/

section
variable (compare : Datum → Datum → Option Ordering)

/-- a successor is not before its predecessor; only times that are there are compared -/
def checkTimes (predTime succTime : Datum) : Except Refusal Unit :=
  if predTime.truthy && succTime.truthy then do
    let order ← need (compare succTime predTime) .incomparableTimes
    refuseIf (order = .lt) .snapshotTimePrecedes
  else .ok ()

structure SuccessorOpts where
  stateRoot : Datum
  snapshotTime : Datum

/-- the hash that a reservation names, and the one that an artifact has -/
def namesPool (r : ReservationMap) (pool : PoolMap) : Prop :=
  (pool.artifactHash.map Datum.str).getD .null = r.poolRoot.getD .null

instance (r : ReservationMap) (pool : PoolMap) : Decidable (namesPool r pool) :=
  inferInstanceAs (Decidable (_ = _))

def successorSource (pool : PoolMap) (r : ReservationMap) (opts : SuccessorOpts) : PoolMap :=
  { pool.sourceFields with
    stateRoot := some opts.stateRoot
    snapshotTime := some opts.snapshotTime
    predecessorHash := some ((pool.artifactHash.map Datum.str).getD .null)
    reservedAmount := pool.reservedAmount.bind fun a => r.amount.map a.addPromote
    reservationRoots :=
      some (pool.reservationRoots.getD [] ++ r.artifactHash.toList) }

def poolAfterReservation (pool : PoolMap) (r : ReservationMap) (opts : SuccessorOpts) :
    Except Refusal PoolMap := do
  refuseIf (¬ namesPool r pool) .poolRootMismatch
  refuseIf (¬ (verifyPoolAvailability hashPool pool).isEmpty) .predecessorFailsVerification
  refuseIf (¬ (verifyReservation hashReservation r).isEmpty) .reservationFailsVerification
  refuseIf (∃ hash ∈ r.artifactHash, hash ∈ pool.reservationRoots.getD [])
    .reservationAlreadyInRoots
  checkTimes compare (pool.snapshotTime.getD .null) opts.snapshotTime
  buildPoolAvailability hashPool (successorSource pool r opts)

end

end

end PRF.PoolAvailability
