import ProtocolRobustness.Canonical.Encoding
import ProtocolRobustness.Library.Fallible

/-!
# Allocation requests of the portable pro-rata contract

`normalize-request` of `pro_rata_contract/contract.clj`: a request arrives as a value, is checked
field by field, and leaves with its rows in the byte order of their encoded ids.

* `Thrown`            how a call fails: an `ex-info` with its reason and data, or an exception of
                      the host (a class cast, a nil where a number is needed);
* `Row`, `Request`    a normalized row and request; their fields say that all quantities are
                      non-negative, that the ids are distinct and that the rows are in order;
* `normalizeRequest`  the checks, in the order of the source;
* `Row.effectiveCap`  the requested amount, cut at the cap when there is one.
-/

namespace PRF
open Bytes

/-! ## field names -/

/-- the keyword `:name` as a map key -/
def key (name : String) (h : legalName name = true := by exact Eq.refl true) : Key :=
  .kw ⟨none, name, legal_of_legalName h⟩

/-- the keyword `:ns/name` as a map key -/
def nsKey (ns name : String) (h : legalName name = true := by exact Eq.refl true) : Key :=
  .kw ⟨some ns, name, legal_of_legalName h⟩

/-- a key as a value of its own -/
def Key.value : Key → Value
  | .str s => .str s
  | .kw k => .kw k

/-! ## failures -/

inductive Thrown where
  | exInfo (reason : Key) (data : List (Key × Value))
  | host
deriving DecidableEq

def malformedInput : Key := nsKey "portable-contract" "malformed-input"
def unknownVersion : Key := nsKey "portable-contract" "unknown-version"
def unknownPolicy : Key := nsKey "portable-contract" "unknown-policy"
def arithmeticDomainViolation : Key := nsKey "portable-contract" "arithmetic-domain-violation"
def noncanonicalInput : Key := nsKey "portable-contract" "noncanonical-input"

/-- `(allocation-error reason data)` -/
def allocationError {α : Type} (reason : Key) (data : List (Key × Value)) : Except Thrown α :=
  .error (.exInfo reason data)

/-- `(when-not test (allocation-error reason data))` -/
def whenNot (test : Bool) (reason : Key) (data : List (Key × Value)) : Except Thrown Unit :=
  if test then .ok () else allocationError reason data

/-- the member of an enumeration a value names, or the error of an unknown one -/
def orError {α : Type} (member : Option α) (reason : Key) (data : List (Key × Value)) :
    Except Thrown α :=
  match member with
  | some a => .ok a
  | none => allocationError reason data

theorem whenNot_eq_ok {test : Bool} {reason : Key} {data : List (Key × Value)} {u : Unit} :
    whenNot test reason data = .ok u ↔ test = true := by
  unfold whenNot allocationError
  cases test <;> simp

theorem orError_eq_ok {α : Type} {member : Option α} {reason : Key} {data : List (Key × Value)}
    {a : α} : orError member reason data = .ok a ↔ member = some a := by
  unfold orError allocationError
  cases member <;> simp

/-! ## the sequence functions of the host -/

/-- `(vec x)`; a letter of a string stands as the string of that letter -/
def vecOf : Value → Except Thrown (List Value)
  | .null => .ok []
  | .vec xs => .ok xs
  | .map es => .ok (es.map fun e => .vec [e.1.value, e.2])
  | .str s => .ok (s.toList.map fun c => .str (String.singleton c))
  | _ => .error .host

/-- `(keys x)`; only a map and an empty sequence have keys -/
def keysOf : Value → Except Thrown (List Key)
  | .null => .ok []
  | .map es => .ok (es.map Prod.fst)
  | .vec [] => .ok []
  | .str s => if s = "" then .ok [] else .error .host
  | _ => .error .host

/-- equality of two sets of keys -/
def sameKeys (ks ls : List Key) : Bool := ks.all (ls.contains ·) && ls.all (ks.contains ·)

def nonNegativeInteger : Value → Bool
  | .int n => 0 ≤ n
  | _ => false

/-! ## normalized requests -/

inductive RoundingPolicy where
  | floor
  | largestRemainder
deriving DecidableEq

inductive RedistributionPolicy where
  | unallocated
  | redistributeCapExcess
deriving DecidableEq

@[ext]
structure Row where
  rowId : Value
  obligationId : Value
  requested : ℤ
  weight : ℤ
  cap : Option ℤ
  requested_nonneg : 0 ≤ requested
  weight_nonneg : 0 ≤ weight
  cap_nonneg : ∀ c ∈ cap, 0 ≤ c
deriving DecidableEq

namespace Row

/-- `:effective-cap` -/
def effectiveCap (row : Row) : ℤ :=
  match row.cap with
  | some cap => min row.requested cap
  | none => row.requested

theorem effectiveCap_nonneg (row : Row) : 0 ≤ row.effectiveCap := by
  unfold effectiveCap
  split
  · next c h => exact le_min row.requested_nonneg (row.cap_nonneg c (by rw [h]; rfl))
  · exact row.requested_nonneg

/-- `(row-order-key row)` -/
def orderKey (row : Row) : ByteString := canonicalBytes row.rowId

end Row

@[ext]
structure Request where
  allocationId : Value
  available : ℤ
  rows : List Row
  roundingPolicy : RoundingPolicy
  redistributionPolicy : RedistributionPolicy
  available_nonneg : 0 ≤ available
  ids_nodup : (rows.map Row.rowId).Nodup
  ordered : rows.Pairwise (byKey Row.orderKey)

/-! ## normalization -/

def requiredFields : List Key :=
  [key "schema-version", nsKey "mechanism" "version", nsKey "allocation" "id", key "available",
    key "rows", key "rounding-policy", key "tie-break-policy", key "redistribution-policy"]

def rowFields : List Key :=
  [nsKey "row" "id", nsKey "obligation" "id", key "requested", key "weight", key "cap"]

def checkField (row : Value) (field : Key) : Except Thrown Unit :=
  whenNot (row.get field = .null || nonNegativeInteger (row.get field)) arithmeticDomainViolation
    [(key "field", field.value), (nsKey "row" "id", row.get (nsKey "row" "id"))]

/-- the checks on one row; its id is a canonical value by its type -/
def checkRow (row : Value) : Except Thrown Unit := do
  let keys ← keysOf row
  whenNot (sameKeys rowFields keys) malformedInput
    [(key "field", (key "row").value), (key "row", row)]
  [key "requested", key "weight", key "cap"].forM (checkField row)

/-- `(bigint x)` of a number that passed its check; of nil it fails -/
def bigintOf : Value → Except Thrown {n : ℤ // 0 ≤ n}
  | .int n => if h : 0 ≤ n then .ok ⟨n, h⟩ else .error .host
  | _ => .error .host

/-- `(some-> x bigint)` -/
def capOf : Value → Except Thrown {c : Option ℤ // ∀ n ∈ c, 0 ≤ n}
  | .null => .ok ⟨none, nofun⟩
  | v => do
    let ⟨n, h⟩ ← bigintOf v
    return ⟨some n, fun _ hm => Option.some.inj hm ▸ h⟩

def normalizeRow (row : Value) : Except Thrown Row := do
  let ⟨requested, hr⟩ ← bigintOf (row.get (key "requested"))
  let ⟨cap, hc⟩ ← capOf (row.get (key "cap"))
  let ⟨weight, hw⟩ ← bigintOf (row.get (key "weight"))
  return ⟨row.get (nsKey "row" "id"), row.get (nsKey "obligation" "id"), requested, weight, cap,
    hr, hw, hc⟩

def roundingOf (v : Value) : Option RoundingPolicy :=
  if v = (key "floor").value then some .floor
  else if v = (key "largest-remainder").value then some .largestRemainder
  else none

def redistributionOf (v : Value) : Option RedistributionPolicy :=
  if v = (key "unallocated").value then some .unallocated
  else if v = (key "redistribute-cap-excess").value then some .redistributeCapExcess
  else none

theorem sorted_ids_nodup {rows : List Row} (h : (rows.map Row.rowId).Nodup) :
    ((rows.insertionSort (byKey Row.orderKey)).map Row.rowId).Nodup :=
  ((List.perm_insertionSort (byKey Row.orderKey) rows).map Row.rowId).nodup_iff.mpr h

def normalizeRequest (request : Value) : Except Thrown Request := do
  let rows ← vecOf (request.get (key "rows"))
  let keys ← keysOf request
  whenNot (sameKeys requiredFields keys) malformedInput [(key "field", (key "request").value)]
  whenNot (request.get (key "schema-version") = .str "pro-rata-allocation-request.v1")
    unknownVersion [(key "schema-version", request.get (key "schema-version"))]
  whenNot (request.get (nsKey "mechanism" "version") = .int 1)
    unknownVersion [(nsKey "mechanism" "version", request.get (nsKey "mechanism" "version"))]
  whenNot (nonNegativeInteger (request.get (key "available")))
    arithmeticDomainViolation [(key "field", (key "available").value)]
  whenNot (request.get (key "tie-break-policy") = (key "canonical-row-id").value)
    unknownPolicy [(key "field", (key "tie-break-policy").value)]
  let roundingPolicy ← orError (roundingOf (request.get (key "rounding-policy")))
    unknownPolicy [(key "field", (key "rounding-policy").value)]
  let redistributionPolicy ← orError (redistributionOf (request.get (key "redistribution-policy")))
    unknownPolicy [(key "field", (key "redistribution-policy").value)]
  rows.forM checkRow
  whenNot (rows.map fun row => row.get (nsKey "row" "id")).Nodup malformedInput
    [(key "field", (nsKey "row" "id").value), (key "detail", (key "duplicate").value)]
  let ⟨available, ha⟩ ← bigintOf (request.get (key "available"))
  let normalized ← rows.mapM normalizeRow
  if h : (normalized.map Row.rowId).Nodup then
    return ⟨request.get (nsKey "allocation" "id"), available,
      normalized.insertionSort (byKey Row.orderKey), roundingPolicy, redistributionPolicy, ha,
      sorted_ids_nodup h, List.pairwise_insertionSort _ _⟩
  else .error .host

/-! ## requests as they are sent -/

/-- a row without an obligation -/
def rowOf (id : Value) (requested weight : ℤ) : Value :=
  .map [(nsKey "row" "id", id), (nsKey "obligation" "id", .null), (key "requested", .int requested),
    (key "weight", .int weight), (key "cap", .null)]

def requestOf (available : ℤ) (rows : List Value) (roundingPolicy redistributionPolicy : Key) :
    Value :=
  .map [(key "schema-version", .str "pro-rata-allocation-request.v1"),
    (nsKey "mechanism" "version", .int 1), (nsKey "allocation" "id", .str "allocation"),
    (key "available", .int available), (key "rows", .vec rows),
    (key "rounding-policy", roundingPolicy.value),
    (key "tie-break-policy", (key "canonical-row-id").value),
    (key "redistribution-policy", redistributionPolicy.value)]

end PRF
