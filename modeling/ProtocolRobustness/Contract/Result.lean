import ProtocolRobustness.Contract.Request

/-!
# Results of the portable pro-rata contract

The artifact `allocate` returns and a verifier receives, with the value each part is hashed as.

* `Round`, `ResultRow`, `AllocationResult`   the witness of one cap round, one row, the result;
* `AllocationResult.body`   the result without `:allocation/hash` and without
                            `:allocation/fractional-remainder-total`, which the root leaves out;
* `requestRoot`, `allocationResultRoot`   the two roots, for a hash function `sha256`.
-/

namespace PRF
open Bytes

inductive ResidualReason where
  | none
  | noActiveWeight
  | noRemainingCapacity
  | allParticipantsCapped
  | floorRounding
deriving DecidableEq

/-- a fraction as the witness stores it, unreduced -/
structure Quota where
  numerator : ℤ
  denominator : ℤ
deriving DecidableEq

structure Round where
  index : ℕ
  availableAtStart : ℤ
  activeRowIds : List Value
  activeWeightTotal : ℤ
  quotas : List (Value × Quota)
  newlyCapConstrainedRowIds : List Value
  committedByCap : ℤ
  availableAfterCaps : ℤ
deriving DecidableEq

structure ResultRow where
  rowId : Value
  obligationId : Value
  requested : ℤ
  weight : ℤ
  declaredCap : Option ℤ
  effectiveCap : ℤ
  initialQuota : Quota
  effectiveQuota : Quota
  floorAllocation : ℤ
  fractionalRemainder : Quota
  allocated : ℤ
  unmet : ℤ
  remainderRank : Option ℕ
  remainderUnitAwarded : Bool
deriving DecidableEq

/-- one entry of `:redistribution :passes` -/
structure Pass where
  pass : ℕ
  availableAtStart : ℤ
  activeIds : List Value
  activeWeightTotal : ℤ
  cappedIds : List Value
  excess : ℤ
  newlyCappedIds : List Value
  committedByCap : ℤ
  availableAfterCaps : ℤ
deriving DecidableEq

structure Redistribution where
  passes : List Pass
  totalPasses : ℕ
  residualReason : ResidualReason
deriving DecidableEq

structure AllocationResult where
  allocationId : Value
  canonicalRequest : Request
  requestHash : String
  available : ℤ
  roundingPolicy : RoundingPolicy
  redistributionPolicy : RedistributionPolicy
  redistribution : Option Redistribution
  rounds : List Round
  rows : List ResultRow
  allocatedTotal : ℤ
  unallocatedResidual : ℤ
  residualReason : ResidualReason
  allocationHash : String
  fractionalRemainderTotal : Quota

/-! ## the parts as values -/

def ResidualReason.value : ResidualReason → Value
  | .none => (key "none").value
  | .noActiveWeight => (key "no-active-weight").value
  | .noRemainingCapacity => (key "no-remaining-capacity").value
  | .allParticipantsCapped => (key "all-participants-capped").value
  | .floorRounding => (key "floor-rounding").value

def RoundingPolicy.value : RoundingPolicy → Value
  | .floor => (key "floor").value
  | .largestRemainder => (key "largest-remainder").value

def RedistributionPolicy.value : RedistributionPolicy → Value
  | .unallocated => (key "unallocated").value
  | .redistributeCapExcess => (key "redistribute-cap-excess").value

def optionValue {α : Type} (f : α → Value) : Option α → Value
  | some a => f a
  | none => .null

def Quota.entries (q : Quota) : List (Key × Value) :=
  [(nsKey "quota" "numerator", .int q.numerator), (nsKey "quota" "denominator", .int q.denominator)]

def Quota.value (q : Quota) : Value := .map q.entries

/-- a fractional remainder stores its two numbers under keys of their own -/
def Quota.remainderValue (q : Quota) : Value :=
  .map [(key "remainder-numerator", .int q.numerator),
    (key "remainder-denominator", .int q.denominator)]

def Row.value (row : Row) : Value :=
  .map [(nsKey "row" "id", row.rowId), (nsKey "obligation" "id", row.obligationId),
    (key "requested", .int row.requested), (key "weight", .int row.weight),
    (key "cap", optionValue .int row.cap)]

/-- `:canonical-request` -/
def Request.value (q : Request) : Value :=
  .map [(key "schema-version", .str "pro-rata-allocation-request.v1"),
    (nsKey "mechanism" "version", .int 1), (nsKey "allocation" "id", q.allocationId),
    (key "available", .int q.available), (key "rows", .vec (q.rows.map Row.value)),
    (key "rounding-policy", q.roundingPolicy.value),
    (key "tie-break-policy", (key "canonical-row-id").value),
    (key "redistribution-policy", q.redistributionPolicy.value)]

def Round.value (r : Round) : Value :=
  .map [(nsKey "round" "index", .int r.index), (key "available-at-start", .int r.availableAtStart),
    (key "active-row-ids", .vec r.activeRowIds),
    (key "active-weight-total", .int r.activeWeightTotal),
    (key "quotas", .vec (r.quotas.map fun e => .map ((nsKey "row" "id", e.1) :: e.2.entries))),
    (key "newly-cap-constrained-row-ids", .vec r.newlyCapConstrainedRowIds),
    (key "committed-by-cap", .int r.committedByCap),
    (key "available-after-caps", .int r.availableAfterCaps)]

def ResultRow.value (r : ResultRow) : Value :=
  .map [(nsKey "row" "id", r.rowId), (nsKey "obligation" "id", r.obligationId),
    (key "requested", .int r.requested), (key "weight", .int r.weight),
    (key "declared-cap", optionValue .int r.declaredCap),
    (key "effective-cap", .int r.effectiveCap), (key "initial-quota", r.initialQuota.value),
    (key "effective-quota", r.effectiveQuota.value),
    (key "floor-allocation", .int r.floorAllocation),
    (key "fractional-remainder", r.fractionalRemainder.remainderValue),
    (key "allocated", .int r.allocated), (key "unmet", .int r.unmet),
    (key "remainder-rank", optionValue (fun n : ℕ => .int n) r.remainderRank),
    (key "remainder-unit-awarded?", .bool r.remainderUnitAwarded)]

def Pass.value (p : Pass) : Value :=
  .map [(key "pass", .int p.pass), (key "available-at-start", .int p.availableAtStart),
    (key "active-ids", .vec p.activeIds), (key "active-weight-total", .int p.activeWeightTotal),
    (key "capped-ids", .vec p.cappedIds), (key "excess", .int p.excess),
    (key "newly-capped-ids", .vec p.newlyCappedIds),
    (key "committed-by-cap", .int p.committedByCap),
    (key "available-after-caps", .int p.availableAfterCaps)]

def Redistribution.value (r : Redistribution) : Value :=
  .map [(key "passes", .vec (r.passes.map Pass.value)), (key "total-passes", .int r.totalPasses),
    (key "residual-reason", r.residualReason.value)]

/-- `(dissoc result :allocation/hash :allocation/fractional-remainder-total)` -/
def AllocationResult.body (r : AllocationResult) : Value :=
  .map [(key "schema-version", .str "pro-rata-allocation-result.v1"),
    (key "mechanism",
      .map [(key "id", (nsKey "mechanism" "pro-rata-allocation").value), (key "version", .int 1)]),
    (nsKey "allocation" "id", r.allocationId), (key "canonical-request", r.canonicalRequest.value),
    (nsKey "request" "hash", .str r.requestHash), (key "available", .int r.available),
    (key "rounding-policy", r.roundingPolicy.value),
    (key "tie-break-policy", (key "canonical-row-id").value),
    (key "redistribution-policy", r.redistributionPolicy.value),
    (key "redistribution", optionValue Redistribution.value r.redistribution),
    (nsKey "allocation" "rounds", .vec (r.rounds.map Round.value)),
    (key "rows", .vec (r.rows.map ResultRow.value)),
    (key "allocated-total", .int r.allocatedTotal),
    (key "unallocated-residual", .int r.unallocatedResidual),
    (key "residual-reason", r.residualReason.value)]

/-! ## roots -/

section
variable (sha256 : ByteString → String)

/-- `(projection-artifact-root body)` -/
def projectionArtifactRoot (body : Value) : String :=
  domainHash sha256 "PROJECTION_ARTIFACT_V1" body

/-- `:request/hash` -/
def requestRoot (q : Request) : String :=
  projectionArtifactRoot sha256
    (.map [(key "intent", (key "projection-artifact").value), (key "artifact", q.value)])

/-- `(allocation-result-root result)` -/
def allocationResultRoot (r : AllocationResult) : String := projectionArtifactRoot sha256 r.body

end

end PRF
