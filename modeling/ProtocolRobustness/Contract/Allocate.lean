import ProtocolRobustness.Contract.Result
import ProtocolRobustness.Library.Table

/-!
# The allocation of the portable pro-rata contract

`allocation-witness` and `allocate` of `pro_rata_contract/contract.clj`.

* `witnessLoop`   the cap rounds of `:redistribute-cap-excess`: every row whose quota reaches its
                  cap is committed at the cap and leaves; each round shortens the active list;
* `Witness`       what either policy hands over: rounds, active rows, commitments, remainder;
* `Allocate.*`    the `let` of `allocate`, one definition for each of its names;
* `allocate`      the result with its two roots, for a hash function `sha256`.

A row id that is `nil` or `false` is never found by `(some #{id} ids)` (`someId`): this is how the
source reads membership of the active rows and of a round.
-/

namespace PRF
open Bytes

/-- `(reduce +' 0N (map :weight rows))` -/
def weightTotal (rows : List Row) : ℤ := (rows.map Row.weight).sum

/-- `(reduce +' 0N (map :effective-cap rows))` -/
def capTotal (rows : List Row) : ℤ := (rows.map Row.effectiveCap).sum

/-- the exact quota reaches the cap, cross-multiplied -/
def capConstrained (available weightTotal : ℤ) (row : Row) : Bool :=
  row.effectiveCap * weightTotal ≤ available * row.weight

/-- the rows of a group that are cap-constrained at its available amount -/
def constrainedOf (available : ℤ) (active : List Row) : List Row :=
  active.filter (capConstrained available (weightTotal active))

def quota (available weight totalWeight : ℤ) : Quota := ⟨available * weight, totalWeight⟩

/-- `(some #{id} ids)` as a condition -/
def someId (id : Value) (ids : List Value) : Bool := id.truthy && ids.contains id

/-! ## cap rounds -/

def roundWitness (index : ℕ) (available : ℤ) (active constrained : List Row) : Round :=
  { index := index
    availableAtStart := available
    activeRowIds := active.map Row.rowId
    activeWeightTotal := weightTotal active
    quotas := active.map fun row => (row.rowId, quota available row.weight (weightTotal active))
    newlyCapConstrainedRowIds := constrained.map Row.rowId
    committedByCap := capTotal constrained
    availableAfterCaps := available - capTotal constrained }

structure Witness where
  rounds : List Round
  active : List Row
  committed : List (Value × ℤ)
  remaining : ℤ
  residualReason : ResidualReason

def roundingReason : RoundingPolicy → ResidualReason
  | .floor => .floorRounding
  | .largestRemainder => .none

/-- `(vec (remove #(contains? constrained-ids (:row/id %)) active))` -/
def removeIds (ids : List Value) (active : List Row) : List Row :=
  active.filter fun row => !ids.contains row.rowId

theorem removeIds_length_lt {available : ℤ} {active : List Row}
    (h : constrainedOf available active ≠ []) :
    (removeIds ((constrainedOf available active).map Row.rowId) active).length
      < active.length := by
  obtain ⟨row, hrow⟩ := List.exists_mem_of_ne_nil _ h
  refine List.length_filter_lt_length_iff_exists.mpr ⟨row, List.mem_of_mem_filter hrow, ?_⟩
  simp only [List.contains_iff_mem.mpr (List.mem_map_of_mem (f := Row.rowId) hrow)]
  decide

def witnessLoop (roundingPolicy : RoundingPolicy) (index : ℕ) (remaining : ℤ) (active : List Row)
    (committed : List (Value × ℤ)) (rounds : List Round) : Witness :=
  if active = [] then ⟨rounds, [], committed, remaining, .noRemainingCapacity⟩
  else if weightTotal active = 0 then ⟨rounds, active, committed, remaining, .noActiveWeight⟩
  else if h : constrainedOf remaining active ≠ [] then
    witnessLoop roundingPolicy (index + 1) (remaining - capTotal (constrainedOf remaining active))
      (removeIds ((constrainedOf remaining active).map Row.rowId) active)
      (Table.into committed
        ((constrainedOf remaining active).map fun row => (row.rowId, row.effectiveCap)))
      (rounds ++ [roundWitness index remaining active (constrainedOf remaining active)])
  else
    ⟨rounds ++ [roundWitness index remaining active []], active, committed, remaining,
      roundingReason roundingPolicy⟩
termination_by active.length
decreasing_by exact removeIds_length_lt h

def allocationWitness (q : Request) : Witness :=
  match q.redistributionPolicy with
  | .unallocated =>
    if weightTotal q.rows = 0 then ⟨[], q.rows, [], q.available, .noActiveWeight⟩
    else
      ⟨[roundWitness 0 q.available q.rows (constrainedOf q.available q.rows)], q.rows, [],
        q.available, roundingReason q.roundingPolicy⟩
  | .redistributeCapExcess => witnessLoop q.roundingPolicy 0 q.available q.rows [] []

/-! ## remainders -/

structure RemainderRow where
  rowId : Value
  remainderNumerator : ℤ
  remainderDenominator : ℤ
deriving DecidableEq

/-- larger remainders first, then the bytes of the id -/
def compareRemainders (left right : RemainderRow) : Ordering :=
  match compare (right.remainderNumerator * left.remainderDenominator)
    (left.remainderNumerator * right.remainderDenominator) with
  | .eq => compareBytes (canonicalBytes left.rowId) (canonicalBytes right.rowId)
  | comparison => comparison

def leRemainder (left right : RemainderRow) : Prop := compareRemainders left right ≠ .gt

instance : DecidableRel leRemainder := fun _ _ => inferInstanceAs (Decidable (_ ≠ _))

/-- the quota of the round that committed a row; a row no round names has none -/
def committedQuota (rounds : List Round) (id : Value) : Option Quota := do
  let round ← rounds.find? fun round => someId id round.newlyCapConstrainedRowIds
  let e ← round.quotas.find? fun e => e.1 = id
  return e.2

/-! ## the `let` of `allocate` -/

namespace Allocate

section
variable (q : Request)

def rounds : List Round := (allocationWitness q).rounds
def committed : List (Value × ℤ) := (allocationWitness q).committed
def remaining : ℤ := (allocationWitness q).remaining
def totalWeight : ℤ := weightTotal q.rows

def constrained : List Row :=
  if q.redistributionPolicy = .unallocated ∧ 0 < totalWeight q then
    constrainedOf q.available q.rows
  else []

def constrainedIds : List Value := (constrained q).map Row.rowId

def allocationActive : List Row :=
  match q.redistributionPolicy with
  | .unallocated => removeIds (constrainedIds q) q.rows
  | .redistributeCapExcess => (allocationWitness q).active

def allocationWeight : ℤ :=
  match q.redistributionPolicy with
  | .unallocated => totalWeight q
  | .redistributeCapExcess => weightTotal (allocationWitness q).active

def floorRows : List Row :=
  match q.redistributionPolicy with
  | .unallocated => q.rows
  | .redistributeCapExcess => allocationActive q

def amountForFinal : ℤ :=
  match q.redistributionPolicy with
  | .unallocated => q.available
  | .redistributeCapExcess => remaining q

def floorOf (row : Row) : ℤ :=
  if 0 < allocationWeight q then (amountForFinal q * row.weight).tdiv (allocationWeight q) else 0

def floors : List (Value × ℤ) :=
  Table.into [] ((floorRows q).map fun row => (row.rowId, floorOf q row))

def remainderRow (row : Row) : RemainderRow :=
  { rowId := row.rowId
    remainderNumerator :=
      if 0 < allocationWeight q then (amountForFinal q * row.weight).fmod (allocationWeight q)
      else 0
    remainderDenominator := max 1 (allocationWeight q) }

def remainderRows : List RemainderRow := (allocationActive q).map (remainderRow q)

def ranked : List RemainderRow := (remainderRows q).insertionSort leRemainder

def units : ℤ :=
  if q.roundingPolicy = .largestRemainder ∧ 0 < allocationWeight q then
    amountForFinal q - ((floors q).map Prod.snd).sum
  else 0

def awarded : List Value := ((ranked q).take (units q).toNat).map RemainderRow.rowId

/-- `(zipmap (map :row/id ranked) (range))` -/
def ranks : List (Value × ℕ) :=
  if 0 < allocationWeight q then
    Table.into [] ((ranked q).zipIdx.map fun e => (e.1.rowId, e.2))
  else []

def remainderById : List (Value × RemainderRow) :=
  Table.into [] ((remainderRows q).map fun r => (r.rowId, r))

/-! ## rows -/

/-- the quota of a row that is not committed -/
def finalQuota (row : Row) : Quota :=
  quota (amountForFinal q) row.weight (max 1 (allocationWeight q))

def floorFor (id : Value) : ℤ := (Table.find (floors q) id).getD 0

def isActive (id : Value) : Bool := someId id ((allocationActive q).map Row.rowId)

def isConstrained (id : Value) : Bool := (constrainedIds q).contains id

def isAwarded (id : Value) : Bool := (awarded q).contains id

def uncappedAward (id : Value) : ℤ := floorFor q id + if isAwarded q id then 1 else 0

def allocatedOf (row : Row) : ℤ :=
  match Table.find (committed q) row.rowId with
  | some cap => cap
  | none =>
    if isConstrained q row.rowId then row.effectiveCap
    else if isActive q row.rowId then uncappedAward q row.rowId
    else 0

def floorAllocationOf (row : Row) : ℤ :=
  if (Table.find (committed q) row.rowId).isSome ∨ isConstrained q row.rowId then row.effectiveCap
  else floorFor q row.rowId

def unmetOf (row : Row) : ℤ :=
  match q.redistributionPolicy with
  | .unallocated => max 0 (floorFor q row.rowId - allocatedOf q row)
  | .redistributeCapExcess => 0

/-- the remainder of a row that is not committed -/
def remainderOf (row : Row) : Quota :=
  match Table.find (remainderById q) row.rowId with
  | some r => ⟨r.remainderNumerator, r.remainderDenominator⟩
  | none => ⟨0, max 1 (allocationWeight q)⟩

/-- a row with its effective quota and its fractional remainder -/
def rowWith (row : Row) (effectiveQuota fractionalRemainder : Quota) : ResultRow :=
  { rowId := row.rowId
    obligationId := row.obligationId
    requested := row.requested
    weight := row.weight
    declaredCap := row.cap
    effectiveCap := row.effectiveCap
    initialQuota := quota q.available row.weight (max 1 (totalWeight q))
    effectiveQuota := effectiveQuota
    floorAllocation := floorAllocationOf q row
    fractionalRemainder := fractionalRemainder
    allocated := allocatedOf q row
    unmet := unmetOf q row
    remainderRank := if isActive q row.rowId then Table.find (ranks q) row.rowId else none
    remainderUnitAwarded := isActive q row.rowId && isAwarded q row.rowId }

/-- without a quota a committed row has no remainder denominator, and the total of the
remainders divides by nil -/
def resultRow (row : Row) : Except Thrown ResultRow :=
  match Table.find (committed q) row.rowId with
  | none => .ok (rowWith q row (finalQuota q row) (remainderOf q row))
  | some _ =>
    match committedQuota (rounds q) row.rowId with
    | none => .error .host
    | some e => .ok (rowWith q row e ⟨0, e.denominator⟩)

/-! ## totals -/

def residual (rows : List ResultRow) : ℤ :=
  match q.redistributionPolicy with
  | .redistributeCapExcess =>
    remaining q - ((allocationActive q).map fun row => floorFor q row.rowId).sum
  | .unallocated =>
    q.available - (rows.map ResultRow.allocated).sum - (rows.map ResultRow.unmet).sum

def residualReason (rows : List ResultRow) : ResidualReason :=
  if 0 < residual q rows then (allocationWitness q).residualReason else .none

def fractionalTotal (rows : List ResultRow) : ℚ :=
  rows.foldl (fun total row =>
    total + (row.fractionalRemainder.numerator / row.fractionalRemainder.denominator : ℚ)) 0

def passOf (round : Round) : Pass :=
  { pass := round.index
    availableAtStart := round.availableAtStart
    activeIds := round.activeRowIds
    activeWeightTotal := round.activeWeightTotal
    cappedIds := round.newlyCapConstrainedRowIds
    excess := round.availableAtStart
    newlyCappedIds := round.newlyCapConstrainedRowIds
    committedByCap := round.committedByCap
    availableAfterCaps := round.availableAfterCaps }

def redistribution : Option Redistribution :=
  match q.redistributionPolicy with
  | .unallocated => none
  | .redistributeCapExcess =>
    some ⟨(rounds q).map passOf, (rounds q).length, (allocationWitness q).residualReason⟩

/-- the result with its hash left empty; the root does not read it -/
def resultBase (sha256 : ByteString → String) (rows : List ResultRow) : AllocationResult :=
  { allocationId := q.allocationId
    canonicalRequest := q
    requestHash := requestRoot sha256 q
    available := q.available
    roundingPolicy := q.roundingPolicy
    redistributionPolicy := q.redistributionPolicy
    redistribution := redistribution q
    rounds := rounds q
    rows := rows
    allocatedTotal := (rows.map ResultRow.allocated).sum
    unallocatedResidual := residual q rows
    residualReason := residualReason q rows
    allocationHash := ""
    fractionalRemainderTotal := ⟨(fractionalTotal rows).num, (fractionalTotal rows).den⟩ }

end

end Allocate

/-- `allocate` after `normalize-request` -/
def allocateNormalized (sha256 : ByteString → String) (q : Request) :
    Except Thrown AllocationResult := do
  let rows ← q.rows.mapM (Allocate.resultRow q)
  let base := Allocate.resultBase q sha256 rows
  return { base with allocationHash := allocationResultRoot sha256 base }

def allocate (sha256 : ByteString → String) (request : Value) : Except Thrown AllocationResult := do
  let q ← normalizeRequest request
  allocateNormalized sha256 q

end PRF
