import ProtocolRobustness.Contract.Shares

/-!
# When an allocation has a result

`allocate` fails on a normalized request for one reason only: a row whose id is `nil` or `false`
was committed by a cap round, and `(some #{id} ids)` does not find the round.

* `Allocate.Seen`           no such row;
* `Allocate.finalResult`    the result, with its rows computed one by one;
* `allocate_ok_iff`         a result is returned exactly on the requests `Seen` holds of.
-/

namespace PRF
open Bytes Fallible

namespace Allocate

def finalRow (q : Request) (row : Row) : ResultRow :=
  match Table.find (committed q) row.rowId, committedQuota (rounds q) row.rowId with
  | some _, some e => rowWith q row e ⟨0, e.denominator⟩
  | _, _ => rowWith q row (finalQuota q row) (remainderOf q row)

def finalResult (sha256 : ByteString → String) (q : Request) : AllocationResult :=
  let base := resultBase q sha256 (q.rows.map (finalRow q))
  { base with allocationHash := allocationResultRoot sha256 base }

/-- no committed row has an id that is `nil` or `false` -/
def Seen (q : Request) : Prop :=
  ∀ row ∈ q.rows, row.rowId.truthy = false → Table.find (committed q) row.rowId = none

theorem seen_unallocated {q : Request} (hp : q.redistributionPolicy = .unallocated) : Seen q := by
  intro row _ _
  rw [committed_unallocated hp]
  rfl

theorem seen_redistribute {q : Request} (hp : q.redistributionPolicy = .redistributeCapExcess) :
    Seen q ↔ ∀ row ∈ q.rows, row.rowId.truthy = false → row ∈ allocationActive q := by
  refine forall₃_congr fun row hrow _ => ?_
  rw [find_committed hp hrow]
  by_cases hm : row ∈ allocationActive q
  · simp [hm]
  · simp [hm]

theorem committedQuota_isSome {q : Request} {row : Row} (h : row ∈ q.rows)
    (hc : Table.find (committed q) row.rowId ≠ none) (ht : row.rowId.truthy) :
    ∃ e, committedQuota (rounds q) row.rowId = some e ∧ Reaches row e := by
  cases hp : q.redistributionPolicy with
  | unallocated =>
    rw [committed_unallocated hp] at hc
    exact absurd rfl hc
  | redistributeCapExcess =>
    rw [find_committed hp h] at hc
    have hm : row ∉ allocationActive q := fun hm => hc (if_pos hm)
    rw [active_redistribute hp] at hm
    exact (witness_inv hp).quota row h hm ht

theorem resultRow_ok {q : Request} (hs : Seen q) {row : Row} (h : row ∈ q.rows) :
    resultRow q row = .ok (finalRow q row) := by
  unfold resultRow finalRow
  cases hc : Table.find (committed q) row.rowId with
  | none => rfl
  | some cap =>
    cases ht : row.rowId.truthy with
    | false => rw [hs row h ht] at hc; cases hc
    | true =>
      obtain ⟨e, he, _⟩ := committedQuota_isSome h (by rw [hc]; exact Option.some_ne_none cap) ht
      rw [he]

theorem allocateNormalized_ok_iff (sha256 : ByteString → String) (q : Request)
    (r : AllocationResult) :
    allocateNormalized sha256 q = .ok r ↔ Seen q ∧ r = finalResult sha256 q := by
  constructor
  · intro h
    have hs : Seen q := by
      intro row hrow ht
      unfold allocateNormalized at h
      cases hm : q.rows.mapM (resultRow q) with
      | error e => rw [hm] at h; cases h
      | ok rows =>
        obtain ⟨b, _, hb⟩ := exists_of_mem_left (mapM_ok_iff.mp hm) hrow
        unfold resultRow at hb
        rw [committedQuota_falsy _ ht] at hb
        cases hc : Table.find (committed q) row.rowId with
        | none => rfl
        | some c => rw [hc] at hb; cases hb
    refine ⟨hs, ?_⟩
    unfold allocateNormalized at h
    rw [mapM_ok fun row hrow => resultRow_ok hs hrow] at h
    exact (Except.ok.inj h).symm
  · rintro ⟨hs, rfl⟩
    unfold allocateNormalized
    rw [mapM_ok fun row hrow => resultRow_ok hs hrow]
    rfl

end Allocate

/-- **`allocate` returns a result exactly when it sees its committed rows.** -/
theorem allocate_ok_iff (sha256 : ByteString → String) {v : Value} {q : Request}
    (h : normalizeRequest v = .ok q) (r : AllocationResult) :
    allocate sha256 v = .ok r ↔ Allocate.Seen q ∧ r = Allocate.finalResult sha256 q := by
  unfold allocate
  rw [h]
  exact Allocate.allocateNormalized_ok_iff sha256 q r

theorem exists_allocate_iff (sha256 : ByteString → String) {v : Value} {q : Request}
    (h : normalizeRequest v = .ok q) (P : AllocationResult → Prop) :
    (∃ r, allocate sha256 v = .ok r ∧ P r)
      ↔ Allocate.Seen q ∧ P (Allocate.finalResult sha256 q) := by
  constructor
  · rintro ⟨r, hr, hP⟩
    obtain ⟨hs, rfl⟩ := (allocate_ok_iff sha256 h r).mp hr
    exact ⟨hs, hP⟩
  · rintro ⟨hs, hP⟩
    exact ⟨_, (allocate_ok_iff sha256 h _).mpr ⟨hs, rfl⟩, hP⟩

namespace Allocate

section
variable (sha256 : ByteString → String) (q : Request)

theorem finalResult_rows : (finalResult sha256 q).rows = q.rows.map (finalRow q) := rfl

theorem finalRow_allocated (row : Row) : (finalRow q row).allocated = allocatedOf q row := by
  unfold finalRow
  split <;> rfl

theorem finalRow_unmet (row : Row) : (finalRow q row).unmet = unmetOf q row := by
  unfold finalRow
  split <;> rfl

theorem finalRow_rowId (row : Row) : (finalRow q row).rowId = row.rowId := by
  unfold finalRow
  split <;> rfl

theorem allocatedTotal_eq :
    (finalResult sha256 q).allocatedTotal = (q.rows.map (allocatedOf q)).sum := by
  show ((q.rows.map (finalRow q)).map ResultRow.allocated).sum = _
  rw [List.map_map]
  exact congrArg List.sum (List.map_congr_left fun row _ => finalRow_allocated q row)

theorem unmetTotal_eq :
    ((finalResult sha256 q).rows.map ResultRow.unmet).sum = (q.rows.map (unmetOf q)).sum := by
  rw [finalResult_rows, List.map_map]
  exact congrArg List.sum (List.map_congr_left fun row _ => finalRow_unmet q row)

theorem residual_unallocated (hp : q.redistributionPolicy = .unallocated) :
    (finalResult sha256 q).unallocatedResidual
      = q.available - (q.rows.map (allocatedOf q)).sum - (q.rows.map (unmetOf q)).sum := by
  rw [← allocatedTotal_eq sha256, ← unmetTotal_eq sha256]
  show residual q _ = _
  unfold residual
  rw [hp]
  rfl

theorem residual_redistribute (hp : q.redistributionPolicy = .redistributeCapExcess) :
    (finalResult sha256 q).unallocatedResidual
      = amountForFinal q - ((allocationActive q).map (floorOf q)).sum := by
  show residual q _ = _
  unfold residual
  rw [hp, amountForFinal_redistribute hp]
  show (allocationWitness q).remaining - _ = _
  congr 2
  refine List.map_congr_left fun row hrow => ?_
  rw [floorFor_eq ((active_sublist q).subset hrow), floorRows_redistribute hp, if_pos hrow]

theorem residualReason_eq : (finalResult sha256 q).residualReason
    = if 0 < (finalResult sha256 q).unallocatedResidual then (allocationWitness q).residualReason
      else .none := rfl

end

end Allocate

end PRF
