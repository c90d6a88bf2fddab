import ProtocolRobustness.Contract.Outcome

/-!
# Conservation

What an allocation gives out, what it records as unmet and what it leaves over, against the
available amount.

* `Conserves`                the law a result is held to;
* `ConservesWhen`            the requests on which it holds;
* `allocate_conserves_iff`   `allocate` conserves on these requests and on no others.

Dust is where it fails.  Under `:unallocated` the units are counted on the floors of all rows and
handed to the uncapped rows only, so a residual without a reason is left when there are too few;
under `:redistribute-cap-excess` the residual counts the dust that has been handed out.
-/

namespace PRF
open Bytes Fallible

structure Conserves (r : AllocationResult) : Prop where
  total : r.allocatedTotal + (r.rows.map ResultRow.unmet).sum + r.unallocatedResidual = r.available
  available_nonneg : 0 ≤ r.available
  allocated_nonneg : ∀ row ∈ r.rows, 0 ≤ row.allocated
  allocatedTotal_nonneg : 0 ≤ r.allocatedTotal
  unmet_nonneg : ∀ row ∈ r.rows, 0 ≤ row.unmet
  residual_nonneg : 0 ≤ r.unallocatedResidual
  reason : r.residualReason = .none ↔ r.unallocatedResidual = 0

/-- the dust of the whole division, and the uncapped rows it is handed to -/
def Request.dust (q : Request) : ℤ := dustOf q.available (weightTotal q.rows) q.rows

def Request.dustRows (q : Request) : List Row :=
  (ranking q.available (weightTotal q.rows) q.uncapped).take q.dust.toNat

def ConservesWhen (q : Request) : Prop :=
  weightTotal q.rows = 0 ∨
    match q.redistributionPolicy with
    | .unallocated => q.roundingPolicy = .largestRemainder →
        q.dust ≤ q.uncapped.length ∧ ∀ row ∈ q.dustRows, row.rowId.truthy
    | .redistributeCapExcess =>
        (q.capacity ≤ q.available ∧ ∀ row ∈ q.rows, row.rowId.truthy = false → row ∈ q.idleRows) ∨
        (q.available < q.capacity ∧ ∃ lam, q.IsLevel lam ∧
          (∀ row ∈ q.rows, row.rowId.truthy = false →
            lam * row.weight < row.effectiveCap ∧ lam * row.weight < 1) ∧
          (q.roundingPolicy = .largestRemainder →
            ∀ row ∈ q.openRows lam, ∃ n : ℤ, lam * row.weight = n))

namespace Allocate

section
variable {q : Request}

theorem allocated_nonneg {row : Row} (h : row ∈ q.rows) : 0 ≤ allocatedOf q row := by
  have hc := row.effectiveCap_nonneg
  have hf : 0 ≤ floorOf q row := by
    rcases (allocationWeight_nonneg q).eq_or_lt with h0 | h0
    · rw [floorOf_zero h0.symm]
    · rw [floorOf_eq h0]
      exact Apportion.floorShare_nonneg _ _ (amountForFinal_nonneg q) h0 row.weight_nonneg
  cases hp : q.redistributionPolicy with
  | unallocated =>
    rw [allocated_unallocated hp h]
    split_ifs <;> omega
  | redistributeCapExcess =>
    rw [allocated_redistribute hp h]
    split_ifs <;> omega

theorem unmet_nonneg (row : Row) : 0 ≤ unmetOf q row := by
  unfold unmetOf
  cases q.redistributionPolicy
  · exact le_max_left _ _
  · exact le_rfl

/-- what is left to show of a result -/
theorem conserves_iff (sha256 : ByteString → String) : Conserves (finalResult sha256 q) ↔
    (q.rows.map (allocatedOf q)).sum + (q.rows.map (unmetOf q)).sum
        + (finalResult sha256 q).unallocatedResidual = q.available ∧
      0 ≤ (finalResult sha256 q).unallocatedResidual ∧
      ((finalResult sha256 q).residualReason = .none
        ↔ (finalResult sha256 q).unallocatedResidual = 0) := by
  constructor
  · intro h
    have ht := h.total
    rw [allocatedTotal_eq, unmetTotal_eq] at ht
    exact ⟨ht, h.residual_nonneg, h.reason⟩
  · rintro ⟨ht, hn, hr⟩
    refine
      { total := ?_
        available_nonneg := q.available_nonneg
        allocated_nonneg := ?_
        allocatedTotal_nonneg := ?_
        unmet_nonneg := ?_
        residual_nonneg := hn
        reason := hr }
    · rw [allocatedTotal_eq, unmetTotal_eq]
      exact ht
    · intro r hr
      obtain ⟨row, hrow, rfl⟩ := List.mem_map.mp hr
      rw [finalRow_allocated]
      exact allocated_nonneg hrow
    · rw [allocatedTotal_eq]
      exact Apportion.sum_map_nonneg fun row hrow => allocated_nonneg hrow
    · intro r hr
      obtain ⟨row, hrow, rfl⟩ := List.mem_map.mp hr
      rw [finalRow_unmet]
      exact unmet_nonneg row

end

/-! ## `:unallocated` -/

def unitRows (q : Request) : List Row := (awardedRows q).filter fun row => row.rowId.truthy

section
variable {q : Request} (hp : q.redistributionPolicy = .unallocated)
include hp

theorem not_constrained_of_awarded {row : Row} (h : row ∈ awardedRows q) :
    row ∉ constrained q := by
  have hact := mem_active_of_awarded h
  unfold allocationActive at hact
  rw [hp] at hact
  have hn := (List.mem_filter.mp hact).2
  rw [Bool.not_eq_true', ← Bool.not_eq_true, List.contains_iff_mem] at hn
  exact fun hc => hn (List.mem_map_of_mem hc)

theorem mem_active_unallocated {row : Row} (h : row ∈ q.rows) :
    row ∈ allocationActive q ↔ row ∉ constrained q := by
  unfold allocationActive
  rw [hp]
  show row ∈ removeIds (constrainedIds q) q.rows ↔ _
  unfold removeIds constrainedIds
  rw [List.mem_filter, Request.contains_id (constrained_sublist q) h]
  simp [h]

theorem cap_le_floor {row : Row} (h : row ∈ constrained q) : row.effectiveCap ≤ floorOf q row := by
  have hw : 0 < weightTotal q.rows := by
    by_contra hn
    rw [constrained_zero_weight (le_antisymm (not_lt.mp hn) (weightTotal_nonneg _))] at h
    cases h
  have hmem := (constrained_sublist q).subset h
  rw [mem_constrained hp hw.ne' hmem] at h
  rw [floorOf_eq (allocationWeight_unallocated hp ▸ hw), allocationWeight_unallocated hp,
    amountForFinal_unallocated hp]
  exact (Int.le_ediv_iff_mul_le hw).mpr h

theorem allocated_add_unmet {row : Row} (h : row ∈ q.rows) :
    allocatedOf q row + unmetOf q row = floorOf q row + if row ∈ unitRows q then 1 else 0 := by
  have hu : row ∈ unitRows q ↔ row ∈ awardedRows q ∧ row.rowId.truthy := List.mem_filter
  have hf : 0 ≤ floorOf q row := by
    rcases (allocationWeight_nonneg q).eq_or_lt with h0 | h0
    · rw [floorOf_zero h0.symm]
    · rw [floorOf_eq h0]
      exact Apportion.floorShare_nonneg _ _ (amountForFinal_nonneg q) h0 row.weight_nonneg
  have hact := mem_active_unallocated hp h
  rw [unmet_unallocated hp h, allocated_unallocated hp h]
  by_cases hc : row ∈ constrained q
  · have hle := cap_le_floor hp hc
    have hn : row ∉ unitRows q := fun hm => not_constrained_of_awarded hp (hu.mp hm).1 hc
    rw [if_pos hc, if_neg hn]
    omega
  · by_cases ht : row.rowId.truthy
    · by_cases ha : row ∈ awardedRows q <;> simp [hc, hu, ht, ha, hact]
    · simp [hc, hu, ht, hf]

theorem residual_eq_dust (sha256 : ByteString → String) :
    (finalResult sha256 q).unallocatedResidual
      = q.available - (q.rows.map (floorOf q)).sum - (unitRows q).length := by
  have hsub : ∀ row ∈ unitRows q, row ∈ q.rows := fun row hrow =>
    (active_sublist q).subset (mem_active_of_awarded (List.mem_of_mem_filter hrow))
  have hsum : (q.rows.map (allocatedOf q)).sum + (q.rows.map (unmetOf q)).sum
      = (q.rows.map (floorOf q)).sum + (unitRows q).length := by
    have hunits : (q.rows.map fun row => if row ∈ unitRows q then (1 : ℤ) else 0).sum
        = (unitRows q).length :=
      Apportion.sum_units q.rows_nodup (awardedRows_nodup.filter _) hsub
    rw [← List.sum_map_add, ← hunits, ← List.sum_map_add]
    exact congrArg List.sum (List.map_congr_left fun row hrow => allocated_add_unmet hp hrow)
  rw [residual_unallocated sha256 q hp]
  omega

theorem conserves_unallocated (sha256 : ByteString → String) : Conserves (finalResult sha256 q) ↔
    0 ≤ (finalResult sha256 q).unallocatedResidual ∧
      ((finalResult sha256 q).residualReason = .none
        ↔ (finalResult sha256 q).unallocatedResidual = 0) := by
  rw [conserves_iff, residual_unallocated sha256 q hp]
  exact and_iff_right (by omega)

theorem conserves_unallocated_zero (sha256 : ByteString → String)
    (hw : weightTotal q.rows = 0) : Conserves (finalResult sha256 q) := by
  have h0 : allocationWeight q = 0 := by rw [allocationWeight_unallocated hp, hw]
  have hres : (finalResult sha256 q).unallocatedResidual = q.available := by
    have hsum : (q.rows.map (floorOf q)).sum = 0 :=
      List.sum_eq_zero fun x hx => by
        obtain ⟨row, _, rfl⟩ := List.mem_map.mp hx
        exact floorOf_zero h0 row
    have hlen : (unitRows q).length = 0 := by
      unfold unitRows
      rw [awardedRows_zero (units_zero h0)]
      rfl
    rw [residual_eq_dust hp, hsum, hlen]
    simp
  have hreason : (allocationWitness q).residualReason = .noActiveWeight := by
    unfold allocationWitness
    rw [hp]
    simp [hw]
  have hnn := q.available_nonneg
  rw [conserves_unallocated hp, residualReason_eq, hres, hreason]
  refine ⟨hnn, ?_⟩
  split_ifs with hpos
  · exact iff_of_false (by decide) hpos.ne'
  · exact iff_of_true rfl (by omega)

end

theorem length_filter_take_iff {α : Type*} (l : List α) (p : α → Bool) (n : ℕ) :
    ((l.take n).filter p).length = n ↔ n ≤ l.length ∧ ∀ a ∈ l.take n, p a := by
  have h1 := List.length_filter_le p (l.take n)
  have h2 : (l.take n).length = min n l.length := List.length_take
  constructor
  · intro h
    refine ⟨by omega, ?_⟩
    exact List.length_filter_eq_length_iff.mp (by omega)
  · rintro ⟨hn, hall⟩
    rw [List.length_filter_eq_length_iff.mpr hall]
    omega

section
variable {q : Request} (hp : q.redistributionPolicy = .unallocated)
  (hw : weightTotal q.rows ≠ 0)
include hp hw

theorem weight_pos_unallocated : 0 < allocationWeight q := by
  rw [allocationWeight_unallocated hp]
  exact weightTotal_pos hw

theorem dust_eq_unallocated : q.available - (q.rows.map (floorOf q)).sum = q.dust := by
  have hpos := weight_pos_unallocated hp hw
  unfold Request.dust dustOf Apportion.dust
  congr 2
  refine List.map_congr_left fun row _ => ?_
  rw [floorOf_eq hpos, allocationWeight_unallocated hp, amountForFinal_unallocated hp]

omit hp in
theorem Request.dust_nonneg : 0 ≤ q.dust :=
  Apportion.dust_nonneg q.available Row.weight (weightTotal_pos hw) rfl

theorem awardedRows_unallocated (hr : q.roundingPolicy = .largestRemainder) :
    awardedRows q = q.dustRows := by
  have hpos := weight_pos_unallocated hp hw
  unfold awardedRows Request.dustRows
  rw [rankedRows_eq hpos, units_eq hpos hr, allocationWeight_unallocated hp,
    amountForFinal_unallocated hp, floorRows_unallocated hp, active_unallocated hp hw]
  rfl

theorem witness_reason_unallocated :
    (allocationWitness q).residualReason = roundingReason q.roundingPolicy := by
  unfold allocationWitness
  rw [hp]
  simp [hw]

theorem conserves_unallocated_floor (sha256 : ByteString → String)
    (hr : q.roundingPolicy = .floor) : Conserves (finalResult sha256 q) := by
  have hnn := Request.dust_nonneg hw
  have hlen : (unitRows q).length = 0 := by
    unfold unitRows
    rw [awardedRows_zero (units_floor hr)]
    rfl
  rw [conserves_unallocated hp, residualReason_eq, residual_eq_dust hp, dust_eq_unallocated hp hw,
    hlen, witness_reason_unallocated hp hw, hr]
  refine ⟨by omega, ?_⟩
  split_ifs with hpos
  · exact iff_of_false (show ResidualReason.floorRounding ≠ .none by decide) hpos.ne'
  · exact iff_of_true rfl (by omega)

theorem conserves_unallocated_largestRemainder (sha256 : ByteString → String)
    (hr : q.roundingPolicy = .largestRemainder) : Conserves (finalResult sha256 q) ↔
      q.dust ≤ q.uncapped.length ∧ ∀ row ∈ q.dustRows, row.rowId.truthy := by
  have hnn := Request.dust_nonneg hw
  have hlen : (unitRows q).length ≤ q.dust.toNat := by
    unfold unitRows
    rw [awardedRows_unallocated hp hw hr]
    exact (List.length_filter_le _ _).trans (List.length_take_le _ _)
  have hiff : (unitRows q).length = q.dust.toNat
      ↔ q.dust.toNat ≤ q.uncapped.length ∧ ∀ row ∈ q.dustRows, row.rowId.truthy := by
    unfold unitRows
    rw [awardedRows_unallocated hp hw hr]
    unfold Request.dustRows
    rw [length_filter_take_iff, (ranking_perm _ _ _).length_eq]
  have hreason : (finalResult sha256 q).residualReason = .none := by
    rw [residualReason_eq, witness_reason_unallocated hp hw, hr]
    split_ifs <;> rfl
  rw [conserves_unallocated hp, residual_eq_dust hp, dust_eq_unallocated hp hw,
    iff_true_left hreason]
  rw [show q.dust ≤ (q.uncapped.length : ℤ) ↔ q.dust.toNat ≤ q.uncapped.length by omega, ← hiff]
  omega

end

/-! ## `:redistribute-cap-excess` -/

section
variable {q : Request} (hp : q.redistributionPolicy = .redistributeCapExcess)
include hp

theorem sum_allocated_redistribute : (q.rows.map (allocatedOf q)).sum
    = ((allocationActive q).map (allocatedOf q)).sum + (q.available - amountForFinal q) := by
  have hsub := active_sublist q
  have hact : q.rows.filter (fun row => decide (row ∈ allocationActive q)) = allocationActive q :=
    (sublist_eq_filter hsub q.rows_nodup fun row _ => by simp).symm
  have h1 := Apportion.sum_filter_add q.rows (fun row => decide (row ∈ allocationActive q))
    (allocatedOf q)
  have h2 := Apportion.sum_filter_add q.rows (fun row => decide (row ∈ allocationActive q))
    Row.effectiveCap
  have h3 : ((q.rows.filter fun row => !decide (row ∈ allocationActive q)).map
      (allocatedOf q)).sum
      = ((q.rows.filter fun row => !decide (row ∈ allocationActive q)).map
        Row.effectiveCap).sum := by
    refine congrArg List.sum (List.map_congr_left fun row hrow => ?_)
    obtain ⟨hmem, hn⟩ := List.mem_filter.mp hrow
    rw [allocated_redistribute hp hmem, if_neg (by simpa using hn)]
  have h4 := (witness_inv hp).paid
  rw [← active_redistribute hp, ← amountForFinal_redistribute hp] at h4
  rw [hact] at h1 h2
  unfold capTotal at h4
  omega

theorem sum_unmet_redistribute : (q.rows.map (unmetOf q)).sum = 0 :=
  List.sum_eq_zero fun x hx => by
    obtain ⟨row, _, rfl⟩ := List.mem_map.mp hx
    exact unmet_redistribute hp row

/-- the floors of the rows the host does not see as active -/
def unseenFloors (q : Request) : ℤ :=
  ((allocationActive q).map fun row => if row.rowId.truthy then 0 else floorOf q row).sum

theorem sum_allocated_active : ((allocationActive q).map (allocatedOf q)).sum
    = ((allocationActive q).map (floorOf q)).sum - unseenFloors q + (unitRows q).length := by
  have hsub : ∀ row ∈ unitRows q, row ∈ allocationActive q := fun row hrow =>
    mem_active_of_awarded (List.mem_of_mem_filter hrow)
  have hunits : ((allocationActive q).map fun row =>
      if row ∈ unitRows q then (1 : ℤ) else 0).sum = (unitRows q).length :=
    Apportion.sum_units ((active_sublist q).nodup q.rows_nodup) (awardedRows_nodup.filter _) hsub
  have hrow : ∀ row ∈ allocationActive q, allocatedOf q row
      + (if row.rowId.truthy then 0 else floorOf q row)
      = floorOf q row + if row ∈ unitRows q then 1 else 0 := by
    intro row hrow
    have hu : row ∈ unitRows q ↔ row ∈ awardedRows q ∧ row.rowId.truthy := List.mem_filter
    rw [allocated_redistribute hp ((active_sublist q).subset hrow), if_pos hrow]
    by_cases ht : row.rowId.truthy
    · by_cases ha : row ∈ awardedRows q <;> simp [hu, ht, ha]
    · simp [hu, ht]
  have hsum := congrArg List.sum (List.map_congr_left hrow)
  rw [List.sum_map_add, List.sum_map_add, hunits] at hsum
  unfold unseenFloors
  omega

theorem conserves_redistribute (sha256 : ByteString → String) : Conserves (finalResult sha256 q) ↔
    (unitRows q).length = unseenFloors q ∧ 0 ≤ (finalResult sha256 q).unallocatedResidual ∧
      ((finalResult sha256 q).residualReason = .none
        ↔ (finalResult sha256 q).unallocatedResidual = 0) := by
  rw [conserves_iff, sum_allocated_redistribute hp, sum_allocated_active hp,
    sum_unmet_redistribute hp, residual_redistribute sha256 q hp]
  refine and_congr_left fun _ => ?_
  omega

theorem conserves_redistribute_zero (sha256 : ByteString → String) (h0 : allocationWeight q = 0)
    (hreason : (allocationWitness q).residualReason ≠ .none) :
    Conserves (finalResult sha256 q) := by
  have hzero : ∀ row, floorOf q row = 0 := floorOf_zero h0
  have hun : unseenFloors q = 0 :=
    List.sum_eq_zero fun x hx => by
      obtain ⟨row, _, rfl⟩ := List.mem_map.mp hx
      simp [hzero row]
  have hunits : unitRows q = [] := by
    unfold unitRows
    rw [awardedRows_zero (units_zero h0)]
    rfl
  have hsum : ((allocationActive q).map (floorOf q)).sum = 0 :=
    List.sum_eq_zero fun x hx => by
      obtain ⟨row, _, rfl⟩ := List.mem_map.mp hx
      exact hzero row
  have hnn := amountForFinal_nonneg q
  rw [conserves_redistribute hp, residualReason_eq, residual_redistribute sha256 q hp, hun, hunits,
    hsum]
  refine ⟨rfl, by omega, ?_⟩
  split_ifs with hpos
  · exact iff_of_false hreason hpos.ne'
  · exact iff_of_true rfl (by omega)

omit hp in
theorem reason_exhausted (he : Exhausted q (allocationWitness q)) :
    (allocationWitness q).residualReason ≠ .none := by
  rw [he.reason]
  split_ifs <;> decide

variable {lam : ℚ} (hl : Levelled q (allocationWitness q) lam)
include hl

theorem weight_pos_levelled : 0 < allocationWeight q := by
  rw [allocationWeight_redistribute hp, active_redistribute hp]
  exact hl.weight_pos

theorem floorOf_levelled (row : Row) : floorOf q row
    = Apportion.floorShare (allocationWitness q).remaining
        (weightTotal (allocationWitness q).active) Row.weight row := by
  rw [floorOf_eq (weight_pos_levelled hp hl), allocationWeight_redistribute hp,
    active_redistribute hp, amountForFinal_redistribute hp]

theorem dust_levelled : amountForFinal q - ((allocationActive q).map (floorOf q)).sum
    = dustOf (allocationWitness q).remaining (weightTotal (allocationWitness q).active)
        (allocationWitness q).active := by
  rw [amountForFinal_redistribute hp, active_redistribute hp]
  unfold dustOf Apportion.dust
  congr 2
  exact List.map_congr_left fun row _ => floorOf_levelled hp hl row

theorem dust_levelled_eq_zero_iff :
    amountForFinal q - ((allocationActive q).map (floorOf q)).sum = 0
      ↔ ∀ row ∈ q.openRows lam, ∃ n : ℤ, lam * row.weight = n := by
  rw [dust_levelled hp hl]
  unfold dustOf
  rw [Apportion.dust_eq_zero_iff _ _ hl.weight_pos rfl, hl.active]
  refine forall₂_congr fun row _ => ?_
  rw [← hl.active, hl.remainder_eq_zero_iff]

theorem unseenFloors_eq_zero_iff : unseenFloors q = 0
    ↔ ∀ row ∈ allocationActive q, row.rowId.truthy = false → lam * row.weight < 1 := by
  have hrem := (witness_inv hp).remaining_nonneg
  have hnn : ∀ row ∈ allocationActive q, 0 ≤ if row.rowId.truthy then 0 else floorOf q row := by
    intro row _
    rw [floorOf_levelled hp hl]
    split
    · exact le_rfl
    · exact Apportion.floorShare_nonneg _ _ hrem hl.weight_pos row.weight_nonneg
  have hiff : ∀ row, (if row.rowId.truthy then 0 else floorOf q row) = 0
      ↔ (row.rowId.truthy = false → lam * row.weight < 1) := by
    intro row
    rw [← hl.floorShare_eq_zero_iff row hrem, floorOf_levelled hp hl]
    cases row.rowId.truthy <;> simp
  unfold unseenFloors
  constructor
  · intro h row hrow
    exact (hiff row).mp (Apportion.eq_zero_of_sum_eq_zero hnn h row hrow)
  · intro h
    refine List.sum_eq_zero fun x hx => ?_
    obtain ⟨row, hrow, rfl⟩ := List.mem_map.mp hx
    exact (hiff row).mpr (h row hrow)

theorem conserves_levelled (sha256 : ByteString → String) : Conserves (finalResult sha256 q) ↔
    (∀ row ∈ allocationActive q, row.rowId.truthy = false → lam * row.weight < 1) ∧
      (q.roundingPolicy = .largestRemainder →
        ∀ row ∈ q.openRows lam, ∃ n : ℤ, lam * row.weight = n) := by
  have hdust : 0 ≤ amountForFinal q - ((allocationActive q).map (floorOf q)).sum := by
    rw [dust_levelled hp hl]
    exact Apportion.dust_nonneg _ _ hl.weight_pos rfl
  rw [← dust_levelled_eq_zero_iff hp hl, ← unseenFloors_eq_zero_iff hp hl,
    conserves_redistribute hp, residualReason_eq, residual_redistribute sha256 q hp, hl.reason]
  have hnone : units q = 0 → unitRows q = [] := by
    intro h
    unfold unitRows
    rw [awardedRows_zero h]
    rfl
  cases hr : q.roundingPolicy with
  | floor =>
    rw [hnone (units_floor hr)]
    have hreason : (if 0 < amountForFinal q - ((allocationActive q).map (floorOf q)).sum
        then roundingReason .floor else .none) = .none
        ↔ amountForFinal q - ((allocationActive q).map (floorOf q)).sum = 0 := by
      split_ifs with hpos
      · exact iff_of_false (show ResidualReason.floorRounding ≠ .none by decide) hpos.ne'
      · exact iff_of_true rfl (by omega)
    simp only [hreason, hdust, List.length_nil, Nat.cast_zero, and_true, reduceCtorEq,
      false_implies]
    exact eq_comm
  | largestRemainder =>
    have hunits : units q = amountForFinal q - ((allocationActive q).map (floorOf q)).sum := by
      rw [units_eq (weight_pos_levelled hp hl) hr, dust_levelled hp hl,
        allocationWeight_redistribute hp, active_redistribute hp, amountForFinal_redistribute hp,
        floorRows_redistribute hp, active_redistribute hp]
    have hreason : (if 0 < amountForFinal q - ((allocationActive q).map (floorOf q)).sum
        then roundingReason .largestRemainder else .none) = .none := by
      split_ifs <;> rfl
    rw [iff_true_left hreason]
    constructor
    · rintro ⟨hlen, _, h0⟩
      rw [hnone (hunits.trans h0)] at hlen
      exact ⟨hlen.symm, fun _ => h0⟩
    · rintro ⟨hlen, h0⟩
      rw [hnone (hunits.trans (h0 rfl)), hlen]
      exact ⟨rfl, hdust, h0 rfl⟩

end

end Allocate

open Allocate in
/-- **Conservation, exactly where it holds.** -/
theorem allocate_conserves_iff (sha256 : ByteString → String) {v : Value} {q : Request}
    (h : normalizeRequest v = .ok q) :
    (∃ r, allocate sha256 v = .ok r ∧ Conserves r) ↔ ConservesWhen q := by
  rw [exists_allocate_iff sha256 h]
  unfold ConservesWhen
  by_cases hw : weightTotal q.rows = 0
  · refine iff_of_true ?_ (Or.inl hw)
    cases hp : q.redistributionPolicy with
    | unallocated => exact ⟨seen_unallocated hp, conserves_unallocated_zero hp sha256 hw⟩
    | redistributeCapExcess =>
      have hwit := witness_zero_weight hp hw
      have hact : allocationActive q = q.rows := by rw [active_redistribute hp, hwit]
      refine ⟨(seen_redistribute hp).mpr fun row hrow _ => hact ▸ hrow, ?_⟩
      apply conserves_redistribute_zero hp
      · rw [allocationWeight_redistribute hp, hact, hw]
      · rw [hwit]
        show (if q.rows = [] then ResidualReason.noRemainingCapacity else .noActiveWeight) ≠ .none
        split_ifs <;> decide
  · rw [or_iff_right hw]
    cases hp : q.redistributionPolicy with
    | unallocated =>
      rw [and_iff_right (seen_unallocated hp)]
      cases hr : q.roundingPolicy with
      | floor => exact iff_of_true (conserves_unallocated_floor hp hw sha256 hr) nofun
      | largestRemainder =>
        rw [conserves_unallocated_largestRemainder hp hw sha256 hr]
        exact ⟨fun h _ => h, fun h => h rfl⟩
    | redistributeCapExcess =>
      rw [seen_redistribute hp]
      rcases loop_end hp hw with he | ⟨lam, hl⟩
      · have hcon : Conserves (finalResult sha256 q) := by
          apply conserves_redistribute_zero hp
          · rw [allocationWeight_redistribute hp, active_redistribute hp, he.weight]
          · exact reason_exhausted he
        rw [and_iff_left hcon, active_redistribute hp, he.active]
        constructor
        · exact fun hs => Or.inl ⟨he.capacity_le, hs⟩
        · rintro (⟨_, hs⟩ | ⟨hlt, _⟩)
          · exact hs
          · exact absurd hlt (not_lt.mpr he.capacity_le)
      · have hmem : ∀ row ∈ q.rows, row ∈ allocationActive q
            ↔ lam * row.weight < row.effectiveCap := by
          intro row hrow
          rw [active_redistribute hp, hl.active]
          show row ∈ q.rows.filter _ ↔ _
          rw [List.mem_filter, decide_eq_true_eq]
          exact and_iff_right hrow
        rw [conserves_levelled hp hl]
        constructor
        · rintro ⟨hs, hone, hint⟩
          refine Or.inr ⟨hl.available_lt, lam, hl.isLevel, fun row hrow ht => ?_, hint⟩
          exact ⟨(hmem row hrow).mp (hs row hrow ht), hone row (hs row hrow ht) ht⟩
        · rintro (⟨hle, _⟩ | ⟨_, mu, hmu, hfalsy, hint⟩)
          · exact absurd hle (not_le.mpr hl.available_lt)
          · obtain rfl := q.level_unique hl.available_lt hl.isLevel hmu
            refine ⟨fun row hrow ht => (hmem row hrow).mpr (hfalsy row hrow ht).1, ?_, hint⟩
            exact fun row hrow ht => (hfalsy row ((active_sublist q).subset hrow) ht).2

/-- one unit between two equal rows -/
def halves (redistributionPolicy : Key) : Value :=
  requestOf 1 [rowOf (.int 1) 10 1, rowOf (.int 2) 10 1] (key "largest-remainder")
    redistributionPolicy

theorem allocate_conserves_iff_halves : ∃ q, normalizeRequest (halves (key "unallocated")) = .ok q ∧
    ((∃ r, allocate (fun _ => "") (halves (key "unallocated")) = .ok r ∧ Conserves r)
      ↔ ConservesWhen q) := by
  obtain ⟨q, hq⟩ := exists_ok (x := normalizeRequest (halves (key "unallocated")))
    (by decide +kernel)
  exact ⟨q, hq, allocate_conserves_iff _ hq⟩

/-- the unit is allocated and is the residual as well -/
theorem allocate_conserves_counterexample :
    (normalizeRequest (halves (key "redistribute-cap-excess"))).isOk ∧
      ¬ ∃ r, allocate (fun _ => "") (halves (key "redistribute-cap-excess")) = .ok r
        ∧ Conserves r := by
  refine ⟨by decide +kernel, ?_⟩
  rintro ⟨r, hr, hc⟩
  have h : (allocate (fun _ => "") (halves (key "redistribute-cap-excess"))).toOption.map
      (fun r => (r.allocatedTotal + (r.rows.map ResultRow.unmet).sum + r.unallocatedResidual,
        r.available)) = some (2, 1) := by decide +kernel
  rw [hr] at h
  have ht := hc.total
  obtain ⟨h2, h1⟩ := Prod.mk.inj (Option.some.inj h)
  omega

end PRF
