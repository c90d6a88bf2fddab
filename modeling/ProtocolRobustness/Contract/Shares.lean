import ProtocolRobustness.Contract.Level

/-!
# The lookups of `allocate` read at a row

`allocate` keeps its intermediate results in tables and sets of row ids.  Row ids are distinct, so
each lookup is a statement about the row itself.

* `rankLe`, `ranking`        the order of the remainder round and the rows in that order;
* `Allocate.rankedRows`      the rows behind `ranked`;
* `Allocate.allocated_unallocated`, `Allocate.allocated_redistribute`   the amount of a row, by
                             policy, without tables;
* `share`                    the plain largest-remainder division of an amount over a group.
-/

namespace PRF
open Bytes

/-! ## the order of the remainder round -/

/-- larger exact remainder first, then the bytes of the row id -/
def rankLe (amount total : ℤ) (a b : Row) : Prop :=
  Apportion.remainder amount total Row.weight b < Apportion.remainder amount total Row.weight a ∨
    Apportion.remainder amount total Row.weight a = Apportion.remainder amount total Row.weight b ∧
      leBytes a.orderKey b.orderKey

instance (amount total : ℤ) : DecidableRel (rankLe amount total) := fun _ _ =>
  inferInstanceAs (Decidable (_ ∨ _ ∧ _))

instance (amount total : ℤ) : Std.Total (rankLe amount total) where
  total a b := by
    unfold rankLe
    rcases lt_trichotomy (Apportion.remainder amount total Row.weight a)
      (Apportion.remainder amount total Row.weight b) with h | h | h
    · exact Or.inr (Or.inl h)
    · rcases Std.Total.total (r := leBytes) a.orderKey b.orderKey with hb | hb
      · exact Or.inl (Or.inr ⟨h, hb⟩)
      · exact Or.inr (Or.inr ⟨h.symm, hb⟩)
    · exact Or.inl (Or.inl h)

instance (amount total : ℤ) : IsTrans Row (rankLe amount total) where
  trans a b c h h' := by
    unfold rankLe at *
    rcases h with h | ⟨h, hb⟩
    · rcases h' with h' | ⟨h', _⟩
      · exact Or.inl (h'.trans h)
      · exact Or.inl (h' ▸ h)
    · rcases h' with h' | ⟨h', hb'⟩
      · exact Or.inl (h ▸ h')
      · exact Or.inr ⟨h.trans h', IsTrans.trans (r := leBytes) _ _ _ hb hb'⟩

def ranking (amount total : ℤ) (rows : List Row) : List Row :=
  rows.insertionSort (rankLe amount total)

/-- the units the floors of a group leave over, with weights relative to `total` -/
def dustOf (amount total : ℤ) (rows : List Row) : ℤ :=
  Apportion.dust amount total Row.weight rows

/-- the plain largest-remainder division of an amount over a group of rows: the floor of the exact
share, and one unit for the first rows of the ranking as long as there is dust -/
def share (amount : ℤ) (rows : List Row) (row : Row) : ℤ :=
  if weightTotal rows = 0 then 0
  else
    Apportion.floorShare amount (weightTotal rows) Row.weight row +
      if row ∈ (ranking amount (weightTotal rows) rows).take
        (dustOf amount (weightTotal rows) rows).toNat then 1 else 0

theorem ranking_perm (amount total : ℤ) (rows : List Row) :
    (ranking amount total rows).Perm rows :=
  List.perm_insertionSort _ _

theorem ranking_pairwise (amount total : ℤ) (rows : List Row) :
    (ranking amount total rows).Pairwise fun a b =>
      Apportion.remainder amount total Row.weight b
        ≤ Apportion.remainder amount total Row.weight a := by
  refine (List.pairwise_insertionSort (rankLe amount total) rows).imp fun h => ?_
  rcases h with h | ⟨h, _⟩
  · exact h.le
  · exact h.ge

theorem ranking_filter (amount total : ℤ) (rows : List Row) (p : Row → Bool) :
    (ranking amount total rows).filter p = ranking amount total (rows.filter p) :=
  Apportion.filter_sort _ p rows

/-- the ranking reaches only inexact shares -/
theorem remainder_pos_of_mem_take {amount : ℤ} {rows : List Row} (hw : weightTotal rows ≠ 0)
    {row : Row} (h : row ∈ (ranking amount (weightTotal rows) rows).take
      (dustOf amount (weightTotal rows) rows).toNat) :
    0 < Apportion.remainder amount (weightTotal rows) Row.weight row := by
  refine Apportion.pos_of_mem_take (ranking_pairwise _ _ _) _ ?_ row h
  have h1 := Apportion.dust_le_countP amount Row.weight (weightTotal_pos hw) (l := rows) rfl
  rw [(ranking_perm _ _ _).countP_eq]
  unfold dustOf
  omega

theorem compareRemainders_iff {amount total : ℤ} (ht : 0 < total) (a b : Row) :
    leRemainder ⟨a.rowId, Apportion.remainder amount total Row.weight a, total⟩
      ⟨b.rowId, Apportion.remainder amount total Row.weight b, total⟩ ↔ rankLe amount total a b := by
  unfold leRemainder compareRemainders rankLe
  dsimp only
  rcases lt_trichotomy (Apportion.remainder amount total Row.weight b)
    (Apportion.remainder amount total Row.weight a) with h | h | h
  · rw [compare_lt_iff_lt.mpr (mul_lt_mul_of_pos_right h ht)]
    exact iff_of_true (show Ordering.lt ≠ .gt by decide) (Or.inl h)
  · rw [compare_eq_iff_eq.mpr (by rw [h])]
    constructor
    · exact fun hb => Or.inr ⟨h.symm, hb⟩
    · rintro (hlt | ⟨_, hb⟩)
      · exact absurd hlt h.not_lt
      · exact hb
  · rw [compare_gt_iff_gt.mpr (mul_lt_mul_of_pos_right h ht)]
    refine iff_of_false (show ¬ Ordering.gt ≠ .gt by decide) ?_
    rintro (hlt | ⟨he, _⟩)
    · exact absurd hlt h.not_gt
    · exact h.ne he

/-! ## lookups -/

namespace Allocate

section
variable (q : Request)

theorem active_sublist : (allocationActive q).Sublist q.rows := by
  unfold allocationActive
  cases hp : q.redistributionPolicy
  · exact List.filter_sublist
  · exact (witness_inv hp).sublist

theorem floorRows_sublist : (floorRows q).Sublist q.rows := by
  unfold floorRows
  cases q.redistributionPolicy
  · exact List.Sublist.refl _
  · exact active_sublist q

theorem constrained_sublist : (constrained q).Sublist q.rows := by
  unfold constrained
  split
  · exact List.filter_sublist
  · exact List.nil_sublist _

theorem floors_eq : floors q = (floorRows q).map fun row => (row.rowId, floorOf q row) := by
  refine Table.into_fresh [] _ ?_
  rw [List.nil_append, List.map_map]
  exact ((floorRows_sublist q).map Row.rowId).nodup q.ids_nodup

/-- the rows behind `ranked` -/
def rankedRows : List Row :=
  (allocationActive q).insertionSort fun a b => leRemainder (remainderRow q a) (remainderRow q b)

theorem ranked_eq : ranked q = (rankedRows q).map (remainderRow q) :=
  (List.map_insertionSort (fun a b => leRemainder (remainderRow q a) (remainderRow q b)) leRemainder
    (remainderRow q) _ fun _ _ _ _ => Iff.rfl).symm

theorem rankedRows_perm : (rankedRows q).Perm (allocationActive q) :=
  List.perm_insertionSort _ _

def awardedRows : List Row := (rankedRows q).take (units q).toNat

theorem awarded_eq : awarded q = (awardedRows q).map Row.rowId := by
  unfold awarded awardedRows
  rw [ranked_eq, ← List.map_take, List.map_map]
  rfl

variable {q}

theorem mem_active_of_awarded {row : Row} (h : row ∈ awardedRows q) : row ∈ allocationActive q :=
  (rankedRows_perm q).mem_iff.mp (List.mem_of_mem_take h)

theorem awardedRows_nodup : (awardedRows q).Nodup := by
  have h1 : (rankedRows q).Nodup :=
    (rankedRows_perm q).nodup_iff.mpr ((active_sublist q).nodup q.rows_nodup)
  exact (List.take_sublist _ _).nodup h1

variable {row : Row} (h : row ∈ q.rows)
include h

theorem floorFor_eq : floorFor q row.rowId = if row ∈ floorRows q then floorOf q row else 0 := by
  unfold floorFor
  rw [floors_eq, Request.find_rows (floorRows_sublist q) h]
  split <;> rfl

theorem isActive_eq : isActive q row.rowId
    = (row.rowId.truthy && decide (row ∈ allocationActive q)) := by
  unfold isActive someId
  rw [Request.contains_id (active_sublist q) h]

theorem isConstrained_eq : isConstrained q row.rowId = decide (row ∈ constrained q) :=
  Request.contains_id (constrained_sublist q) h

theorem isAwarded_eq : isAwarded q row.rowId = decide (row ∈ awardedRows q) := by
  unfold isAwarded
  rw [awarded_eq, Bool.eq_iff_iff, List.contains_iff_mem, decide_eq_true_eq]
  constructor
  · intro hm
    obtain ⟨a, ha, hid⟩ := List.mem_map.mp hm
    have ha' : a ∈ q.rows := (active_sublist q).subset (mem_active_of_awarded ha)
    exact q.row_eq ha' h hid ▸ ha
  · exact fun hm => List.mem_map_of_mem hm

end

/-! ## the final division -/

section
variable {q : Request}

theorem amountForFinal_nonneg (q : Request) : 0 ≤ amountForFinal q := by
  unfold amountForFinal remaining
  cases hp : q.redistributionPolicy
  · exact q.available_nonneg
  · exact (witness_inv hp).remaining_nonneg

theorem allocationWeight_nonneg (q : Request) : 0 ≤ allocationWeight q := by
  unfold allocationWeight totalWeight
  cases q.redistributionPolicy <;> exact weightTotal_nonneg _

theorem floorOf_zero (h : allocationWeight q = 0) (row : Row) : floorOf q row = 0 :=
  if_neg h.not_gt

theorem units_zero (h : allocationWeight q = 0) : units q = 0 :=
  if_neg fun hu => hu.2.ne' h

theorem units_floor (h : q.roundingPolicy = .floor) : units q = 0 :=
  if_neg fun hu => by rw [h] at hu; exact absurd hu.1 (by decide)

theorem awardedRows_zero (h : units q = 0) : awardedRows q = [] := by
  unfold awardedRows
  rw [h]
  rfl

variable (hw : 0 < allocationWeight q)
include hw

theorem floorOf_eq (row : Row) : floorOf q row
    = Apportion.floorShare (amountForFinal q) (allocationWeight q) Row.weight row := by
  unfold floorOf
  rw [if_pos hw, Int.tdiv_eq_ediv_of_nonneg
    (mul_nonneg (amountForFinal_nonneg q) row.weight_nonneg)]
  rfl

theorem remainderRow_eq (row : Row) : remainderRow q row
    = ⟨row.rowId, Apportion.remainder (amountForFinal q) (allocationWeight q) Row.weight row,
        allocationWeight q⟩ := by
  unfold remainderRow
  rw [if_pos hw, Int.fmod_eq_emod_of_nonneg _ hw.le, max_eq_right (by omega)]
  rfl

theorem rankedRows_eq : rankedRows q
    = ranking (amountForFinal q) (allocationWeight q) (allocationActive q) := by
  unfold rankedRows ranking
  congr 1
  funext a b
  rw [remainderRow_eq hw, remainderRow_eq hw, compareRemainders_iff hw]

theorem units_eq (hr : q.roundingPolicy = .largestRemainder) :
    units q = dustOf (amountForFinal q) (allocationWeight q) (floorRows q) := by
  unfold units
  rw [if_pos ⟨hr, hw⟩, floors_eq, List.map_map]
  unfold dustOf Apportion.dust
  congr 2
  exact List.map_congr_left fun row _ => floorOf_eq hw row

end

/-! ## `:unallocated` -/

section
variable {q : Request} (hp : q.redistributionPolicy = .unallocated)
include hp

theorem committed_unallocated : committed q = [] := by
  unfold committed allocationWitness
  rw [hp]
  dsimp only
  split <;> rfl

theorem allocationWeight_unallocated : allocationWeight q = weightTotal q.rows := by
  unfold allocationWeight totalWeight
  rw [hp]

theorem amountForFinal_unallocated : amountForFinal q = q.available := by
  unfold amountForFinal
  rw [hp]

theorem floorRows_unallocated : floorRows q = q.rows := by
  unfold floorRows
  rw [hp]

omit hp in
theorem constrained_zero_weight (hw : weightTotal q.rows = 0) : constrained q = [] := by
  unfold constrained totalWeight
  rw [if_neg fun h => h.2.ne' hw]

theorem mem_constrained (hw : weightTotal q.rows ≠ 0) {row : Row} (h : row ∈ q.rows) :
    row ∈ constrained q
      ↔ row.effectiveCap * weightTotal q.rows ≤ q.available * row.weight := by
  unfold constrained totalWeight constrainedOf
  rw [if_pos ⟨hp, weightTotal_pos hw⟩, List.mem_filter, capConstrained_iff]
  exact ⟨And.right, fun hc => ⟨h, hc⟩⟩

end

end Allocate

/-- the rows whose caps do not bind when the available amount is divided over all rows -/
def Request.uncapped (q : Request) : List Row :=
  q.rows.filter fun row => q.available * row.weight < row.effectiveCap * weightTotal q.rows

namespace Allocate

section
variable {q : Request} (hp : q.redistributionPolicy = .unallocated)
include hp

theorem active_unallocated (hw : weightTotal q.rows ≠ 0) : allocationActive q = q.uncapped := by
  unfold allocationActive constrainedIds
  rw [hp]
  unfold constrained totalWeight constrainedOf
  rw [if_pos ⟨hp, weightTotal_pos hw⟩]
  dsimp only
  rw [removeIds_filter (List.Sublist.refl _)]
  refine List.filter_congr fun row _ => ?_
  unfold capConstrained
  rw [← decide_not, decide_eq_decide, not_le]

theorem allocated_unallocated {row : Row} (h : row ∈ q.rows) :
    allocatedOf q row
      = if row ∈ constrained q then row.effectiveCap
        else if row.rowId.truthy ∧ row ∈ allocationActive q then
          floorOf q row + if row ∈ awardedRows q then 1 else 0
        else 0 := by
  unfold allocatedOf uncappedAward
  rw [committed_unallocated hp, Table.find_nil, isConstrained_eq h, isActive_eq h, isAwarded_eq h, floorFor_eq h,
    floorRows_unallocated hp, if_pos h]
  simp

theorem unmet_unallocated {row : Row} (h : row ∈ q.rows) :
    unmetOf q row = max 0 (floorOf q row - allocatedOf q row) := by
  unfold unmetOf
  rw [hp, floorFor_eq h, floorRows_unallocated hp, if_pos h]

end

/-! ## `:redistribute-cap-excess` -/

section
variable {q : Request} (hp : q.redistributionPolicy = .redistributeCapExcess)
include hp

theorem active_redistribute : allocationActive q = (allocationWitness q).active := by
  unfold allocationActive
  rw [hp]

theorem allocationWeight_redistribute :
    allocationWeight q = weightTotal (allocationActive q) := by
  unfold allocationWeight
  rw [active_redistribute hp, hp]

theorem amountForFinal_redistribute : amountForFinal q = (allocationWitness q).remaining := by
  unfold amountForFinal remaining
  rw [hp]

theorem floorRows_redistribute : floorRows q = allocationActive q := by
  unfold floorRows
  rw [hp]

theorem constrained_redistribute : constrained q = [] := by
  unfold constrained
  rw [if_neg fun h => by rw [hp] at h; exact absurd h.1 (by decide)]

theorem find_committed {row : Row} (h : row ∈ q.rows) : Table.find (committed q) row.rowId
    = if row ∈ allocationActive q then none else some row.effectiveCap := by
  rw [active_redistribute hp]
  exact (witness_inv hp).committed row h

theorem allocated_redistribute {row : Row} (h : row ∈ q.rows) :
    allocatedOf q row
      = if row ∈ allocationActive q then
          if row.rowId.truthy then floorOf q row + if row ∈ awardedRows q then 1 else 0 else 0
        else row.effectiveCap := by
  unfold allocatedOf uncappedAward
  rw [find_committed hp h, isConstrained_eq h, constrained_redistribute hp, isActive_eq h,
    isAwarded_eq h, floorFor_eq h, floorRows_redistribute hp]
  by_cases hm : row ∈ allocationActive q
  · simp [hm]
  · simp [hm]

theorem unmet_redistribute (row : Row) : unmetOf q row = 0 := by
  unfold unmetOf
  rw [hp]

end

end Allocate

end PRF
