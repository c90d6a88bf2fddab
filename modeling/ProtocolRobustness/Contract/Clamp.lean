import ProtocolRobustness.Contract.Conservation

/-!
# The clamp of the plain largest-remainder division

The specification of `:unallocated` with `:largest-remainder`: divide the available amount over all
rows, then cut each share at the effective cap and record the rest of the share as unmet.

* `Clamps`               a result is that clamp;
* `ClampsWhen`           the requests on which `allocate` gives it;
* `allocate_clamps_iff`  these and no others.

The code ranks the uncapped rows only.  It agrees with the division over all rows as long as the
units of dust reach no capped row there.
-/

namespace PRF
open Bytes Fallible

structure ClampsRow (q : Request) (row : Row) (out : ResultRow) : Prop where
  rowId : out.rowId = row.rowId
  allocated : out.allocated = min row.effectiveCap (share q.available q.rows row)
  unmet : out.unmet = share q.available q.rows row - out.allocated
  le_ceil : out.allocated ≤ ⌈(q.available * row.weight : ℚ) / weightTotal q.rows⌉
  zero_weight : row.weight = 0 → out.allocated = 0

def Clamps (q : Request) (r : AllocationResult) : Prop :=
  List.Forall₂ (ClampsRow q) q.rows r.rows

/-- the rows a unit of dust reaches when all rows are ranked -/
def Request.unitsReach (q : Request) : List Row :=
  (ranking q.available (weightTotal q.rows) q.rows).take q.dust.toNat

def ClampsWhen (q : Request) : Prop :=
  weightTotal q.rows = 0 ∨
    (∀ row ∈ q.unitsReach, row ∈ q.uncapped) ∧
      ∀ row ∈ q.uncapped, row.rowId.truthy = false → share q.available q.rows row = 0

/-! ## the plain division -/

section
variable {amount : ℤ} {rows : List Row}

theorem share_zero_weightTotal (hw : weightTotal rows = 0) (row : Row) : share amount rows row = 0 :=
  if_pos hw

variable (hw : weightTotal rows ≠ 0) (row : Row)
include hw

theorem share_eq : share amount rows row
    = Apportion.floorShare amount (weightTotal rows) Row.weight row +
      if row ∈ (ranking amount (weightTotal rows) rows).take
        (dustOf amount (weightTotal rows) rows).toNat then 1 else 0 :=
  if_neg hw

theorem share_of_weight_zero (h : row.weight = 0) : share amount rows row = 0 := by
  have hrem : Apportion.remainder amount (weightTotal rows) Row.weight row = 0 := by
    simp [Apportion.remainder, h]
  have hn : row ∉ (ranking amount (weightTotal rows) rows).take
      (dustOf amount (weightTotal rows) rows).toNat :=
    fun hm => (remainder_pos_of_mem_take hw hm).ne' hrem
  rw [share_eq hw, if_neg hn]
  simp [Apportion.floorShare, h]

theorem share_le_ceil :
    share amount rows row ≤ ⌈(amount * row.weight : ℚ) / weightTotal rows⌉ := by
  have hpos : (0 : ℚ) < weightTotal rows := Int.cast_pos.mpr (weightTotal_pos hw)
  have hsplit : weightTotal rows * Apportion.floorShare amount (weightTotal rows) Row.weight row
      + Apportion.remainder amount (weightTotal rows) Row.weight row = amount * row.weight :=
    Apportion.floorShare_add_remainder amount Row.weight row
  have hnn := Apportion.remainder_nonneg amount Row.weight (weightTotal_pos hw) row
  rw [share_eq hw]
  by_cases hm : row ∈ (ranking amount (weightTotal rows) rows).take
      (dustOf amount (weightTotal rows) rows).toNat
  · -- a unit goes to an inexact share only, which its ceiling rounds up
    have hrem := remainder_pos_of_mem_take hw hm
    have hlt : weightTotal rows * Apportion.floorShare amount (weightTotal rows) Row.weight row
        < amount * row.weight := by omega
    rw [if_pos hm, Int.add_one_le_iff, Int.lt_ceil, lt_div_iff₀ hpos, mul_comm]
    exact_mod_cast hlt
  · have hle : weightTotal rows * Apportion.floorShare amount (weightTotal rows) Row.weight row
        ≤ amount * row.weight := by omega
    rw [if_neg hm, add_zero]
    refine Int.cast_le.mp (le_trans ?_ (Int.le_ceil ((amount * row.weight : ℚ) / weightTotal rows)))
    rw [le_div_iff₀ hpos, mul_comm]
    exact_mod_cast hle

end

/-! ## row by row -/

namespace Allocate

theorem clamps_iff (q : Request) (sha256 : ByteString → String) : Clamps q (finalResult sha256 q)
    ↔ ∀ row ∈ q.rows, ClampsRow q row (finalRow q row) := by
  show List.Forall₂ _ q.rows (q.rows.map (finalRow q)) ↔ _
  rw [List.forall₂_map_right_iff, List.forall₂_same]

theorem clampsRow_iff (q : Request) (row : Row) : ClampsRow q row (finalRow q row) ↔
    allocatedOf q row = min row.effectiveCap (share q.available q.rows row) ∧
      unmetOf q row = share q.available q.rows row - allocatedOf q row := by
  constructor
  · intro h
    rw [← finalRow_allocated, ← finalRow_unmet]
    exact ⟨h.allocated, h.unmet⟩
  · rintro ⟨ha, hu⟩
    have hle : allocatedOf q row ≤ share q.available q.rows row := ha ▸ min_le_right _ _
    have hcap := row.effectiveCap_nonneg
    refine
      { rowId := finalRow_rowId q row
        allocated := by rw [finalRow_allocated, ha]
        unmet := by rw [finalRow_unmet, finalRow_allocated, hu]
        le_ceil := ?_
        zero_weight := ?_ }
    · rw [finalRow_allocated]
      by_cases hw : weightTotal q.rows = 0
      · rw [share_zero_weightTotal hw] at hle
        simpa [hw] using hle
      · exact hle.trans (share_le_ceil hw row)
    · intro h0
      rw [finalRow_allocated, ha]
      by_cases hw : weightTotal q.rows = 0
      · rw [share_zero_weightTotal hw, min_eq_right hcap]
      · rw [share_of_weight_zero hw row h0, min_eq_right hcap]

section
variable {q : Request} (hp : q.redistributionPolicy = .unallocated)
  (hw : weightTotal q.rows ≠ 0)
include hp hw

theorem floorOf_unallocated (row : Row) : floorOf q row
    = Apportion.floorShare q.available (weightTotal q.rows) Row.weight row := by
  rw [floorOf_eq (weight_pos_unallocated hp hw), allocationWeight_unallocated hp,
    amountForFinal_unallocated hp]

theorem share_unallocated (row : Row) : share q.available q.rows row
    = floorOf q row + if row ∈ q.unitsReach then 1 else 0 := by
  rw [share_eq hw, floorOf_unallocated hp hw]
  rfl

theorem mem_uncapped_iff {row : Row} (h : row ∈ q.rows) :
    row ∈ q.uncapped ↔ row ∉ constrained q := by
  rw [← active_unallocated hp hw, mem_active_unallocated hp h]

theorem floor_lt_cap {row : Row} (h : row ∈ q.uncapped) : floorOf q row < row.effectiveCap := by
  rw [floorOf_unallocated hp hw]
  exact (Int.ediv_lt_iff_lt_mul (weightTotal_pos hw)).mpr
    (of_decide_eq_true (List.mem_filter.mp h).2)

theorem floorOf_nonneg_unallocated (row : Row) : 0 ≤ floorOf q row := by
  rw [floorOf_unallocated hp hw]
  exact Apportion.floorShare_nonneg _ _ q.available_nonneg (weightTotal_pos hw) row.weight_nonneg

theorem clampsRow_capped {row : Row} (h : row ∈ q.rows) (hc : row ∈ constrained q) :
    ClampsRow q row (finalRow q row) ↔ row ∉ q.unitsReach := by
  have hle := cap_le_floor hp hc
  rw [clampsRow_iff, unmet_unallocated hp h, allocated_unallocated hp h, if_pos hc,
    share_unallocated hp hw]
  by_cases hu : row ∈ q.unitsReach
  · rw [if_pos hu]
    exact iff_of_false (by omega) (by simpa using hu)
  · rw [if_neg hu]
    exact iff_of_true (by omega) hu

theorem clampsRow_uncapped {row : Row} (h : row ∈ q.rows) (hc : row ∈ q.uncapped)
    (hunits : row ∈ awardedRows q ↔ row ∈ q.unitsReach) :
    ClampsRow q row (finalRow q row) ↔
      (row.rowId.truthy = false → share q.available q.rows row = 0) := by
  have hlt := floor_lt_cap hp hw hc
  have hnn := floorOf_nonneg_unallocated hp hw row
  have hncon := (mem_uncapped_iff hp hw h).mp hc
  have hact : row ∈ allocationActive q := (mem_active_unallocated hp h).mpr hncon
  rw [clampsRow_iff, unmet_unallocated hp h, allocated_unallocated hp h, if_neg hncon,
    share_unallocated hp hw]
  by_cases ht : row.rowId.truthy
  · rw [if_pos ⟨ht, hact⟩]
    refine iff_of_true ?_ fun hf => by rw [ht] at hf; cases hf
    by_cases hu : row ∈ q.unitsReach
    · rw [if_pos hu, if_pos (hunits.mpr hu)]
      omega
    · rw [if_neg hu, if_neg fun ha => hu (hunits.mp ha)]
      omega
  · rw [if_neg fun hn => ht hn.1]
    rw [Bool.not_eq_true] at ht
    simp only [ht, true_implies]
    split_ifs <;> omega

/-- when no capped row would have received a unit, the ranking of the uncapped rows starts with
the rows that do -/
theorem awardedRows_eq_reach (hr : q.roundingPolicy = .largestRemainder)
    (h : ∀ row ∈ q.unitsReach, row ∈ q.uncapped) : awardedRows q = q.unitsReach := by
  rw [awardedRows_unallocated hp hw hr]
  unfold Request.dustRows Request.uncapped
  rw [← ranking_filter]
  apply Apportion.take_filter_of_all
  intro row hrow
  exact (List.mem_filter.mp (h row hrow)).2

end

end Allocate

open Allocate in
/-- **The clamp of the plain division, exactly where `allocate` computes it.** -/
theorem allocate_clamps_iff (sha256 : ByteString → String) {v : Value} {q : Request}
    (h : normalizeRequest v = .ok q) (hp : q.redistributionPolicy = .unallocated)
    (hr : q.roundingPolicy = .largestRemainder) :
    (∃ r, allocate sha256 v = .ok r ∧ Clamps q r) ↔ ClampsWhen q := by
  rw [exists_allocate_iff sha256 h, and_iff_right (seen_unallocated hp), clamps_iff]
  by_cases hw : weightTotal q.rows = 0
  · refine iff_of_true (fun row hrow => (clampsRow_iff q row).mpr ?_) (Or.inl hw)
    have h0 : allocationWeight q = 0 := by rw [allocationWeight_unallocated hp, hw]
    have hcap := row.effectiveCap_nonneg
    rw [unmet_unallocated hp hrow, allocated_unallocated hp hrow, constrained_zero_weight hw,
      awardedRows_zero (units_zero h0), floorOf_zero h0, share_zero_weightTotal hw]
    simp [hcap]
  · unfold ClampsWhen
    rw [or_iff_right hw]
    have hreach : ∀ row ∈ q.unitsReach, row ∈ q.rows := fun row hrow =>
      (ranking_perm _ _ _).mem_iff.mp (List.mem_of_mem_take hrow)
    have huncapped : ∀ row ∈ q.uncapped, row ∈ q.rows := fun row hrow =>
      List.mem_of_mem_filter hrow
    constructor
    · intro hall
      have hcap : ∀ row ∈ q.unitsReach, row ∈ q.uncapped := by
        intro row hrow
        have hmem := hreach row hrow
        rw [mem_uncapped_iff hp hw hmem]
        exact fun hc => (clampsRow_capped hp hw hmem hc).mp (hall row hmem) hrow
      refine ⟨hcap, fun row hrow => ?_⟩
      have hunits := awardedRows_eq_reach hp hw hr hcap
      exact (clampsRow_uncapped hp hw (huncapped row hrow) hrow (by rw [hunits])).mp
        (hall row (huncapped row hrow))
    · rintro ⟨hcap, hfalsy⟩ row hrow
      by_cases hc : row ∈ constrained q
      · refine (clampsRow_capped hp hw hrow hc).mpr fun hu => ?_
        exact (mem_uncapped_iff hp hw hrow).mp (hcap row hu) hc
      · have hunc := (mem_uncapped_iff hp hw hrow).mpr hc
        have hunits := awardedRows_eq_reach hp hw hr hcap
        exact (clampsRow_uncapped hp hw hrow hunc (by rw [hunits])).mpr (hfalsy row hunc)

theorem allocate_clamps_iff_halves : ∃ q, normalizeRequest (halves (key "unallocated")) = .ok q ∧
    ((∃ r, allocate (fun _ => "") (halves (key "unallocated")) = .ok r ∧ Clamps q r)
      ↔ ClampsWhen q) := by
  obtain ⟨q, hq⟩ := exists_ok (x := normalizeRequest (halves (key "unallocated")))
    (by decide +kernel)
  have hpol : (normalizeRequest (halves (key "unallocated"))).toOption.map
      (fun q => (q.redistributionPolicy, q.roundingPolicy))
      = some (.unallocated, .largestRemainder) := by decide +kernel
  rw [hq] at hpol
  obtain ⟨hp, hr⟩ := Prod.mk.inj (Option.some.inj hpol)
  exact ⟨q, hq, allocate_clamps_iff _ hq hp hr⟩

/-- two capped rows and a row without weight -/
def strayUnit : Value :=
  requestOf 1 [rowOf (.int 1) 0 1, rowOf (.int 2) 0 1, rowOf (.int 3) 5 0] (key "largest-remainder")
    (key "unallocated")

/-- the row without weight receives the unit -/
theorem allocate_clamps_counterexample : (normalizeRequest strayUnit).isOk ∧
    ∀ q, normalizeRequest strayUnit = .ok q →
      ¬ ∃ r, allocate (fun _ => "") strayUnit = .ok r ∧ Clamps q r := by
  refine ⟨by decide +kernel, fun q hq => ?_⟩
  rintro ⟨r, hr, hc⟩
  have hweights : (normalizeRequest strayUnit).toOption.map (fun q => q.rows.map Row.weight)
      = some [1, 1, 0] := by decide +kernel
  have hamounts : (allocate (fun _ => "") strayUnit).toOption.map
      (fun r => r.rows.map ResultRow.allocated) = some [0, 0, 1] := by decide +kernel
  rw [hq] at hweights
  rw [hr] at hamounts
  have hw : q.rows.map Row.weight = [1, 1, 0] := Option.some.inj hweights
  have ha : r.rows.map ResultRow.allocated = [0, 0, 1] := Option.some.inj hamounts
  have hzero : List.Forall₂ (fun w a : ℤ => w = 0 → a = 0) (q.rows.map Row.weight)
      (r.rows.map ResultRow.allocated) := by
    rw [List.forall₂_map_left_iff, List.forall₂_map_right_iff]
    exact hc.imp fun _ _ h => h.zero_weight
  rw [hw, ha] at hzero
  simp at hzero

end PRF
