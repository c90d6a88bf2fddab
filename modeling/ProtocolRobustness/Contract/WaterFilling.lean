import ProtocolRobustness.Contract.Conservation

/-!
# Redistribution is capped proportional division

`:redistribute-cap-excess` with `:largest-remainder`.

* `namedIn`, `remainingRows`, `remainingAmount`   what the rounds of a result say: which rows were
                          committed, and what was left for the others;
* `WaterFills`            a result is the capped proportional division of its request;
* `WaterFillsWhen`        the requests on which `allocate` gives it;
* `allocate_waterFills_iff`   these and no others.
-/

namespace PRF
open Bytes Fallible

/-- some round commits the row -/
def namedIn (rounds : List Round) (row : Row) : Bool :=
  rounds.any fun round => round.newlyCapConstrainedRowIds.contains row.rowId

/-- the final active group -/
def remainingRows (q : Request) (r : AllocationResult) : List Row :=
  q.rows.filter fun row => !namedIn r.rounds row

def remainingAmount (q : Request) (r : AllocationResult) : ℤ :=
  q.available - capTotal (q.rows.filter (namedIn r.rounds))

structure WaterFillsRow (q : Request) (r : AllocationResult) (row : Row) (out : ResultRow) :
    Prop where
  rowId : out.rowId = row.rowId
  le_cap : out.allocated ≤ row.effectiveCap
  committed : ∀ round ∈ r.rounds, row.rowId ∈ round.newlyCapConstrainedRowIds →
    out.allocated = row.effectiveCap ∧ Commits row round
  rest : row ∈ remainingRows q r → 0 < row.weight →
    out.allocated = remainingAmount q r * row.weight / weightTotal (remainingRows q r) ∨
      out.allocated = remainingAmount q r * row.weight / weightTotal (remainingRows q r) + 1

structure WaterFills (q : Request) (r : AllocationResult) : Prop where
  rounds_le : r.rounds.length ≤ q.rows.length + 1
  available_nonneg : ∀ round ∈ r.rounds, 0 ≤ round.availableAtStart ∧ 0 ≤ round.availableAfterCaps
  remaining_nonneg : 0 ≤ remainingAmount q r
  total : r.allocatedTotal = min q.available q.capacity
  rows : List.Forall₂ (WaterFillsRow q r) q.rows r.rows

def WaterFillsWhen (q : Request) : Prop :=
  weightTotal q.rows = 0 ∨
    (q.capacity ≤ q.available ∧ ∀ row ∈ q.rows, row.rowId.truthy = false → row ∈ q.idleRows) ∨
    (q.available < q.capacity ∧ ∃ lam, q.IsLevel lam ∧
      ∀ row ∈ q.rows, row.rowId.truthy = false →
        lam * row.weight < row.effectiveCap ∧ share (q.restAt lam) (q.openRows lam) row = 0)

namespace Allocate

/-! ## what the rounds of the result say -/

section
variable {q : Request} (hp : q.redistributionPolicy = .redistributeCapExcess)
include hp

theorem namedIn_iff {row : Row} (h : row ∈ q.rows) :
    namedIn (rounds q) row ↔ row ∉ allocationActive q := by
  have hinv := witness_inv hp
  rw [active_redistribute hp]
  unfold namedIn
  rw [List.any_eq_true]
  constructor
  · rintro ⟨round, hround, hname⟩ hact
    exact hinv.unnamed row hact round hround (List.contains_iff_mem.mp hname)
  · intro hact
    obtain ⟨round, hround, hcom⟩ := hinv.shown row h hact
    exact ⟨round, hround, List.contains_iff_mem.mpr hcom.1⟩

variable (sha256 : ByteString → String)

theorem remainingRows_eq : remainingRows q (finalResult sha256 q) = allocationActive q := by
  refine (sublist_eq_filter (active_sublist q) q.rows_nodup fun row hrow => ?_).symm
  show row ∈ allocationActive q ↔ (!namedIn (rounds q) row) = true
  have h := namedIn_iff hp hrow
  rw [Bool.not_eq_true', ← Bool.not_eq_true, h, not_not]

theorem remainingAmount_eq : remainingAmount q (finalResult sha256 q) = amountForFinal q := by
  have h1 := Apportion.sum_filter_add q.rows (namedIn (rounds q)) Row.effectiveCap
  have h2 := (witness_inv hp).paid
  rw [show (q.rows.filter fun row => !namedIn (rounds q) row) = allocationActive q from
    remainingRows_eq hp sha256] at h1
  rw [← active_redistribute hp, ← amountForFinal_redistribute hp] at h2
  show q.available - capTotal (q.rows.filter (namedIn (rounds q))) = _
  unfold capTotal at *
  omega

/-! ## the parts that hold on every request -/

theorem waterFillsRow_iff {row : Row} (h : row ∈ q.rows) :
    WaterFillsRow q (finalResult sha256 q) row (finalRow q row) ↔
      allocatedOf q row ≤ row.effectiveCap ∧ (row ∈ allocationActive q → 0 < row.weight →
        allocatedOf q row = floorOf q row ∨ allocatedOf q row = floorOf q row + 1) := by
  have hfloor : row ∈ allocationActive q → 0 < row.weight → amountForFinal q * row.weight
      / weightTotal (allocationActive q) = floorOf q row := by
    intro hact hw
    have hpos : 0 < allocationWeight q := by
      rw [allocationWeight_redistribute hp]
      refine weightTotal_pos fun h0 => hw.ne' (weight_zero_of_mem h0 hact)
    rw [floorOf_eq hpos, allocationWeight_redistribute hp]
    rfl
  constructor
  · intro hrow
    have hle := hrow.le_cap
    have hrest := hrow.rest
    rw [finalRow_allocated] at hle hrest
    rw [remainingRows_eq hp, remainingAmount_eq hp] at hrest
    refine ⟨hle, fun hact hw => ?_⟩
    rw [← hfloor hact hw]
    exact hrest hact hw
  · rintro ⟨hle, hrest⟩
    refine
      { rowId := finalRow_rowId q row
        le_cap := by rw [finalRow_allocated]; exact hle
        committed := ?_
        rest := ?_ }
    · intro round hround hname
      have hnot : row ∉ allocationActive q :=
        (namedIn_iff hp h).mp (List.any_eq_true.mpr ⟨round, hround, List.contains_iff_mem.mpr hname⟩)
      rw [finalRow_allocated, allocated_redistribute hp h, if_neg hnot]
      exact ⟨rfl, (witness_inv hp).commits round hround row h hname⟩
    · rw [finalRow_allocated, remainingRows_eq hp, remainingAmount_eq hp]
      intro hact hw
      rw [hfloor hact hw]
      exact hrest hact hw

theorem waterFills_iff : WaterFills q (finalResult sha256 q) ↔
    (q.rows.map (allocatedOf q)).sum = min q.available q.capacity ∧
      ∀ row ∈ q.rows, allocatedOf q row ≤ row.effectiveCap ∧
        (row ∈ allocationActive q → 0 < row.weight →
          allocatedOf q row = floorOf q row ∨ allocatedOf q row = floorOf q row + 1) := by
  have hrows : List.Forall₂ (WaterFillsRow q (finalResult sha256 q)) q.rows
      (finalResult sha256 q).rows ↔ ∀ row ∈ q.rows, allocatedOf q row ≤ row.effectiveCap ∧
        (row ∈ allocationActive q → 0 < row.weight →
          allocatedOf q row = floorOf q row ∨ allocatedOf q row = floorOf q row + 1) := by
    rw [finalResult_rows, List.forall₂_map_right_iff, List.forall₂_same]
    exact forall₂_congr fun row hrow => waterFillsRow_iff hp sha256 hrow
  rw [← allocatedTotal_eq sha256, ← hrows]
  constructor
  · exact fun h => ⟨h.total, h.rows⟩
  · rintro ⟨ht, hr⟩
    exact
      { rounds_le := (witness_inv hp).length
        available_nonneg := (witness_inv hp).nonneg
        remaining_nonneg := by
          rw [remainingAmount_eq hp]
          exact amountForFinal_nonneg q
        total := ht
        rows := hr }

theorem waterFills_zero (h0 : allocationWeight q = 0)
    (hrem : q.available - amountForFinal q = min q.available q.capacity) :
    WaterFills q (finalResult sha256 q) := by
  have hact : ∀ row ∈ allocationActive q, allocatedOf q row = 0 := by
    intro row hrow
    rw [allocated_redistribute hp ((active_sublist q).subset hrow), if_pos hrow,
      awardedRows_zero (units_zero h0), floorOf_zero h0]
    simp
  rw [waterFills_iff hp]
  constructor
  · rw [sum_allocated_redistribute hp, List.map_congr_left hact]
    simp [hrem]
  · intro row hrow
    by_cases hm : row ∈ allocationActive q
    · rw [hact row hm, floorOf_zero h0]
      exact ⟨row.effectiveCap_nonneg, fun _ _ => Or.inl rfl⟩
    · rw [allocated_redistribute hp hrow, if_neg hm]
      exact ⟨le_rfl, fun hm' => absurd hm' hm⟩

/-! ## the last group -/

variable {lam : ℚ} (hl : Levelled q (allocationWitness q) lam)
  (hr : q.roundingPolicy = .largestRemainder)
include hl hr

theorem share_levelled (row : Row) : share (q.restAt lam) (q.openRows lam) row
    = floorOf q row + if row ∈ awardedRows q then 1 else 0 := by
  have hpos := weight_pos_levelled hp hl
  have hw : weightTotal (q.openRows lam) ≠ 0 := by
    rw [← hl.active]
    exact hl.weight_pos.ne'
  unfold share awardedRows
  rw [if_neg hw, floorOf_levelled hp hl, rankedRows_eq hpos, units_eq hpos hr,
    allocationWeight_redistribute hp, amountForFinal_redistribute hp, floorRows_redistribute hp,
    active_redistribute hp, hl.active, hl.remaining]

theorem awardedRows_length : ((awardedRows q).length : ℤ)
    = amountForFinal q - ((allocationActive q).map (floorOf q)).sum := by
  have hpos := weight_pos_levelled hp hl
  have hw : 0 < weightTotal (allocationActive q) := allocationWeight_redistribute hp ▸ hpos
  have hunits : units q = amountForFinal q - ((allocationActive q).map (floorOf q)).sum := by
    rw [units_eq hpos hr, floorRows_redistribute hp]
    unfold dustOf Apportion.dust
    congr 2
    exact List.map_congr_left fun row _ => (floorOf_eq hpos row).symm
  have hle : units q ≤ (allocationActive q).length := by
    rw [units_eq hpos hr, floorRows_redistribute hp, allocationWeight_redistribute hp]
    exact Apportion.dust_le_length _ _ hw rfl
  have hnn : 0 ≤ units q := by
    rw [units_eq hpos hr, floorRows_redistribute hp, allocationWeight_redistribute hp]
    exact Apportion.dust_nonneg _ _ hw rfl
  unfold awardedRows
  rw [List.length_take, (rankedRows_perm q).length_eq]
  omega

omit hr in
theorem floor_lt_cap_levelled {row : Row} (h : row ∈ allocationActive q) :
    floorOf q row < row.effectiveCap := by
  rw [active_redistribute hp, hl.active] at h
  have hlt := of_decide_eq_true (List.mem_filter.mp h).2
  rw [hl.share_eq, div_lt_iff₀ hl.cast_weight_pos] at hlt
  rw [floorOf_levelled hp hl]
  exact (Int.ediv_lt_iff_lt_mul hl.weight_pos).mpr (by exact_mod_cast hlt)

theorem waterFills_levelled : WaterFills q (finalResult sha256 q) ↔
    ∀ row ∈ allocationActive q, row.rowId.truthy = false →
      share (q.restAt lam) (q.openRows lam) row = 0 := by
  have hnn : ∀ row, 0 ≤ floorOf q row := by
    intro row
    rw [floorOf_levelled hp hl]
    exact Apportion.floorShare_nonneg _ _ (witness_inv hp).remaining_nonneg hl.weight_pos
      row.weight_nonneg
  have hun : 0 ≤ unseenFloors q := by
    refine Apportion.sum_map_nonneg fun row _ => ?_
    split
    · exact le_rfl
    · exact hnn row
  have hlen := awardedRows_length hp hl hr
  have hmin : min q.available q.capacity = q.available := min_eq_left hl.available_lt.le
  rw [waterFills_iff hp, sum_allocated_redistribute hp, sum_allocated_active hp, hmin]
  constructor
  · rintro ⟨htotal, _⟩ row hrow ht
    have hle : (unitRows q).length ≤ (awardedRows q).length := List.length_filter_le _ _
    have hzero : unseenFloors q = 0 := by omega
    have hall : ∀ row ∈ awardedRows q, row.rowId.truthy :=
      List.length_filter_eq_length_iff.mp (show (unitRows q).length = _ by omega)
    have hna : row ∉ awardedRows q := fun ha => by
      have := hall row ha
      rw [ht] at this
      cases this
    have hfl := Apportion.eq_zero_of_sum_eq_zero (fun row _ => by
      split
      · exact le_rfl
      · exact hnn row) hzero row hrow
    rw [share_levelled hp hl hr, if_neg hna]
    simpa [ht] using hfl
  · intro hshare
    have hfalsy : ∀ row ∈ allocationActive q, row.rowId.truthy = false →
        floorOf q row = 0 ∧ row ∉ awardedRows q := by
      intro row hrow ht
      have h0 := hshare row hrow ht
      rw [share_levelled hp hl hr] at h0
      have h1 := hnn row
      by_cases ha : row ∈ awardedRows q
      · rw [if_pos ha] at h0
        omega
      · rw [if_neg ha] at h0
        exact ⟨by omega, ha⟩
    have hzero : unseenFloors q = 0 :=
      List.sum_eq_zero fun x hx => by
        obtain ⟨row, hrow, rfl⟩ := List.mem_map.mp hx
        cases ht : row.rowId.truthy with
        | true => rfl
        | false => exact (hfalsy row hrow ht).1
    have hunits : (unitRows q).length = (awardedRows q).length := by
      refine List.length_filter_eq_length_iff.mpr fun row hrow => ?_
      cases ht : row.rowId.truthy with
      | true => rfl
      | false => exact absurd hrow (hfalsy row (mem_active_of_awarded hrow) ht).2
    refine ⟨by omega, fun row hrow => ?_⟩
    by_cases hm : row ∈ allocationActive q
    · have hlt := floor_lt_cap_levelled hp hl hm
      rw [allocated_redistribute hp hrow, if_pos hm]
      cases ht : row.rowId.truthy with
      | true =>
        rw [if_pos rfl]
        split_ifs
        · exact ⟨by omega, fun _ _ => Or.inr rfl⟩
        · exact ⟨by omega, fun _ _ => Or.inl (add_zero _)⟩
      | false =>
        rw [if_neg (by decide), (hfalsy row hm ht).1]
        exact ⟨row.effectiveCap_nonneg, fun _ _ => Or.inl rfl⟩
    · rw [allocated_redistribute hp hrow, if_neg hm]
      exact ⟨le_rfl, fun hm' => absurd hm' hm⟩

end

end Allocate

open Allocate in
/-- **Capped proportional division, exactly where `allocate` computes it.** -/
theorem allocate_waterFills_iff (sha256 : ByteString → String) {v : Value} {q : Request}
    (h : normalizeRequest v = .ok q) (hp : q.redistributionPolicy = .redistributeCapExcess)
    (hr : q.roundingPolicy = .largestRemainder) :
    (∃ r, allocate sha256 v = .ok r ∧ WaterFills q r) ↔ WaterFillsWhen q := by
  rw [exists_allocate_iff sha256 h, seen_redistribute hp]
  unfold WaterFillsWhen
  by_cases hw : weightTotal q.rows = 0
  · have hwit := witness_zero_weight hp hw
    have hact : allocationActive q = q.rows := by rw [active_redistribute hp, hwit]
    refine iff_of_true ⟨fun row hrow _ => hact ▸ hrow, ?_⟩ (Or.inl hw)
    have hcap : q.capacity = 0 := List.sum_eq_zero fun x hx => by
      obtain ⟨row, hrow, rfl⟩ := List.mem_map.mp hx
      obtain ⟨hmem, hpos⟩ := List.mem_filter.mp hrow
      exact absurd (weight_zero_of_mem hw hmem) (of_decide_eq_true hpos).ne'
    apply waterFills_zero hp
    · rw [allocationWeight_redistribute hp, hact, hw]
    · rw [amountForFinal_redistribute hp, hwit, hcap, min_eq_right q.available_nonneg, sub_self]
  · rw [or_iff_right hw]
    rcases loop_end hp hw with he | ⟨lam, hl⟩
    · have hfill : WaterFills q (finalResult sha256 q) := by
        apply waterFills_zero hp
        · rw [allocationWeight_redistribute hp, active_redistribute hp, he.weight]
        · rw [amountForFinal_redistribute hp, he.remaining, min_eq_right he.capacity_le]
          omega
      rw [and_iff_left hfill, active_redistribute hp, he.active]
      constructor
      · exact fun hs => Or.inl ⟨he.capacity_le, hs⟩
      · rintro (⟨_, hs⟩ | ⟨hlt, _⟩)
        · exact hs
        · exact absurd hlt (not_lt.mpr he.capacity_le)
    · have hmem : ∀ row ∈ q.rows, row ∈ allocationActive q
          ↔ lam * row.weight < row.effectiveCap := by
        intro row hrow
        rw [active_redistribute hp, hl.active]
        show row ∈ q.rows.filter _ ↔ _
        rw [List.mem_filter, decide_eq_true_eq]
        exact and_iff_right hrow
      rw [waterFills_levelled hp sha256 hl hr]
      constructor
      · rintro ⟨hs, hshare⟩
        refine Or.inr ⟨hl.available_lt, lam, hl.isLevel, fun row hrow ht => ?_⟩
        exact ⟨(hmem row hrow).mp (hs row hrow ht), hshare row (hs row hrow ht) ht⟩
      · rintro (⟨hle, _⟩ | ⟨_, mu, hmu, hfalsy⟩)
        · exact absurd hle (not_le.mpr hl.available_lt)
        · obtain rfl := q.level_unique hl.available_lt hl.isLevel hmu
          refine ⟨fun row hrow ht => (hmem row hrow).mpr (hfalsy row hrow ht).1, ?_⟩
          exact fun row hrow ht => (hfalsy row ((active_sublist q).subset hrow) ht).2

theorem allocate_waterFills_iff_halves :
    ∃ q, normalizeRequest (halves (key "redistribute-cap-excess")) = .ok q ∧
      ((∃ r, allocate (fun _ => "") (halves (key "redistribute-cap-excess")) = .ok r
        ∧ WaterFills q r) ↔ WaterFillsWhen q) := by
  obtain ⟨q, hq⟩ := exists_ok (x := normalizeRequest (halves (key "redistribute-cap-excess")))
    (by decide +kernel)
  have hpol : (normalizeRequest (halves (key "redistribute-cap-excess"))).toOption.map
      (fun q => (q.redistributionPolicy, q.roundingPolicy))
      = some (.redistributeCapExcess, .largestRemainder) := by decide +kernel
  rw [hq] at hpol
  obtain ⟨hp, hr⟩ := Prod.mk.inj (Option.some.inj hpol)
  exact ⟨q, hq, allocate_waterFills_iff _ hq hp hr⟩

/-- one unit for one row, whose id is `nil` -/
def unseenRow : Value :=
  requestOf 1 [rowOf .null 10 1] (key "largest-remainder") (key "redistribute-cap-excess")

/-- the row receives nothing -/
theorem allocate_waterFills_counterexample : (normalizeRequest unseenRow).isOk ∧
    ∀ q, normalizeRequest unseenRow = .ok q →
      ¬ ∃ r, allocate (fun _ => "") unseenRow = .ok r ∧ WaterFills q r := by
  refine ⟨by decide +kernel, fun q hq => ?_⟩
  rintro ⟨r, hr, hc⟩
  have hin : (normalizeRequest unseenRow).toOption.map (fun q => (q.available, q.capacity))
      = some (1, 10) := by decide +kernel
  have hout : (allocate (fun _ => "") unseenRow).toOption.map
      (fun r => r.allocatedTotal) = some 0 := by decide +kernel
  rw [hq] at hin
  rw [hr] at hout
  have ht := hc.total
  obtain ⟨h1, h2⟩ := Prod.mk.inj (Option.some.inj hin)
  have h3 : r.allocatedTotal = 0 := Option.some.inj hout
  omega

end PRF
