import ProtocolRobustness.Contract.CapRounds
import ProtocolRobustness.Library.WaterLevel

/-!
# Where the cap rounds stop

The loop finds the level at which the caps and the available amount balance.

* `Request.capacity`   what the rows of positive weight can take;
* `Request.IsLevel`    the level `lam` at which the rows take the available amount together, each
                       `min cap (lam * weight)`;
* `Request.openRows`, `Request.restAt`   the rows below their caps at a level, and what the full
                       rows leave of the available amount;
* `WitnessInv`         what the loop hands over, whatever its exit;
* `loop_end`           the exits: nothing to divide by, everything at its cap, or a level.
-/

namespace PRF

/-! ## levels of a request -/

namespace Request

def capacity (q : Request) : ℤ := capTotal (q.rows.filter fun row => 0 < row.weight)

def IsLevel (q : Request) (lam : ℚ) : Prop :=
  WaterLevel.IsLevel (fun row : Row => (row.effectiveCap : ℚ)) (fun row => (row.weight : ℚ)) q.rows
    q.available lam

/-- the rows that are below their caps at a level -/
def openRows (q : Request) (lam : ℚ) : List Row :=
  q.rows.filter fun row => lam * row.weight < row.effectiveCap

/-- what the full rows leave at a level -/
def restAt (q : Request) (lam : ℚ) : ℤ :=
  q.available - capTotal (q.rows.filter fun row => (row.effectiveCap : ℚ) ≤ lam * row.weight)

/-- the rows no amount can reach: they have no weight and are not at their caps -/
def idleRows (q : Request) : List Row :=
  q.rows.filter fun row => row.weight = 0 ∧ 0 < row.effectiveCap

theorem cast_capacity (q : Request) :
    WaterLevel.capacity (fun row : Row => (row.effectiveCap : ℚ)) (fun row => (row.weight : ℚ))
      q.rows = q.capacity := by
  unfold WaterLevel.capacity capacity capTotal
  rw [Int.cast_list_sum, List.map_map]
  congr 2
  refine List.filter_congr fun row _ => ?_
  rw [decide_eq_decide]
  exact Int.cast_pos

theorem level_unique (q : Request) (h : q.available < q.capacity) {lam mu : ℚ}
    (hl : q.IsLevel lam) (hm : q.IsLevel mu) : lam = mu := by
  refine WaterLevel.IsLevel.unique (fun row _ => ?_) (fun row _ => ?_) ?_ hl hm
  · exact Int.cast_nonneg row.effectiveCap_nonneg
  · exact Int.cast_nonneg row.weight_nonneg
  · rw [q.cast_capacity]
    exact Int.cast_lt.mpr h

end Request

/-! ## what the loop hands over -/

structure WitnessInv (q : Request) (w : Witness) : Prop where
  sublist : w.active.Sublist q.rows
  remaining_nonneg : 0 ≤ w.remaining
  paid : w.remaining + capTotal q.rows = q.available + capTotal w.active
  full : ∀ row ∈ q.rows, row ∉ w.active →
    row.effectiveCap * weightTotal w.active ≤ w.remaining * row.weight
  committed : ∀ row ∈ q.rows, Table.find w.committed row.rowId
    = if row ∈ w.active then none else some row.effectiveCap
  length : w.rounds.length ≤ q.rows.length + 1
  nonneg : ∀ round ∈ w.rounds, 0 ≤ round.availableAtStart ∧ 0 ≤ round.availableAfterCaps
  unnamed : ∀ row ∈ w.active, ∀ round ∈ w.rounds, row.rowId ∉ round.newlyCapConstrainedRowIds
  commits : ∀ round ∈ w.rounds, ∀ row ∈ q.rows, row.rowId ∈ round.newlyCapConstrainedRowIds →
    Commits row round
  shown : ∀ row ∈ q.rows, row ∉ w.active → ∃ round ∈ w.rounds, Commits row round
  quota : ∀ row ∈ q.rows, row ∉ w.active → row.rowId.truthy →
    ∃ e, committedQuota w.rounds row.rowId = some e ∧ Reaches row e

theorem CapExit.inv {q : Request} {t : CapState} (ht : CapInv q t) (hr : RoundsInv q t)
    {w : Witness} (hw : CapExit q.roundingPolicy t w) : WitnessInv q w := by
  cases hw with
  | empty h =>
    have h0 := hr.length
    exact
      { sublist := List.nil_sublist _
        remaining_nonneg := ht.remaining_nonneg
        paid := h ▸ ht.paid
        full := h ▸ ht.full
        committed := h ▸ ht.committed
        length := show t.rounds.length ≤ _ by omega
        nonneg := hr.nonneg
        unnamed := h ▸ hr.unnamed
        commits := hr.commits
        shown := h ▸ hr.shown
        quota := h ▸ hr.quota }
  | zeroWeight h hw =>
    have h0 := hr.length
    exact
      { sublist := ht.sublist
        remaining_nonneg := ht.remaining_nonneg
        paid := ht.paid
        full := ht.full
        committed := ht.committed
        length := show t.rounds.length ≤ _ by omega
        nonneg := hr.nonneg
        unnamed := hr.unnamed
        commits := hr.commits
        shown := hr.shown
        quota := hr.quota }
  | rounding hw hc =>
    have h0 := hr.length
    exact
      { sublist := ht.sublist
        remaining_nonneg := ht.remaining_nonneg
        paid := ht.paid
        full := ht.full
        committed := ht.committed
        length := by
          show (t.rounds ++ [_]).length ≤ _
          rw [List.length_append, List.length_singleton]
          omega
        nonneg := by
          intro round hround
          rcases List.mem_append.mp hround with hround | hround
          · exact hr.nonneg round hround
          · rw [List.mem_singleton.mp hround]
            exact ⟨ht.remaining_nonneg, by
              show 0 ≤ t.remaining - capTotal []
              rw [show capTotal [] = 0 from rfl, sub_zero]
              exact ht.remaining_nonneg⟩
        unnamed := by
          intro row hrow round hround
          rcases List.mem_append.mp hround with hround | hround
          · exact hr.unnamed row hrow round hround
          · rw [List.mem_singleton.mp hround]
            exact List.not_mem_nil
        commits := by
          intro round hround row hrow hname
          rcases List.mem_append.mp hround with hround | hround
          · exact hr.commits round hround row hrow hname
          · rw [List.mem_singleton.mp hround] at hname
            exact absurd hname List.not_mem_nil
        shown := by
          intro row hrow hnot
          obtain ⟨round, hround, hcom⟩ := hr.shown row hrow hnot
          exact ⟨round, List.mem_append_left _ hround, hcom⟩
        quota := by
          intro row hrow hnot ht'
          rw [show committedQuota (t.rounds ++ [roundWitness t.index t.remaining t.active []])
            row.rowId = committedQuota t.rounds row.rowId from committedQuota_quiet _ rfl _]
          exact hr.quota row hrow hnot ht' }

/-! ## the exits -/

/-- the loop stops with everything that has weight at its cap -/
structure Exhausted (q : Request) (w : Witness) : Prop where
  capacity_le : q.capacity ≤ q.available
  active : w.active = q.idleRows
  weight : weightTotal w.active = 0
  remaining : w.remaining = q.available - q.capacity
  reason : w.residualReason = if w.active = [] then .noRemainingCapacity else .noActiveWeight

/-- the loop stops at a level, with rows of positive weight below their caps -/
structure Levelled (q : Request) (w : Witness) (lam : ℚ) : Prop where
  isLevel : q.IsLevel lam
  active : w.active = q.openRows lam
  remaining : w.remaining = q.restAt lam
  weight_pos : 0 < weightTotal w.active
  level_mul : lam * weightTotal w.active = w.remaining
  reason : w.residualReason = roundingReason q.roundingPolicy

theorem weight_zero_of_mem {rows : List Row} (h : weightTotal rows = 0) {row : Row}
    (hrow : row ∈ rows) : row.weight = 0 :=
  Apportion.eq_zero_of_sum_eq_zero (fun row _ => row.weight_nonneg) h row hrow

theorem Request.capTotal_rows (q : Request) :
    capTotal q.rows = q.capacity + capTotal q.idleRows := by
  unfold capacity idleRows
  induction q.rows with
  | nil => rfl
  | cons row rows ih =>
    have h1 := row.weight_nonneg
    have h2 := row.effectiveCap_nonneg
    unfold capTotal at *
    rw [List.map_cons, List.sum_cons, ih, List.filter_cons, List.filter_cons]
    by_cases hw : 0 < row.weight
    · rw [if_pos (by simpa using hw), if_neg (by simp; omega), List.map_cons, List.sum_cons]
      omega
    · by_cases hc : 0 < row.effectiveCap
      · rw [if_neg (by simpa using hw), if_pos (by simp; omega), List.map_cons, List.sum_cons]
        omega
      · rw [if_neg (by simpa using hw), if_neg (by simp; omega)]
        omega

section
variable {q : Request} {t : CapState} (ht : CapInv q t)
include ht

theorem CapInv.active_eq_idle (hi : t.index ≠ 0) (hw : weightTotal t.active = 0) :
    t.active = q.idleRows := by
  refine sublist_eq_filter ht.sublist q.rows_nodup fun row hrow => ?_
  rw [decide_eq_true_eq]
  constructor
  · intro hact
    have h0 := weight_zero_of_mem hw hact
    exact ⟨h0, ht.cap_pos hi row hact h0⟩
  · rintro ⟨h0, hpos⟩
    by_contra hact
    exact hpos.ne' (ht.gone row hrow hact h0)

theorem CapInv.exhausted (hq : weightTotal q.rows ≠ 0) (hw : weightTotal t.active = 0) {w : Witness}
    (ha : w.active = t.active) (hr : w.remaining = t.remaining)
    (hreason : w.residualReason = if w.active = [] then .noRemainingCapacity else .noActiveWeight) :
    Exhausted q w := by
  have hi : t.index ≠ 0 := fun hi => hq (ht.idle hi ▸ hw)
  have hact := ht.active_eq_idle hi hw
  have h1 := ht.paid
  have h2 := q.capTotal_rows
  have h3 := ht.remaining_nonneg
  rw [hact] at h1
  exact
    { capacity_le := by omega
      active := by rw [ha, hact]
      weight := by rw [ha, hw]
      remaining := by omega
      reason := hreason }

variable (hw : weightTotal t.active ≠ 0) (hc : t.constrained = [])
include hw hc

/-- the level of a group of rows that no cap binds -/
def CapState.level (t : CapState) : ℚ := t.remaining / weightTotal t.active

omit ht hc in
theorem CapState.level_mul : t.level * weightTotal t.active = t.remaining :=
  div_mul_cancel₀ _ (Int.cast_ne_zero.mpr hw)

omit ht hc in
theorem CapState.level_lt_iff (row : Row) : t.level * row.weight < row.effectiveCap
    ↔ t.remaining * row.weight < row.effectiveCap * weightTotal t.active := by
  have hpos : (0 : ℚ) < weightTotal t.active := Int.cast_pos.mpr (weightTotal_pos hw)
  unfold CapState.level
  rw [div_mul_eq_mul_div, div_lt_iff₀ hpos]
  exact_mod_cast Iff.rfl

theorem CapInv.mem_active_iff {row : Row} (hrow : row ∈ q.rows) :
    row ∈ t.active ↔ t.level * row.weight < row.effectiveCap := by
  rw [CapState.level_lt_iff hw]
  constructor
  · intro hact
    by_contra hn
    have hmem : row ∈ t.constrained :=
      List.mem_filter.mpr ⟨hact, capConstrained_iff.mpr (not_lt.mp hn)⟩
    rw [hc] at hmem
    cases hmem
  · intro hlt
    by_contra hact
    exact absurd (ht.full row hrow hact) (not_le.mpr hlt)

theorem CapInv.active_eq_open : t.active = q.openRows t.level := by
  refine sublist_eq_filter ht.sublist q.rows_nodup fun row hrow => ?_
  rw [decide_eq_true_eq]
  exact ht.mem_active_iff hw hc hrow

theorem CapInv.remaining_eq_rest : t.remaining = q.restAt t.level := by
  have h1 := ht.paid
  have h2 := Apportion.sum_filter_add q.rows
    (fun row => decide (t.level * row.weight < row.effectiveCap)) Row.effectiveCap
  rw [show q.rows.filter (fun row => decide (t.level * row.weight < row.effectiveCap))
    = t.active from (ht.active_eq_open hw hc).symm] at h2
  have h3 : (q.rows.filter fun row => !decide (t.level * row.weight < row.effectiveCap))
      = q.rows.filter fun row => (row.effectiveCap : ℚ) ≤ t.level * row.weight := by
    refine List.filter_congr fun row _ => ?_
    rw [← decide_not, decide_eq_decide, not_lt]
  rw [h3] at h2
  unfold Request.restAt
  unfold capTotal at *
  omega

theorem CapInv.isLevel : q.IsLevel t.level := by
  refine WaterLevel.isLevel_of_split (fun row => decide (row ∉ t.active)) ?_ ?_ ?_ ?_
  · exact div_nonneg (Int.cast_nonneg ht.remaining_nonneg)
      (Int.cast_nonneg (weightTotal_nonneg _))
  · intro row hrow hnot
    rw [← not_lt, ← ht.mem_active_iff hw hc hrow]
    exact of_decide_eq_true hnot
  · intro row hrow hact
    rw [decide_eq_true_eq, not_not] at hact
    exact ((ht.mem_active_iff hw hc hrow).mp hact).le
  · have hgone := Apportion.sum_filter_add q.rows (fun row => decide (row ∉ t.active))
      Row.effectiveCap
    have hact : (q.rows.filter fun row => !decide (row ∉ t.active)) = t.active := by
      refine (sublist_eq_filter ht.sublist q.rows_nodup fun row _ => ?_).symm
      rw [Bool.not_eq_true', decide_eq_false_iff_not, not_not]
    have hp := ht.paid
    rw [hact] at hgone ⊢
    have hsum : ((q.rows.filter fun row => decide (row ∉ t.active)).map Row.effectiveCap).sum
        + t.remaining = q.available := by
      unfold capTotal at hp
      omega
    have h1 : ((t.active.map fun row => (row.weight : ℚ))).sum = weightTotal t.active := by
      unfold weightTotal
      rw [Int.cast_list_sum, List.map_map]
      rfl
    have h2 : ((q.rows.filter fun row => decide (row ∉ t.active)).map
        fun row => (row.effectiveCap : ℚ)).sum
        = (((q.rows.filter fun row => decide (row ∉ t.active)).map Row.effectiveCap).sum : ℤ) := by
      rw [Int.cast_list_sum, List.map_map]
      rfl
    rw [h1, h2, CapState.level_mul hw, ← hsum]
    push_cast
    ring

theorem CapInv.levelled {w : Witness} (ha : w.active = t.active) (hr : w.remaining = t.remaining)
    (hreason : w.residualReason = roundingReason q.roundingPolicy) :
    Levelled q w t.level where
  isLevel := ht.isLevel hw hc
  active := by rw [ha, ← ht.active_eq_open hw hc]
  remaining := by rw [hr, ← ht.remaining_eq_rest hw hc]
  weight_pos := by
    rw [ha]
    exact weightTotal_pos hw
  level_mul := by rw [ha, hr, CapState.level_mul hw]
  reason := hreason

end

theorem Levelled.available_lt {q : Request} {w : Witness} {lam : ℚ} (h : Levelled q w lam) :
    q.available < q.capacity := by
  have hex : ∃ row ∈ q.rows, 0 < row.weight ∧ lam * row.weight < row.effectiveCap := by
    by_contra hno
    push Not at hno
    have h0 : weightTotal w.active = 0 := by
      rw [h.active]
      refine List.sum_eq_zero fun x hx => ?_
      obtain ⟨row, hrow, rfl⟩ := List.mem_map.mp hx
      obtain ⟨hmem, hlt⟩ := List.mem_filter.mp hrow
      by_contra hne
      have hpos : 0 < row.weight := lt_of_le_of_ne row.weight_nonneg (Ne.symm hne)
      exact absurd (of_decide_eq_true hlt) (not_lt.mpr (hno row hmem hpos))
    exact h.weight_pos.ne' h0
  have hlt : WaterLevel.fill (fun row : Row => (row.effectiveCap : ℚ)) (fun row => (row.weight : ℚ))
      q.rows lam < WaterLevel.capacity _ _ q.rows :=
    WaterLevel.fill_lt_capacity (fun row _ => Int.cast_nonneg row.effectiveCap_nonneg)
      (fun row _ => Int.cast_nonneg row.weight_nonneg)
      (hex.imp fun row hrow => ⟨hrow.1, Int.cast_pos.mpr hrow.2.1, hrow.2.2⟩)
  rw [h.isLevel.fill_eq, q.cast_capacity] at hlt
  exact Int.cast_lt.mp hlt

/-! ## shares at a level -/

section
variable {q : Request} {w : Witness} {lam : ℚ} (h : Levelled q w lam) (row : Row)
include h

theorem Levelled.cast_weight_pos : (0 : ℚ) < weightTotal w.active := Int.cast_pos.mpr h.weight_pos

theorem Levelled.share_eq :
    lam * row.weight = ((w.remaining * row.weight : ℤ) : ℚ) / weightTotal w.active := by
  rw [eq_div_iff h.cast_weight_pos.ne', Int.cast_mul, ← h.level_mul]
  ring

theorem Levelled.floorShare_eq_zero_iff (hr : 0 ≤ w.remaining) :
    Apportion.floorShare w.remaining (weightTotal w.active) Row.weight row = 0
      ↔ lam * row.weight < 1 := by
  have h0 := Apportion.floorShare_nonneg w.remaining Row.weight hr h.weight_pos row.weight_nonneg
  rw [h.share_eq, div_lt_one h.cast_weight_pos, Int.cast_lt]
  rw [show w.remaining * row.weight < weightTotal w.active
    ↔ Apportion.floorShare w.remaining (weightTotal w.active) Row.weight row < 1 by
      unfold Apportion.floorShare
      rw [Int.ediv_lt_iff_lt_mul h.weight_pos, one_mul]]
  omega

theorem Levelled.remainder_eq_zero_iff :
    Apportion.remainder w.remaining (weightTotal w.active) Row.weight row = 0
      ↔ ∃ n : ℤ, lam * row.weight = n := by
  rw [h.share_eq]
  constructor
  · intro h0
    obtain ⟨n, hn⟩ := Int.dvd_of_emod_eq_zero h0
    refine ⟨n, ?_⟩
    rw [hn, Int.cast_mul, mul_div_cancel_left₀ _ h.cast_weight_pos.ne']
  · rintro ⟨n, hn⟩
    rw [div_eq_iff h.cast_weight_pos.ne', ← Int.cast_mul, Int.cast_inj] at hn
    exact Int.emod_eq_zero_of_dvd ⟨n, hn.trans (mul_comm _ _)⟩

end

/-! ## the end of the loop -/

section
variable {q : Request} (hp : q.redistributionPolicy = .redistributeCapExcess)
include hp

theorem allocationWitness_run :
    allocationWitness q = (CapState.start q).run q.roundingPolicy := by
  unfold allocationWitness
  rw [hp]
  rfl

theorem witness_inv : WitnessInv q (allocationWitness q) := by
  rw [allocationWitness_run hp]
  obtain ⟨t, ⟨ht, hr⟩, hexit⟩ := witnessLoop_run q
  exact hexit.inv ht hr

/-- **The loop ends exhausted or at a level.** -/
theorem loop_end (hq : weightTotal q.rows ≠ 0) :
    Exhausted q (allocationWitness q) ∨ ∃ lam, Levelled q (allocationWitness q) lam := by
  rw [allocationWitness_run hp]
  obtain ⟨t, ⟨ht, hr⟩, hexit⟩ := witnessLoop_run q
  generalize (CapState.start q).run q.roundingPolicy = w at hexit ⊢
  cases hexit with
  | empty h =>
    refine Or.inl (ht.exhausted hq ?_ h.symm rfl (if_pos rfl).symm)
    rw [h]
    rfl
  | zeroWeight h hw => exact Or.inl (ht.exhausted hq hw rfl rfl (if_neg h).symm)
  | rounding hw hc => exact Or.inr ⟨t.level, ht.levelled hw hc rfl rfl rfl⟩

theorem witness_zero_weight (hq : weightTotal q.rows = 0) : allocationWitness q
    = ⟨[], q.rows, [], q.available,
        if q.rows = [] then .noRemainingCapacity else .noActiveWeight⟩ := by
  rw [allocationWitness_run hp]
  show witnessLoop q.roundingPolicy 0 q.available q.rows [] [] = _
  rw [witnessLoop]
  by_cases h : q.rows = []
  · simp [h]
  · simp [h, hq]

end

end PRF
