import ProtocolRobustness.Contract.Allocate
import ProtocolRobustness.Library.Apportion

/-!
# The cap rounds

What the loop of `allocation-witness` preserves, round by round, and what holds when it stops.

* `CapState`, `CapState.next`   the loop variables and one round;
* `witnessLoop_spec`            the induction rule: what every round preserves holds at the exit;
* `CapInv`                      the rows that left are full: their caps are paid out of the
                                available amount, and their quotas stay at or above their caps;
* `RoundsInv`                   the round of a row that left shows its quota, at or above its cap;
* `CapExit`                     the three exits.
-/

namespace PRF

/-! ## rows of a request and their ids -/

theorem sublist_eq_filter {α : Type*} {l m : List α} (hl : l.Sublist m) (hm : m.Nodup)
    {p : α → Bool} (hp : ∀ a ∈ m, a ∈ l ↔ p a) : l = m.filter p := by
  induction hl with
  | slnil => rfl
  | @cons l m a hl ih =>
    rw [List.nodup_cons] at hm
    have ha : ¬ p a := fun h => hm.1 (hl.subset ((hp a List.mem_cons_self).mpr h))
    rw [List.filter_cons, if_neg ha]
    exact ih hm.2 fun b hb => hp b (List.mem_cons_of_mem _ hb)
  | @cons_cons l m a hl ih =>
    rw [List.nodup_cons] at hm
    have ha : p a := (hp a List.mem_cons_self).mp List.mem_cons_self
    rw [List.filter_cons, if_pos ha]
    refine congrArg (a :: ·) (ih hm.2 fun b hb => ?_)
    rw [← hp b (List.mem_cons_of_mem _ hb), List.mem_cons]
    exact ⟨Or.inr, fun h => h.resolve_left fun he => hm.1 (he ▸ hb)⟩

section
variable (q : Request)

theorem Request.row_eq {a b : Row} (ha : a ∈ q.rows) (hb : b ∈ q.rows)
    (h : a.rowId = b.rowId) : a = b :=
  List.inj_on_of_nodup_map q.ids_nodup ha hb h

theorem Request.rows_nodup : q.rows.Nodup := List.Nodup.of_map _ q.ids_nodup

variable {q} {l : List Row} (hl : l.Sublist q.rows) {row : Row} (h : row ∈ q.rows)
include hl h

theorem Request.id_mem_iff : row.rowId ∈ l.map Row.rowId ↔ row ∈ l := by
  constructor
  · intro hm
    obtain ⟨a, ha, hid⟩ := List.mem_map.mp hm
    exact q.row_eq (hl.subset ha) h hid ▸ ha
  · exact fun hm => List.mem_map_of_mem hm

theorem Request.contains_id : (l.map Row.rowId).contains row.rowId = decide (row ∈ l) := by
  rw [Bool.eq_iff_iff, List.contains_iff_mem, decide_eq_true_eq, id_mem_iff hl h]

theorem Request.find_rows {ν : Type*} (f : Row → ν) :
    Table.find (l.map fun row => (row.rowId, f row)) row.rowId
      = if row ∈ l then some (f row) else none := by
  have hkeys : (l.map fun row => (row.rowId, f row)).map Prod.fst = l.map Row.rowId := by
    rw [List.map_map]
    rfl
  split
  · next hm =>
    apply Table.find_of_mem
    · rw [hkeys]
      exact (hl.map Row.rowId).nodup q.ids_nodup
    · exact List.mem_map_of_mem (f := fun row : Row => (row.rowId, f row)) hm
  · next hm =>
    rw [Table.find_eq_none_iff, hkeys, id_mem_iff hl h]
    exact hm

end

theorem removeIds_filter {q : Request} {active : List Row} (hl : active.Sublist q.rows)
    (p : Row → Bool) :
    removeIds ((active.filter p).map Row.rowId) active = active.filter fun row => !p row := by
  unfold removeIds
  refine List.filter_congr fun row hrow => ?_
  rw [Request.contains_id (List.filter_sublist.trans hl) (hl.subset hrow)]
  congr 1
  rw [Bool.eq_iff_iff, decide_eq_true_eq, List.mem_filter]
  exact ⟨And.right, fun h => ⟨hrow, h⟩⟩

theorem weightTotal_nonneg (rows : List Row) : 0 ≤ weightTotal rows :=
  Apportion.sum_map_nonneg fun row _ => row.weight_nonneg

theorem weightTotal_pos {rows : List Row} (h : weightTotal rows ≠ 0) : 0 < weightTotal rows :=
  lt_of_le_of_ne (weightTotal_nonneg rows) h.symm

/-! ## one round -/

structure CapState where
  index : ℕ
  remaining : ℤ
  active : List Row
  committed : List (Value × ℤ)
  rounds : List Round

namespace CapState

def constrained (s : CapState) : List Row := constrainedOf s.remaining s.active

def next (s : CapState) : CapState :=
  { index := s.index + 1
    remaining := s.remaining - capTotal s.constrained
    active := removeIds (s.constrained.map Row.rowId) s.active
    committed :=
      Table.into s.committed (s.constrained.map fun row => (row.rowId, row.effectiveCap))
    rounds := s.rounds ++ [roundWitness s.index s.remaining s.active s.constrained] }

def run (roundingPolicy : RoundingPolicy) (s : CapState) : Witness :=
  witnessLoop roundingPolicy s.index s.remaining s.active s.committed s.rounds

def start (q : Request) : CapState := ⟨0, q.available, q.rows, [], []⟩

end CapState

/-- how the loop leaves a state -/
inductive CapExit (roundingPolicy : RoundingPolicy) (s : CapState) : Witness → Prop
  | empty (h : s.active = []) :
      CapExit roundingPolicy s ⟨s.rounds, [], s.committed, s.remaining, .noRemainingCapacity⟩
  | zeroWeight (h : s.active ≠ []) (hw : weightTotal s.active = 0) :
      CapExit roundingPolicy s ⟨s.rounds, s.active, s.committed, s.remaining, .noActiveWeight⟩
  | rounding (hw : weightTotal s.active ≠ 0) (hc : s.constrained = []) :
      CapExit roundingPolicy s
        ⟨s.rounds ++ [roundWitness s.index s.remaining s.active []], s.active, s.committed,
          s.remaining, roundingReason roundingPolicy⟩

/-- **The rule of the loop.**  What holds at the start and is kept by every round holds in the
state the loop leaves. -/
theorem witnessLoop_spec (roundingPolicy : RoundingPolicy) (P : CapState → Prop)
    (hstep : ∀ s, P s → weightTotal s.active ≠ 0 → s.constrained ≠ [] → P s.next)
    (s : CapState) (hs : P s) :
    ∃ t, P t ∧ CapExit roundingPolicy t (s.run roundingPolicy) := by
  obtain ⟨index, remaining, active, committed, rounds⟩ := s
  unfold CapState.run
  dsimp only
  induction index, remaining, active, committed, rounds using
    witnessLoop.induct with
  | case1 index remaining committed rounds =>
    rw [witnessLoop, if_pos rfl]
    exact ⟨_, hs, .empty rfl⟩
  | case2 index remaining active committed rounds h hw =>
    rw [witnessLoop, if_neg h, if_pos hw]
    exact ⟨_, hs, .zeroWeight h hw⟩
  | case3 index remaining active committed rounds h hw hc ih =>
    rw [witnessLoop, if_neg h, if_neg hw, dif_pos hc]
    exact ih (hstep _ hs hw hc)
  | case4 index remaining active committed rounds h hw hc =>
    rw [witnessLoop, if_neg h, if_neg hw, dif_neg hc]
    exact ⟨_, hs, .rounding hw (not_not.mp hc)⟩

/-! ## the rows that left are full -/

/-- at the amount `remaining` over the weight `weightTotal`, the quota of the row reaches its
cap -/
theorem capConstrained_iff {remaining weightTotal : ℤ} {row : Row} :
    capConstrained remaining weightTotal row
      ↔ row.effectiveCap * weightTotal ≤ remaining * row.weight := by
  unfold capConstrained
  exact decide_eq_true_iff

structure CapInv (q : Request) (s : CapState) : Prop where
  sublist : s.active.Sublist q.rows
  remaining_nonneg : 0 ≤ s.remaining
  paid : s.remaining + capTotal q.rows = q.available + capTotal s.active
  full : ∀ row ∈ q.rows, row ∉ s.active →
    row.effectiveCap * weightTotal s.active ≤ s.remaining * row.weight
  committed : ∀ row ∈ q.rows, Table.find s.committed row.rowId
    = if row ∈ s.active then none else some row.effectiveCap
  idle : s.index = 0 → s.active = q.rows
  cap_pos : s.index ≠ 0 → ∀ row ∈ s.active, row.weight = 0 → 0 < row.effectiveCap
  gone : ∀ row ∈ q.rows, row ∉ s.active → row.weight = 0 → row.effectiveCap = 0

theorem CapInv.start (q : Request) : CapInv q (CapState.start q) where
  sublist := List.Sublist.refl _
  remaining_nonneg := q.available_nonneg
  paid := rfl
  full := fun _ h hn => absurd h hn
  committed := fun _ h => (if_pos h).symm
  idle := fun _ => rfl
  cap_pos := fun h => absurd rfl h
  gone := fun _ h hn => absurd h hn

section
variable {q : Request} {s : CapState} (hs : CapInv q s)
include hs

theorem CapInv.next_active : s.next.active
    = s.active.filter fun row => !capConstrained s.remaining (weightTotal s.active) row :=
  removeIds_filter hs.sublist _

theorem CapInv.weight_split :
    weightTotal s.constrained + weightTotal s.next.active = weightTotal s.active := by
  rw [hs.next_active]
  exact Apportion.sum_filter_add _ _ _

theorem CapInv.cap_split :
    capTotal s.constrained + capTotal s.next.active = capTotal s.active := by
  rw [hs.next_active]
  exact Apportion.sum_filter_add _ _ _

theorem CapInv.mem_next {row : Row} : row ∈ s.next.active
    ↔ row ∈ s.active ∧ s.remaining * row.weight < row.effectiveCap * weightTotal s.active := by
  rw [hs.next_active, List.mem_filter, Bool.not_eq_true', ← Bool.not_eq_true, capConstrained_iff,
    not_le]

omit hs in
theorem CapState.cap_le (s : CapState) :
    capTotal s.constrained * weightTotal s.active ≤ s.remaining * weightTotal s.constrained := by
  unfold capTotal weightTotal
  rw [← List.sum_map_mul_right, ← List.sum_map_mul_left]
  refine List.sum_le_sum fun row hrow => ?_
  exact capConstrained_iff.mp (List.mem_filter.mp hrow).2

theorem CapInv.level_le :
    s.remaining * weightTotal s.next.active ≤ s.next.remaining * weightTotal s.active := by
  have h1 := s.cap_le
  have h2 := hs.weight_split
  show _ ≤ (s.remaining - capTotal s.constrained) * _
  have h3 : s.remaining * weightTotal s.active
      = s.remaining * weightTotal s.constrained + s.remaining * weightTotal s.next.active := by
    rw [← h2, mul_add]
  rw [sub_mul, h3]
  omega

variable (hw : weightTotal s.active ≠ 0)
include hw

theorem CapInv.next_remaining_nonneg : 0 ≤ s.next.remaining := by
  have h1 := hs.level_le
  have h2 : 0 ≤ s.remaining * weightTotal s.next.active :=
    mul_nonneg hs.remaining_nonneg (weightTotal_nonneg _)
  exact nonneg_of_mul_nonneg_left (h2.trans h1) (weightTotal_pos hw)

theorem CapInv.full_next {row : Row}
    (h : row.effectiveCap * weightTotal s.active ≤ s.remaining * row.weight) :
    row.effectiveCap * weightTotal s.next.active ≤ s.next.remaining * row.weight := by
  have hpos := weightTotal_pos hw
  refine le_of_mul_le_mul_right ?_ hpos
  calc row.effectiveCap * weightTotal s.next.active * weightTotal s.active
      = row.effectiveCap * weightTotal s.active * weightTotal s.next.active := by ring
    _ ≤ s.remaining * row.weight * weightTotal s.next.active :=
        mul_le_mul_of_nonneg_right h (weightTotal_nonneg _)
    _ = s.remaining * weightTotal s.next.active * row.weight := by ring
    _ ≤ s.next.remaining * weightTotal s.active * row.weight :=
        mul_le_mul_of_nonneg_right hs.level_le row.weight_nonneg
    _ = s.next.remaining * row.weight * weightTotal s.active := by ring

/-- **A round keeps the invariant.** -/
theorem CapInv.next : CapInv q s.next where
  sublist := by
    rw [hs.next_active]
    exact List.filter_sublist.trans hs.sublist
  remaining_nonneg := hs.next_remaining_nonneg hw
  paid := by
    have h1 := hs.paid
    have h2 := hs.cap_split
    show s.remaining - capTotal s.constrained + _ = _
    omega
  full := by
    intro row hrow hnot
    apply hs.full_next hw
    by_cases hact : row ∈ s.active
    · rw [hs.mem_next, not_and, not_lt] at hnot
      exact hnot hact
    · exact hs.full row hrow hact
  committed := by
    intro row hrow
    have hsub : s.constrained.Sublist q.rows := List.filter_sublist.trans hs.sublist
    have hkeys : ((s.constrained.map fun row => (row.rowId, row.effectiveCap)).map
        Prod.fst).Nodup := by
      rw [List.map_map]
      exact (hsub.map Row.rowId).nodup q.ids_nodup
    show Table.find (Table.into s.committed _) row.rowId = _
    rw [Table.find_into _ hkeys, Request.find_rows hsub hrow, hs.committed row hrow]
    by_cases hact : row ∈ s.active
    · by_cases hc : row ∈ s.constrained
      · have hn : row ∉ s.next.active := by
          rw [hs.mem_next, not_and, not_lt]
          exact fun _ => capConstrained_iff.mp (List.mem_filter.mp hc).2
        rw [if_pos hc, if_neg hn]
        rfl
      · have hn : row ∈ s.next.active := by
          rw [hs.mem_next, ← not_le]
          exact ⟨hact, fun h => hc (List.mem_filter.mpr ⟨hact, capConstrained_iff.mpr h⟩)⟩
        rw [if_neg hc, if_pos hact, if_pos hn]
        rfl
    · have hc : row ∉ s.constrained := fun h => hact (List.mem_of_mem_filter h)
      have hn : row ∉ s.next.active := fun h => hact (hs.mem_next.mp h).1
      rw [if_neg hc, if_neg hact, if_neg hn]
      rfl
  idle := fun h => absurd h (Nat.succ_ne_zero _)
  cap_pos := by
    intro _ row hrow h0
    obtain ⟨_, hlt⟩ := hs.mem_next.mp hrow
    rw [h0, mul_zero] at hlt
    exact pos_of_mul_pos_left hlt (weightTotal_nonneg _)
  gone := by
    intro row hrow hnot h0
    by_cases hact : row ∈ s.active
    · rw [hs.mem_next, not_and, not_lt] at hnot
      have h1 := hnot hact
      rw [h0, mul_zero] at h1
      exact le_antisymm (nonpos_of_mul_nonpos_left h1 (weightTotal_pos hw)) row.effectiveCap_nonneg
    · exact hs.gone row hrow hact h0

end

/-! ## the rounds show why the rows left -/

theorem committedQuota_append (rounds : List Round) (round : Round) (id : Value) :
    committedQuota (rounds ++ [round]) id
      = if rounds.any fun r => someId id r.newlyCapConstrainedRowIds then committedQuota rounds id
        else committedQuota [round] id := by
  unfold committedQuota
  rw [List.find?_append]
  cases h : rounds.find? fun r => someId id r.newlyCapConstrainedRowIds with
  | none =>
    have ha : rounds.any (fun r => someId id r.newlyCapConstrainedRowIds) = false := by
      rw [← Bool.not_eq_true, List.any_eq_true]
      rintro ⟨r, hr, hid⟩
      exact List.find?_eq_none.mp h r hr hid
    rw [ha]
    rfl
  | some r =>
    have hr : someId id r.newlyCapConstrainedRowIds = true :=
      List.find?_some (p := fun r : Round => someId id r.newlyCapConstrainedRowIds) h
    have ha : rounds.any (fun r => someId id r.newlyCapConstrainedRowIds) = true :=
      List.any_eq_true.mpr ⟨r, List.mem_of_find?_eq_some h, hr⟩
    rw [ha]
    rfl

theorem committedQuota_quiet (rounds : List Round) {round : Round}
    (h : round.newlyCapConstrainedRowIds = []) (id : Value) :
    committedQuota (rounds ++ [round]) id = committedQuota rounds id := by
  rw [committedQuota_append]
  split
  · rfl
  · next ha =>
    have hr : ∀ r ∈ rounds, ¬ someId id r.newlyCapConstrainedRowIds := fun r hr hid =>
      ha (List.any_eq_true.mpr ⟨r, hr, hid⟩)
    have h1 : someId id round.newlyCapConstrainedRowIds = false := by
      unfold someId
      rw [h, List.contains_nil, Bool.and_false]
    unfold committedQuota
    rw [List.find?_eq_none.mpr hr, List.find?_cons, h1]
    rfl

/-- a quota at or above the cap of a row -/
structure Reaches (row : Row) (e : Quota) : Prop where
  denominator_pos : 0 < e.denominator
  numerator_nonneg : 0 ≤ e.numerator
  cap_le : row.effectiveCap * e.denominator ≤ e.numerator

/-- the round names the row as newly constrained and shows that its quota reaches its cap -/
def Commits (row : Row) (round : Round) : Prop :=
  row.rowId ∈ round.newlyCapConstrainedRowIds ∧
    ∃ e, (row.rowId, e) ∈ round.quotas ∧ Reaches row e

structure RoundsInv (q : Request) (s : CapState) : Prop where
  length : s.rounds.length + s.active.length ≤ q.rows.length
  nonneg : ∀ round ∈ s.rounds, 0 ≤ round.availableAtStart ∧ 0 ≤ round.availableAfterCaps
  unnamed : ∀ row ∈ s.active, ∀ round ∈ s.rounds, row.rowId ∉ round.newlyCapConstrainedRowIds
  commits : ∀ round ∈ s.rounds, ∀ row ∈ q.rows, row.rowId ∈ round.newlyCapConstrainedRowIds →
    Commits row round
  shown : ∀ row ∈ q.rows, row ∉ s.active → ∃ round ∈ s.rounds, Commits row round
  quota : ∀ row ∈ q.rows, row ∉ s.active → row.rowId.truthy →
    ∃ e, committedQuota s.rounds row.rowId = some e ∧ Reaches row e

theorem RoundsInv.start (q : Request) : RoundsInv q (CapState.start q) where
  length := (Nat.zero_add _).le
  nonneg := nofun
  unnamed := nofun
  commits := nofun
  shown := fun _ h hn => absurd h hn
  quota := fun _ h hn => absurd h hn

theorem committedQuota_falsy (rounds : List Round) {id : Value} (h : id.truthy = false) :
    committedQuota rounds id = none := by
  have hr : ∀ r ∈ rounds, ¬ someId id r.newlyCapConstrainedRowIds := by
    intro r _
    unfold someId
    rw [h, Bool.false_and]
    exact Bool.false_ne_true
  unfold committedQuota
  rw [List.find?_eq_none.mpr hr]
  rfl

section
variable {q : Request} {s : CapState} (hs : CapInv q s) (hw : weightTotal s.active ≠ 0)
include hs hw

theorem CapInv.reaches {row : Row} (h : row ∈ s.constrained) :
    Reaches row (PRF.quota s.remaining row.weight (weightTotal s.active)) where
  denominator_pos := weightTotal_pos hw
  numerator_nonneg := mul_nonneg hs.remaining_nonneg row.weight_nonneg
  cap_le := capConstrained_iff.mp (List.mem_filter.mp h).2

/-- the round commits its constrained rows -/
theorem CapInv.commits {row : Row} (h : row ∈ s.constrained) :
    Commits row (roundWitness s.index s.remaining s.active s.constrained) := by
  refine ⟨List.mem_map_of_mem h, _, ?_, hs.reaches hw h⟩
  exact List.mem_map_of_mem (f := fun row : Row =>
    (row.rowId, PRF.quota s.remaining row.weight (weightTotal s.active))) (List.mem_of_mem_filter h)

omit hw in
theorem CapInv.committedQuota_round {row : Row} (h : row ∈ s.constrained)
    (ht : row.rowId.truthy) :
    committedQuota [roundWitness s.index s.remaining s.active s.constrained] row.rowId
      = some (PRF.quota s.remaining row.weight (weightTotal s.active)) := by
  have hact : row ∈ s.active := List.mem_of_mem_filter h
  have hname : someId row.rowId
      (roundWitness s.index s.remaining s.active s.constrained).newlyCapConstrainedRowIds
      = true := by
    unfold someId
    rw [ht, Bool.true_and]
    exact List.contains_iff_mem.mpr (List.mem_map_of_mem h)
  have hq := Request.find_rows hs.sublist (hs.sublist.subset hact)
    fun row => PRF.quota s.remaining row.weight (weightTotal s.active)
  rw [if_pos hact] at hq
  unfold committedQuota
  rw [List.find?_cons, hname]
  unfold Table.find at hq
  obtain ⟨e, he, hv⟩ := Option.map_eq_some_iff.mp hq
  show (List.find? (fun e => decide (e.1 = row.rowId)) (s.active.map fun row =>
    (row.rowId, PRF.quota s.remaining row.weight (weightTotal s.active)))).bind _ = _
  rw [he, ← hv]
  rfl

/-- **A round keeps what the rounds show.** -/
theorem RoundsInv.next (hr : RoundsInv q s) (hc : s.constrained ≠ []) : RoundsInv q s.next where
  length := by
    have h1 := removeIds_length_lt hc
    have h2 := hr.length
    show (s.rounds ++ [_]).length + (removeIds _ s.active).length ≤ _
    rw [List.length_append, List.length_singleton]
    unfold CapState.constrained at *
    omega
  nonneg := by
    intro round hround
    rcases List.mem_append.mp hround with hround | hround
    · exact hr.nonneg round hround
    · rw [List.mem_singleton.mp hround]
      exact ⟨hs.remaining_nonneg, hs.next_remaining_nonneg hw⟩
  unnamed := by
    intro row hrow round hround
    obtain ⟨hact, hlt⟩ := hs.mem_next.mp hrow
    rcases List.mem_append.mp hround with hround | hround
    · exact hr.unnamed row hact round hround
    · rw [List.mem_singleton.mp hround]
      show row.rowId ∉ s.constrained.map Row.rowId
      have hsub : s.constrained.Sublist q.rows := List.filter_sublist.trans hs.sublist
      rw [Request.id_mem_iff hsub (hs.sublist.subset hact)]
      exact fun h => absurd (capConstrained_iff.mp (List.mem_filter.mp h).2) (not_le.mpr hlt)
  commits := by
    intro round hround row hrow hname
    rcases List.mem_append.mp hround with hround | hround
    · exact hr.commits round hround row hrow hname
    · rw [List.mem_singleton.mp hround] at hname ⊢
      have hsub : s.constrained.Sublist q.rows := List.filter_sublist.trans hs.sublist
      exact hs.commits hw ((Request.id_mem_iff hsub hrow).mp hname)
  shown := by
    intro row hrow hnot
    by_cases hact : row ∈ s.active
    · refine ⟨_, List.mem_append_right _ List.mem_cons_self, hs.commits hw ?_⟩
      rw [hs.mem_next, not_and, not_lt] at hnot
      exact List.mem_filter.mpr ⟨hact, capConstrained_iff.mpr (hnot hact)⟩
    · obtain ⟨round, hround, hcom⟩ := hr.shown row hrow hact
      exact ⟨round, List.mem_append_left _ hround, hcom⟩
  quota := by
    intro row hrow hnot ht
    show ∃ e, committedQuota (s.rounds ++ [_]) row.rowId = some e ∧ _
    rw [committedQuota_append]
    by_cases hact : row ∈ s.active
    · have hmem : row ∈ s.constrained := by
        rw [hs.mem_next, not_and, not_lt] at hnot
        exact List.mem_filter.mpr ⟨hact, capConstrained_iff.mpr (hnot hact)⟩
      have hno : ¬ s.rounds.any fun r => someId row.rowId r.newlyCapConstrainedRowIds := by
        rw [List.any_eq_true]
        rintro ⟨r, hr', hid⟩
        unfold someId at hid
        rw [Bool.and_eq_true, List.contains_iff_mem] at hid
        exact hr.unnamed row hact r hr' hid.2
      rw [if_neg hno]
      exact ⟨_, hs.committedQuota_round hmem ht, hs.reaches hw hmem⟩
    · obtain ⟨round, hround, hcom⟩ := hr.shown row hrow hact
      have hyes : s.rounds.any (fun r => someId row.rowId r.newlyCapConstrainedRowIds) = true := by
        refine List.any_eq_true.mpr ⟨round, hround, ?_⟩
        unfold someId
        rw [ht, Bool.true_and]
        exact List.contains_iff_mem.mpr hcom.1
      rw [if_pos hyes]
      exact hr.quota row hrow hact ht

end

/-! ## the end of the loop -/

theorem witnessLoop_run (q : Request) : ∃ t, (CapInv q t ∧ RoundsInv q t) ∧
    CapExit q.roundingPolicy t ((CapState.start q).run q.roundingPolicy) :=
  witnessLoop_spec q.roundingPolicy (fun t => CapInv q t ∧ RoundsInv q t)
    (fun _ ht hw hc => ⟨ht.1.next hw, ht.2.next ht.1 hw hc⟩) _
    ⟨CapInv.start q, RoundsInv.start q⟩

end PRF
