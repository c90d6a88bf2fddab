import ProtocolRobustness.Library.Apportion
import Mathlib.Data.List.Sort
import Mathlib.Algebra.Order.BigOperators.Group.List
import Mathlib.Algebra.Order.Floor.Ring
import Mathlib.Data.Rat.Floor
import Mathlib.Tactic

/-!
# Rounding exact quotas to units

The claimants are the members of a list, each with an exact rational quota.  Each gets the floor of
its quota; the units the floors leave of the amount go to the first claimants of the ranking by
fractional part, those of equal part in the order of the list.

* `leftover_nonneg`, `leftover_le_countP`   how many units are left;
* `share_le_ceil`, `sum_share`              bounds and total of the shares;
* `mem_take_ranked_iff`                     who gets a unit, by counting who comes before;
* `mem_take_ranked_of_before`               nobody is passed over.
-/

namespace Quota

section
variable {α : Type*} (q : α → ℚ)

/-- larger fractional part first; the sort is stable -/
def ranked (l : List α) : List α :=
  l.insertionSort fun a b => Int.fract (q b) ≤ Int.fract (q a)

/-- the units the floors leave of an amount -/
def leftover (amount : ℚ) (l : List α) : ℤ := ⌊amount⌋ - (l.map fun a => ⌊q a⌋).sum

def share [DecidableEq α] (amount : ℚ) (l : List α) (a : α) : ℤ :=
  ⌊q a⌋ + if a ∈ (ranked q l).take (leftover q amount l).toNat then 1 else 0

/-! ## the units left over -/

theorem sum_floor_add_fract (l : List α) :
    (((l.map fun a => ⌊q a⌋).sum : ℤ) : ℚ) + (l.map fun a => Int.fract (q a)).sum
      = (l.map q).sum := by
  induction l with
  | nil => simp
  | cons a l ih =>
    simp only [List.map_cons, List.sum_cons, Int.cast_add]
    linarith [Int.floor_add_fract (q a)]

theorem sum_fract_nonneg (l : List α) : 0 ≤ (l.map fun a => Int.fract (q a)).sum := by
  apply List.sum_nonneg
  intro x hx
  obtain ⟨a, _, rfl⟩ := List.mem_map.mp hx
  exact Int.fract_nonneg _

theorem sum_fract_le (l : List α) :
    (l.map fun a => Int.fract (q a)).sum ≤ l.countP fun a => decide (0 < Int.fract (q a)) := by
  induction l with
  | nil => simp
  | cons a l ih =>
    rw [List.map_cons, List.sum_cons, List.countP_cons]
    by_cases h : 0 < Int.fract (q a)
    · rw [if_pos (decide_eq_true h)]
      push_cast
      linarith [Int.fract_lt_one (q a)]
    · rw [if_neg (by simpa using h), Nat.add_zero]
      linarith

theorem sum_fract_lt {l : List α} (hl : l ≠ []) :
    (l.map fun a => Int.fract (q a)).sum < l.length := by
  induction l with
  | nil => exact absurd rfl hl
  | cons a l ih =>
    rw [List.map_cons, List.sum_cons, List.length_cons]
    push_cast
    have ha := Int.fract_lt_one (q a)
    cases l with
    | nil => simpa using ha
    | cons b l => linarith [ih (List.cons_ne_nil b l)]

variable {q} {amount : ℚ} {l : List α}

theorem leftover_nonneg (h : (l.map q).sum = amount) : 0 ≤ leftover q amount l := by
  have hs := sum_floor_add_fract q l
  have hf : (l.map fun a => ⌊q a⌋).sum ≤ ⌊amount⌋ := by
    rw [Int.le_floor]
    linarith [sum_fract_nonneg q l]
  unfold leftover
  omega

theorem leftover_le_sum_fract (h : (l.map q).sum = amount) :
    (leftover q amount l : ℚ) ≤ (l.map fun a => Int.fract (q a)).sum := by
  have hs := sum_floor_add_fract q l
  unfold leftover
  rw [Int.cast_sub]
  linarith [Int.floor_le amount]

/-- **There are at least as many inexact quotas as units left over.** -/
theorem leftover_le_countP (h : (l.map q).sum = amount) :
    leftover q amount l ≤ l.countP fun a => decide (0 < Int.fract (q a)) := by
  have h1 := (leftover_le_sum_fract h).trans (sum_fract_le q l)
  exact_mod_cast h1

theorem leftover_lt_length (h : (l.map q).sum = amount) (hl : l ≠ []) :
    leftover q amount l < l.length := by
  have h1 := (leftover_le_sum_fract h).trans_lt (sum_fract_lt q hl)
  exact_mod_cast h1

/-! ## the ranking -/

theorem ranked_perm (q : α → ℚ) (l : List α) : (ranked q l).Perm l := List.perm_insertionSort _ _

theorem ranked_pairwise (q : α → ℚ) (l : List α) :
    (ranked q l).Pairwise fun a b => Int.fract (q b) ≤ Int.fract (q a) := by
  have : Std.Total fun a b : α => Int.fract (q b) ≤ Int.fract (q a) := ⟨fun a b => le_total _ _⟩
  have : IsTrans α fun a b : α => Int.fract (q b) ≤ Int.fract (q a) :=
    ⟨fun a b c h h' => le_trans h' h⟩
  exact List.pairwise_insertionSort _ l

/-- how many claimants of a list come before one of them in the ranking -/
def before [DecidableEq α] (q : α → ℚ) : List α → α → ℕ
  | [], _ => 0
  | b :: l, a =>
    if b = a then l.countP fun c => decide (Int.fract (q a) < Int.fract (q c))
    else before q l a + if Int.fract (q a) ≤ Int.fract (q b) then 1 else 0

section
variable [DecidableEq α] {r : α → α → Prop} [DecidableRel r]

theorem idxOf_orderedInsert_self [IsTrans α r] {b : α} (hl : l.Pairwise r) (hb : b ∉ l) :
    (l.orderedInsert r b).idxOf b = l.countP fun c => decide (¬ r b c) := by
  induction l with
  | nil => simp
  | cons c l ih =>
    rw [List.pairwise_cons] at hl
    have hne : c ≠ b := fun h => hb (h ▸ List.mem_cons_self)
    by_cases hbc : r b c
    · have h0 : (c :: l).countP (fun c => decide (¬ r b c)) = 0 := by
        refine List.countP_eq_zero.mpr fun d hd => ?_
        rcases List.mem_cons.mp hd with rfl | hd
        · simpa using hbc
        · simpa using IsTrans.trans b c d hbc (hl.1 d hd)
      rw [List.orderedInsert_cons_of_le _ _ hbc, h0, List.idxOf_cons_self]
    · rw [List.orderedInsert_of_not_le _ _ hbc, List.idxOf_cons_ne _ hne,
        ih hl.2 fun h => hb (List.mem_cons_of_mem _ h), List.countP_cons,
        if_pos (decide_eq_true hbc)]

theorem idxOf_orderedInsert_of_mem [IsTrans α r] {a b : α} (hl : l.Pairwise r) (ha : a ∈ l)
    (hr : r a a) (hab : b ≠ a) :
    (l.orderedInsert r b).idxOf a = l.idxOf a + if r b a then 1 else 0 := by
  induction l with
  | nil => cases ha
  | cons c l ih =>
    rw [List.pairwise_cons] at hl
    by_cases hbc : r b c
    · have hba : r b a := by
        rcases List.mem_cons.mp ha with rfl | ha
        · exact hbc
        · exact IsTrans.trans b c a hbc (hl.1 a ha)
      rw [List.orderedInsert_cons_of_le _ _ hbc, List.idxOf_cons_ne _ hab, if_pos hba]
    · rw [List.orderedInsert_of_not_le _ _ hbc]
      by_cases hca : c = a
      · subst hca
        rw [List.idxOf_cons_self, List.idxOf_cons_self, if_neg hbc]
      · have ha' : a ∈ l := (List.mem_cons.mp ha).resolve_left (Ne.symm hca)
        rw [List.idxOf_cons_ne _ hca, List.idxOf_cons_ne _ hca, ih hl.2 ha']
        omega

end

theorem idxOf_ranked [DecidableEq α] (q : α → ℚ) {l : List α} (hl : l.Nodup) {a : α}
    (ha : a ∈ l) : (ranked q l).idxOf a = before q l a := by
  have : IsTrans α fun a b : α => Int.fract (q b) ≤ Int.fract (q a) :=
    ⟨fun a b c h h' => le_trans h' h⟩
  induction l with
  | nil => cases ha
  | cons b l ih =>
    rw [List.nodup_cons] at hl
    have hs := ranked_pairwise q l
    have hp := ranked_perm q l
    show ((ranked q l).orderedInsert _ b).idxOf a = _
    unfold before
    by_cases hba : b = a
    · subst hba
      rw [if_pos rfl, idxOf_orderedInsert_self hs fun h => hl.1 (hp.mem_iff.mp h), hp.countP_eq]
      simp only [not_le]
    · have ha' : a ∈ l := (List.mem_cons.mp ha).resolve_left (Ne.symm hba)
      rw [if_neg hba, idxOf_orderedInsert_of_mem hs (hp.mem_iff.mpr ha') le_rfl hba, ih hl.2 ha']

/-- the first of a pair comes first -/
theorem idxOf_lt_of_sublist [DecidableEq α] {l : List α} (hl : l.Nodup) {a b : α}
    (h : [a, b].Sublist l) : l.idxOf a < l.idxOf b := by
  have hp : l.Pairwise fun a b => l.idxOf a < l.idxOf b := by
    rw [List.pairwise_iff_getElem]
    intro i j hi hj hij
    rwa [hl.idxOf_getElem, hl.idxOf_getElem]
  exact (List.pairwise_cons.mp (List.Pairwise.sublist h hp)).1 b (List.mem_singleton_self b)

/-- **A claimant gets a unit when fewer come before it than there are units.** -/
theorem mem_take_ranked_iff [DecidableEq α] (q : α → ℚ) {l : List α} (hl : l.Nodup) {a : α}
    (ha : a ∈ l) (n : ℕ) : a ∈ (ranked q l).take n ↔ before q l a < n := by
  rw [← idxOf_ranked q hl ha]
  have ha' : a ∈ ranked q l := (ranked_perm q l).mem_iff.mpr ha
  have hn : (ranked q l).Nodup := (ranked_perm q l).nodup_iff.mpr hl
  constructor
  · intro h
    obtain ⟨i, hi, rfl⟩ := List.mem_take_iff_getElem.mp h
    rw [hn.idxOf_getElem]
    omega
  · intro h
    refine List.mem_take_iff_getElem.mpr ⟨(ranked q l).idxOf a, ?_, List.getElem_idxOf _⟩
    exact lt_min h (List.idxOf_lt_length_of_mem ha')

/-- **Whoever has a larger part than one with a unit, or an equal part and an earlier place, has a
unit too.** -/
theorem mem_take_ranked_of_before [DecidableEq α] (hl : l.Nodup) {a b : α} (ha : a ∈ l) {n : ℕ}
    (hfract : Int.fract (q b) ≤ Int.fract (q a))
    (htie : Int.fract (q a) = Int.fract (q b) → [a, b].Sublist l)
    (hb : b ∈ (ranked q l).take n) : a ∈ (ranked q l).take n := by
  have hn : (ranked q l).Nodup := (ranked_perm q l).nodup_iff.mpr hl
  obtain ⟨i, hi, rfl⟩ := List.mem_take_iff_getElem.mp hb
  obtain ⟨j, hj, rfl⟩ := List.getElem_of_mem ((ranked_perm q l).mem_iff.mpr ha)
  refine List.mem_take_iff_getElem.mpr ⟨j, lt_min ?_ hj, rfl⟩
  by_contra hnj
  have hlt : i < j := by omega
  -- behind the other in the ranking, its part is not larger; a tie keeps the order of the list
  have hle := List.pairwise_iff_getElem.mp (ranked_pairwise q l) i j (by omega) hj hlt
  have hsub : [(ranked q l)[j], (ranked q l)[i]].Sublist (ranked q l) :=
    List.sublist_insertionSort (List.pairwise_pair.mpr hfract) (htie (le_antisymm hle hfract))
  have hidx := idxOf_lt_of_sublist hn hsub
  rw [hn.idxOf_getElem, hn.idxOf_getElem] at hidx
  omega

/-- the units reach only inexact quotas -/
theorem fract_pos_of_mem_take (h : (l.map q).sum = amount) {a : α}
    (ha : a ∈ (ranked q l).take (leftover q amount l).toNat) : 0 < Int.fract (q a) := by
  by_contra ha0
  have hz : Int.fract (q a) = 0 := le_antisymm (not_lt.mp ha0) (Int.fract_nonneg _)
  -- every inexact quota comes before `a`
  obtain ⟨i, hi, rfl⟩ := List.mem_take_iff_getElem.mp ha
  have hs := ranked_pairwise q l
  have hlen : i < (ranked q l).length := lt_of_lt_of_le hi (min_le_right _ _)
  have htail : ∀ c ∈ (ranked q l).drop i, ¬ 0 < Int.fract (q c) := by
    intro c hc
    obtain ⟨j, hj, rfl⟩ := List.mem_drop_iff_getElem.mp hc
    rcases Nat.eq_zero_or_pos j with rfl | hj0
    · simpa using hz.le
    · have := List.pairwise_iff_getElem.mp hs i (i + j) hlen (by omega) (by omega)
      rw [hz] at this
      simpa [Nat.add_comm] using this
  have hc : (ranked q l).countP (fun a => decide (0 < Int.fract (q a))) ≤ i := by
    conv_lhs => rw [← List.take_append_drop i (ranked q l), List.countP_append]
    have h0 : ((ranked q l).drop i).countP (fun a => decide (0 < Int.fract (q a))) = 0 :=
      List.countP_eq_zero.mpr fun c hc => by simpa using htail c hc
    have h1 := List.countP_le_length (p := fun a => decide (0 < Int.fract (q a)))
      (l := (ranked q l).take i)
    rw [List.length_take] at h1
    omega
  rw [(ranked_perm q l).countP_eq] at hc
  have := leftover_le_countP h
  have := lt_of_lt_of_le hi (min_le_left _ _)
  omega

/-! ## the shares -/

section
variable [DecidableEq α]

theorem floor_le_share (a : α) : ⌊q a⌋ ≤ share q amount l a := by
  unfold share
  split <;> omega

theorem share_le_ceil (h : (l.map q).sum = amount) (a : α) : share q amount l a ≤ ⌈q a⌉ := by
  unfold share
  split
  · next ha =>
    have hf := fract_pos_of_mem_take h ha
    have hlt : (⌊q a⌋ : ℚ) < q a := by linarith [Int.floor_add_fract (q a)]
    exact Int.add_one_le_iff.mpr (Int.lt_ceil.mpr hlt)
  · rw [add_zero]
    exact Int.floor_le_ceil _

/-- a share, by counting who comes before -/
theorem share_eq (hl : l.Nodup) {a : α} (ha : a ∈ l) :
    share q amount l a
      = ⌊q a⌋ + if before q l a < (leftover q amount l).toNat then 1 else 0 := by
  unfold share
  rw [if_congr (mem_take_ranked_iff q hl ha _) rfl rfl]

/-- **The shares add up to the amount.** -/
theorem sum_share (hl : l.Nodup) (h : (l.map q).sum = amount) (hne : l ≠ []) :
    (l.map (share q amount l)).sum = ⌊amount⌋ := by
  have hsum : (l.map (share q amount l)).sum = (l.map fun a => ⌊q a⌋).sum
      + (l.map fun a => if a ∈ (ranked q l).take (leftover q amount l).toNat
          then (1 : ℤ) else 0).sum := by
    rw [← List.sum_map_add]
    rfl
  have hunits := Apportion.sum_units hl
    (((ranked_perm q l).nodup_iff.mpr hl).sublist (List.take_sublist _ _))
    (fun a ha => (ranked_perm q l).mem_iff.mp (List.mem_of_mem_take ha))
    (T := (ranked q l).take (leftover q amount l).toNat)
  have h0 := leftover_nonneg h
  have h1 := leftover_lt_length h hne
  rw [hsum, hunits, List.length_take, (ranked_perm q l).length_eq, min_eq_left (by omega),
    Int.toNat_of_nonneg h0]
  unfold leftover
  omega

end

end

end Quota
