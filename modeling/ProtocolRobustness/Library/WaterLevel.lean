import Mathlib.Algebra.BigOperators.Group.List.Basic
import Mathlib.Algebra.BigOperators.Ring.List
import Mathlib.Algebra.Order.BigOperators.Group.List
import Mathlib.Tactic

/-!
# Capped proportional division

Vessels of capacity `cap a` are filled at rates `weight a`: at level `lam` the vessel `a` holds
`min (cap a) (lam * weight a)`.  A level for an amount is a `lam` at which the vessels hold the
amount together.

* `fill_lt_capacity`                the filled amount stays below the capacity while a vessel rises;
* `IsLevel.unique`                  below the capacity an amount has at most one level;
* `isLevel_of_split`                vessels that are full and vessels that share the rest in
                                    proportion to their rates show a level.
-/

set_option linter.unusedSectionVars false

namespace WaterLevel

section
variable {α K : Type*} [Field K] [LinearOrder K] [IsStrictOrderedRing K]
variable (cap weight : α → K)

/-- what a vessel holds at a level -/
def held (lam : K) (a : α) : K := min (cap a) (lam * weight a)

def fill (l : List α) (lam : K) : K := (l.map (held cap weight lam)).sum

/-- what the vessels of positive rate can hold -/
def capacity (l : List α) : K := ((l.filter fun a => 0 < weight a).map cap).sum

structure IsLevel (l : List α) (amount lam : K) : Prop where
  nonneg : 0 ≤ lam
  fill_eq : fill cap weight l lam = amount

variable {cap weight}

theorem held_mono {a : α} (hw : 0 ≤ weight a) {lam mu : K} (h : lam ≤ mu) :
    held cap weight lam a ≤ held cap weight mu a :=
  min_le_min_left _ (mul_le_mul_of_nonneg_right h hw)

/-- equal amounts at two levels are held vessel by vessel -/
theorem held_eq_of_fill_eq {l : List α} (hw : ∀ a ∈ l, 0 ≤ weight a) {lam mu : K} (h : lam ≤ mu)
    (hf : fill cap weight l lam = fill cap weight l mu) :
    ∀ a ∈ l, held cap weight lam a = held cap weight mu a := by
  by_contra hne
  push Not at hne
  obtain ⟨a, ha, hane⟩ := hne
  have hlt := List.sum_lt_sum (held cap weight lam) (held cap weight mu)
    (fun b hb => held_mono (hw b hb) h) ⟨a, ha, lt_of_le_of_ne (held_mono (hw a ha) h) hane⟩
  exact hlt.ne hf

theorem capacity_cons (a : α) (l : List α) :
    capacity cap weight (a :: l) = (if 0 < weight a then cap a else 0) + capacity cap weight l := by
  unfold capacity
  rw [List.filter_cons]
  by_cases h : 0 < weight a
  · rw [if_pos (decide_eq_true h), if_pos h, List.map_cons, List.sum_cons]
  · rw [if_neg (by simpa using h), if_neg h, zero_add]

theorem fill_cons (a : α) (l : List α) (lam : K) :
    fill cap weight (a :: l) lam = held cap weight lam a + fill cap weight l lam := by
  unfold fill
  rw [List.map_cons, List.sum_cons]

/-- a vessel that does not fill holds nothing -/
theorem held_of_weight_zero {a : α} (hc : 0 ≤ cap a) (hw : weight a = 0) (lam : K) :
    held cap weight lam a = 0 := by
  unfold held
  rw [hw, mul_zero, min_eq_right hc]

theorem capacity_eq_sum (l : List α) :
    capacity cap weight l = (l.map fun a => if 0 < weight a then cap a else 0).sum := by
  induction l with
  | nil => rfl
  | cons a l ih => rw [capacity_cons, ih, List.map_cons, List.sum_cons]

/-- a vessel that still rises keeps the amount below the capacity -/
theorem fill_lt_capacity {l : List α} (hc : ∀ a ∈ l, 0 ≤ cap a) (hw : ∀ a ∈ l, 0 ≤ weight a)
    {lam : K} (h : ∃ a ∈ l, 0 < weight a ∧ lam * weight a < cap a) :
    fill cap weight l lam < capacity cap weight l := by
  rw [capacity_eq_sum]
  apply List.sum_lt_sum
  · intro a ha
    split
    · exact min_le_left _ _
    · next hn =>
      exact (held_of_weight_zero (hc a ha) (le_antisymm (not_lt.mp hn) (hw a ha)) lam).le
  · obtain ⟨a, ha, hwa, hlt⟩ := h
    refine ⟨a, ha, ?_⟩
    rw [if_pos hwa]
    exact (min_le_right _ _).trans_lt hlt

theorem fill_eq_capacity {l : List α} (hc : ∀ a ∈ l, 0 ≤ cap a) (hw : ∀ a ∈ l, 0 ≤ weight a)
    {lam : K} (h : ∀ a ∈ l, 0 < weight a → cap a ≤ lam * weight a) :
    fill cap weight l lam = capacity cap weight l := by
  induction l with
  | nil => rfl
  | cons a l ih =>
    rw [fill_cons, capacity_cons, ih (fun b hb => hc b (List.mem_cons_of_mem _ hb))
      (fun b hb => hw b (List.mem_cons_of_mem _ hb)) fun b hb => h b (List.mem_cons_of_mem _ hb)]
    by_cases ha : 0 < weight a
    · rw [if_pos ha, held, min_eq_left (h a List.mem_cons_self ha)]
    · have h0 : weight a = 0 := le_antisymm (not_lt.mp ha) (hw a List.mem_cons_self)
      rw [if_neg ha, held_of_weight_zero (hc a List.mem_cons_self) h0]

/-- **Below the capacity an amount has at most one level.** -/
theorem IsLevel.unique {l : List α} (hc : ∀ a ∈ l, 0 ≤ cap a) (hw : ∀ a ∈ l, 0 ≤ weight a)
    {amount lam mu : K} (hlt : amount < capacity cap weight l)
    (h : IsLevel cap weight l amount lam) (h' : IsLevel cap weight l amount mu) : lam = mu := by
  have key : ∀ {lam mu : K}, IsLevel cap weight l amount lam → IsLevel cap weight l amount mu →
      ¬ lam < mu := by
    intro lam mu h h' hlm
    have heq := held_eq_of_fill_eq hw hlm.le (h.fill_eq.trans h'.fill_eq.symm)
    -- some vessel is not full at the lower level, and it rises
    have hex : ∃ a ∈ l, 0 < weight a ∧ lam * weight a < cap a := by
      by_contra hno
      push Not at hno
      rw [← fill_eq_capacity hc hw hno, h.fill_eq] at hlt
      exact lt_irrefl _ hlt
    obtain ⟨a, ha, hwa, hca⟩ := hex
    have h1 : lam * weight a < mu * weight a := mul_lt_mul_of_pos_right hlm hwa
    have h2 := heq a ha
    unfold held at h2
    rw [min_eq_right hca.le] at h2
    exact absurd (lt_min hca h1) (by rw [← h2]; exact lt_irrefl _)
  exact le_antisymm (not_lt.mp (key h' h)) (not_lt.mp (key h h'))

/-- full vessels on one side, vessels that share the rest on the other -/
theorem isLevel_of_split {l : List α} (p : α → Bool) {lam amount : K} (h0 : 0 ≤ lam)
    (hfull : ∀ a ∈ l, p a → cap a ≤ lam * weight a)
    (hrest : ∀ a ∈ l, ¬ p a → lam * weight a ≤ cap a)
    (hsum : ((l.filter p).map cap).sum + lam * ((l.filter fun a => !p a).map weight).sum
      = amount) : IsLevel cap weight l amount lam := by
  refine ⟨h0, ?_⟩
  rw [← hsum]
  clear hsum
  induction l with
  | nil => show (0 : K) = 0 + lam * 0; rw [mul_zero, add_zero]
  | cons a l ih =>
    rw [fill_cons, ih (fun b hb => hfull b (List.mem_cons_of_mem _ hb))
      (fun b hb => hrest b (List.mem_cons_of_mem _ hb)), List.filter_cons, List.filter_cons]
    cases hp : p a
    · have h1 := hrest a List.mem_cons_self (by rw [hp]; decide)
      rw [if_neg (by decide), if_pos (by decide), List.map_cons, List.sum_cons, held,
        min_eq_right h1]
      ring
    · have h1 := hfull a List.mem_cons_self hp
      rw [if_pos rfl, if_neg (by decide), List.map_cons, List.sum_cons, held, min_eq_left h1]
      ring

end

end WaterLevel
