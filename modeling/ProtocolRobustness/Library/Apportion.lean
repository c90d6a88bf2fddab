import Mathlib.Data.List.Sort
import Mathlib.Algebra.BigOperators.Group.List.Basic
import Mathlib.Algebra.BigOperators.Ring.List
import Mathlib.Algebra.Order.BigOperators.Group.List
import Mathlib.Tactic

/-!
# Dividing an integer amount in proportion to integer weights

The claimants are the members of a list.  Each has the floor of its exact share
`amount * weight / total`; what the floors leave over, the dust, is as large as the sum of the
remainders divided by `total`, so it is handed out one unit at a time along a ranking by remainder
and ends before the ranking reaches an exact share.

* `dust_mul`          dust times total is the sum of the remainders;
* `dust_le_countP`    there are at least as many inexact shares as units of dust;
* `filter_sort`       the ranking of a part is the part of the ranking;
* `sum_units`         the units handed out, summed over the claimants;
* `pos_of_mem_take`   the first units of a descending list are positive as long as enough are.
-/

namespace Apportion

/-! ## sums over lists -/

section
variable {α : Type*}

theorem sum_filter_add (l : List α) (p : α → Bool) (f : α → ℤ) :
    ((l.filter p).map f).sum + ((l.filter fun a => !p a).map f).sum = (l.map f).sum := by
  rw [← List.sum_map_filter_add_sum_map_filter_not (fun a => p a = true) f l]
  congr 4
  · funext a
    cases p a <;> rfl
  · funext a
    cases p a <;> rfl

theorem sum_map_nonneg {l : List α} {f : α → ℤ} (h : ∀ a ∈ l, 0 ≤ f a) :
    0 ≤ (l.map f).sum := by
  apply List.sum_nonneg
  intro x hx
  obtain ⟨a, ha, rfl⟩ := List.mem_map.mp hx
  exact h a ha

/-- a sum of non-negative numbers is zero only when all are -/
theorem eq_zero_of_sum_eq_zero {l : List α} {f : α → ℤ} (h : ∀ a ∈ l, 0 ≤ f a)
    (hs : (l.map f).sum = 0) : ∀ a ∈ l, f a = 0 := by
  have hx : ∀ x ∈ l.map f, 0 ≤ x := by
    intro x hx
    obtain ⟨a, ha, rfl⟩ := List.mem_map.mp hx
    exact h a ha
  intro a ha
  exact List.all_zero_of_le_zero_le_of_sum_eq_zero hx hs (List.mem_map_of_mem ha)

/-- the characteristic function of a condition sums to its count -/
theorem sum_ite (l : List α) (p : α → Prop) [DecidablePred p] :
    (l.map fun a => if p a then (1 : ℤ) else 0).sum = l.countP (p ·) := by
  induction l with
  | nil => rfl
  | cons a l ih =>
    rw [List.map_cons, List.sum_cons, ih, List.countP_cons]
    by_cases h : p a
    · rw [if_pos h, if_pos (decide_eq_true h)]
      push_cast
      ring
    · rw [if_neg h, if_neg (by simpa using h), zero_add, Nat.add_zero]

/-- the units of a part of a list without repetitions -/
theorem sum_units [DecidableEq α] {l T : List α} (hl : l.Nodup) (hT : T.Nodup)
    (hsub : ∀ a ∈ T, a ∈ l) : (l.map fun a => if a ∈ T then (1 : ℤ) else 0).sum = T.length := by
  rw [sum_ite, List.countP_eq_length_filter]
  have hp : (l.filter (fun a => decide (a ∈ T))).Perm T := by
    refine (List.perm_ext_iff_of_nodup (hl.filter _) hT).mpr fun a => ?_
    rw [List.mem_filter, decide_eq_true_eq]
    exact ⟨And.right, fun h => ⟨hsub a h, h⟩⟩
  rw [hp.length_eq]

end

/-! ## floors, remainders, dust -/

section
variable {α : Type*} (amount total : ℤ) (weight : α → ℤ)

def floorShare (a : α) : ℤ := amount * weight a / total
def remainder (a : α) : ℤ := amount * weight a % total

/-- what the floors of a list leave of the amount -/
def dust (l : List α) : ℤ := amount - (l.map (floorShare amount total weight)).sum

variable {total}

theorem floorShare_add_remainder (a : α) :
    total * floorShare amount total weight a + remainder amount total weight a
      = amount * weight a :=
  Int.mul_ediv_add_emod _ _

theorem remainder_nonneg (ht : 0 < total) (a : α) : 0 ≤ remainder amount total weight a :=
  Int.emod_nonneg _ ht.ne'

theorem remainder_lt (ht : 0 < total) (a : α) : remainder amount total weight a < total :=
  Int.emod_lt_of_pos _ ht

theorem floorShare_nonneg (ha : 0 ≤ amount) (ht : 0 < total) {a : α} (hw : 0 ≤ weight a) :
    0 ≤ floorShare amount total weight a :=
  Int.ediv_nonneg (mul_nonneg ha hw) ht.le

theorem sum_floors_add_remainders (total : ℤ) (l : List α) :
    total * (l.map (floorShare amount total weight)).sum
      + (l.map (remainder amount total weight)).sum = amount * (l.map weight).sum := by
  rw [← List.sum_map_mul_left, ← List.sum_map_add, ← List.sum_map_mul_left]
  exact congrArg List.sum (List.map_congr_left fun a _ => floorShare_add_remainder amount weight a)

/-- **The dust is the sum of the remainders**, when the weights of the list add up to the
total. -/
theorem dust_mul {l : List α} (hl : (l.map weight).sum = total) :
    total * dust amount total weight l = (l.map (remainder amount total weight)).sum := by
  have h := sum_floors_add_remainders amount weight total l
  rw [hl] at h
  unfold dust
  rw [mul_sub, mul_comm total amount]
  omega

theorem dust_nonneg (ht : 0 < total) {l : List α} (hl : (l.map weight).sum = total) :
    0 ≤ dust amount total weight l := by
  have h := dust_mul amount weight hl
  have h0 : 0 ≤ (l.map (remainder amount total weight)).sum :=
    sum_map_nonneg fun a _ => remainder_nonneg amount weight ht a
  exact nonneg_of_mul_nonneg_right (h ▸ h0) ht

theorem sum_remainders_le (ht : 0 < total) (l : List α) :
    (l.map (remainder amount total weight)).sum
      ≤ total * l.countP (fun a => decide (0 < remainder amount total weight a)) := by
  induction l with
  | nil => simp
  | cons a l ih =>
    rw [List.map_cons, List.sum_cons, List.countP_cons]
    have h1 := remainder_lt amount weight ht a
    by_cases h : 0 < remainder amount total weight a
    · rw [if_pos (decide_eq_true h)]
      push_cast
      rw [mul_add, mul_one]
      omega
    · rw [if_neg (by simpa using h), Nat.add_zero]
      omega

/-- **There are at least as many inexact shares as units of dust.** -/
theorem dust_le_countP (ht : 0 < total) {l : List α} (hl : (l.map weight).sum = total) :
    dust amount total weight l
      ≤ l.countP (fun a => decide (0 < remainder amount total weight a)) := by
  have h := dust_mul amount weight hl
  have h1 := sum_remainders_le amount weight ht l
  exact le_of_mul_le_mul_left (h ▸ h1) ht

theorem dust_le_length (ht : 0 < total) {l : List α} (hl : (l.map weight).sum = total) :
    dust amount total weight l ≤ l.length :=
  (dust_le_countP amount weight ht hl).trans (Int.ofNat_le.mpr List.countP_le_length)

/-- without dust every share is exact -/
theorem dust_eq_zero_iff (ht : 0 < total) {l : List α} (hl : (l.map weight).sum = total) :
    dust amount total weight l = 0 ↔ ∀ a ∈ l, remainder amount total weight a = 0 := by
  have h := dust_mul amount weight hl
  constructor
  · intro h0
    rw [h0, mul_zero] at h
    exact eq_zero_of_sum_eq_zero (fun a _ => remainder_nonneg amount weight ht a) h.symm
  · intro h0
    have hs : (l.map (remainder amount total weight)).sum = 0 := by
      rw [List.map_congr_left h0, List.map_const', List.sum_replicate, smul_zero]
    rw [hs] at h
    exact (mul_eq_zero.mp h).resolve_left ht.ne'

end

/-! ## rankings -/

section
variable {α : Type*}

/-- the first members of a descending list are positive as long as enough members are -/
theorem pos_of_mem_take {l : List α} {f : α → ℤ} (hl : l.Pairwise fun a b => f b ≤ f a) :
    ∀ n, n ≤ l.countP (fun a => decide (0 < f a)) → ∀ a ∈ l.take n, 0 < f a := by
  induction l with
  | nil => intro n _ a ha; rw [List.take_nil] at ha; cases ha
  | cons b l ih =>
    rw [List.pairwise_cons] at hl
    intro n hn a ha
    cases n with
    | zero => cases ha
    | succ n =>
      rw [List.countP_cons] at hn
      have hb : 0 < f b := by
        by_contra hb
        rw [if_neg (by simpa using hb)] at hn
        have h0 : l.countP (fun a => decide (0 < f a)) = 0 := by
          refine List.countP_eq_zero.mpr fun c hc => ?_
          have := hl.1 c hc
          simp only [decide_eq_true_eq]
          omega
        omega
      rw [List.take_succ_cons] at ha
      rcases List.mem_cons.mp ha with rfl | ha
      · exact hb
      · rw [if_pos (decide_eq_true hb)] at hn
        exact ih hl.2 n (by omega) a ha

variable (r : α → α → Prop) [DecidableRel r]

theorem filter_orderedInsert [IsTrans α r] (p : α → Bool) (a : α) {l : List α}
    (hl : l.Pairwise r) :
    (l.orderedInsert r a).filter p
      = if p a then (l.filter p).orderedInsert r a else l.filter p := by
  induction l with
  | nil => cases h : p a <;> simp [h]
  | cons b l ih =>
    rw [List.pairwise_cons] at hl
    by_cases hab : r a b
    · rw [List.orderedInsert_cons_of_le _ _ hab, List.filter_cons]
      cases hp : p a
      · rfl
      · rw [if_pos rfl, if_pos rfl]
        -- every kept member is after `b`, hence after `a`
        have hle : ∀ c ∈ (b :: l).filter p, r a c := by
          intro c hc
          rcases List.mem_cons.mp (List.mem_of_mem_filter hc) with rfl | hc'
          · exact hab
          · exact IsTrans.trans a b c hab (hl.1 c hc')
        cases hf : (b :: l).filter p with
        | nil => rfl
        | cons c m =>
          rw [List.orderedInsert_cons_of_le _ _ (hle c (by rw [hf]; exact List.mem_cons_self))]
    · rw [List.orderedInsert_of_not_le _ _ hab, List.filter_cons, ih hl.2]
      cases hp : p b
      · rw [List.filter_cons, hp]
        rfl
      · rw [if_pos rfl, List.filter_cons, hp, if_pos rfl]
        cases hpa : p a
        · rfl
        · rw [if_pos rfl, if_pos rfl, List.orderedInsert_of_not_le _ _ hab]

/-- **The ranking of a part is the part of the ranking.** -/
theorem filter_sort [IsTrans α r] [Std.Total r] (p : α → Bool) (l : List α) :
    (l.insertionSort r).filter p = (l.filter p).insertionSort r := by
  induction l with
  | nil => rfl
  | cons a l ih =>
    rw [List.insertionSort_cons, filter_orderedInsert r p a (List.pairwise_insertionSort r l), ih,
      List.filter_cons]
    cases p a <;> rfl

/-- when the first members all belong to the part, they are the first members of the part -/
theorem take_filter_of_all {l : List α} {p : α → Bool} :
    ∀ n, (∀ a ∈ l.take n, p a) → (l.filter p).take n = l.take n := by
  induction l with
  | nil => intro n _; rw [List.filter_nil]
  | cons b l ih =>
    intro n h
    cases n with
    | zero => rfl
    | succ n =>
      rw [List.take_succ_cons] at h
      have hb := h b List.mem_cons_self
      rw [List.filter_cons, if_pos hb, List.take_succ_cons, List.take_succ_cons,
        ih n fun a ha => h a (List.mem_cons_of_mem _ ha)]

end

end Apportion
