import Mathlib.Algebra.BigOperators.Ring.List
import Mathlib.Tactic

/-!
# Fractions over a common denominator

* `common`        the least common multiple of a list of denominators;
* `scaled_cast`   a numerator scaled to a common multiple is the multiple of the fraction;
* `weighted_sum`  so a weighted sum of scaled numerators is the multiple of the weighted sum.
-/

namespace CommonDenominator

def common (dens : List ℕ) : ℕ := dens.foldl Nat.lcm 1

theorem dvd_foldl_lcm (dens : List ℕ) (m : ℕ) :
    m ∣ dens.foldl Nat.lcm m ∧ ∀ d ∈ dens, d ∣ dens.foldl Nat.lcm m := by
  induction dens generalizing m with
  | nil => exact ⟨dvd_rfl, nofun⟩
  | cons d dens ih =>
    obtain ⟨h1, h2⟩ := ih (m.lcm d)
    refine ⟨(Nat.dvd_lcm_left m d).trans h1, List.forall_mem_cons.mpr ⟨?_, h2⟩⟩
    exact (Nat.dvd_lcm_right m d).trans h1

theorem dvd_common {dens : List ℕ} {d : ℕ} (h : d ∈ dens) : d ∣ common dens :=
  (dvd_foldl_lcm dens 1).2 d h

theorem common_pos {dens : List ℕ} (h : ∀ d ∈ dens, 0 < d) : 0 < common dens := by
  have hfold : ∀ m, 0 < m → 0 < dens.foldl Nat.lcm m := by
    induction dens with
    | nil => exact fun m hm => hm
    | cons d dens ih =>
      obtain ⟨hd, hdens⟩ := List.forall_mem_cons.mp h
      exact fun m hm => ih hdens _ (Nat.lcm_pos hm hd)
  exact hfold 1 one_pos

section
variable {α : Type*} (num den : α → ℕ) {D : ℕ}

theorem scaled_cast {a : α} (hd : den a ∣ D) (hpos : 0 < den a) :
    ((num a * (D / den a) : ℕ) : ℚ) = D * (num a / den a) := by
  have hne : (den a : ℚ) ≠ 0 := by exact_mod_cast hpos.ne'
  rw [Nat.cast_mul, Nat.cast_div hd hne]
  ring

/-- **A weighted sum of scaled numerators is the multiple of the weighted sum of the fractions.** -/
theorem weighted_sum {l : List α} (hd : ∀ a ∈ l, den a ∣ D) (hpos : ∀ a ∈ l, 0 < den a)
    (w : α → ℕ) : (((l.map fun a => num a * (D / den a) * w a).sum : ℕ) : ℚ)
      = D * (l.map fun a => (num a / den a : ℚ) * w a).sum := by
  rw [Nat.cast_list_sum, List.map_map, ← List.sum_map_mul_left]
  congr 1
  refine List.map_congr_left fun a ha => ?_
  show ((num a * (D / den a) * w a : ℕ) : ℚ) = _
  rw [Nat.cast_mul, scaled_cast num den (hd a ha) (hpos a ha), mul_assoc]

end

end CommonDenominator
