import Mathlib.Logic.Relation
import Mathlib.Tactic

/-!
# Links that end

`link x y` says that `x` points to `y`.  Nothing is said of how many things there are; a traversal
returns because the links below where it starts end.

* `Ends link x`       no endless chain of links starts at `x`;
* `Leads link x y`  links lead from `x` to `y`, none at all included;
* `ends_relinked`     give one thing new links: everything still ends iff none of them leads back;
* `returns_iff_ends`  a traversal with fuel returns with some fuel iff the links end.
-/

namespace Links

section
variable {α : Type*}

/-- no endless chain of links starts here -/
def Ends (link : α → α → Prop) (x : α) : Prop := Acc (fun y x => link x y) x

/-- links lead from one to the other -/
def Leads (link : α → α → Prop) : α → α → Prop := Relation.ReflTransGen link

variable {link link' : α → α → Prop} {x y v : α}

theorem ends_of_next (h : ∀ y, link x y → Ends link y) : Ends link x := Acc.intro x h

theorem acc_irrefl {r : α → α → Prop} (h : Acc r x) : ¬ r x x := by
  induction h with
  | intro x _ ih => exact fun hx => ih x hx hx

/-- links that lead somewhere and one that leads back never end -/
theorem Ends.not_back (h : Ends link x) (hlink : link x y) : ¬ Leads link y x := by
  intro hback
  have hcycle : Relation.TransGen link x x := .head' hlink hback
  have hacc : Acc (Relation.TransGen fun y x => link x y) x := h.transGen
  exact acc_irrefl hacc (Relation.transGen_swap.mpr hcycle)

/-- what differs only in the links of `v` reaches `v` the same way -/
theorem Leads.relinked (hsame : ∀ x ≠ v, ∀ y, link x y → link' x y) (h : Leads link x v) :
    Leads link' x v := by
  induction h using Relation.ReflTransGen.head_induction_on with
  | refl => exact .refl
  | @head a b hab _ ih =>
    by_cases hav : a = v
    · rw [hav]
      exact .refl
    · exact .head (hsame a hav b hab) ih

/-- what does not reach `v` ends as it did -/
theorem Ends.relinked (hsame : ∀ x ≠ v, ∀ y, link' x y → link x y) (h : Ends link x)
    (hreach : ¬ Leads link x v) : Ends link' x := by
  induction h with
  | intro x _ ih =>
    have hxv : x ≠ v := by
      rintro rfl
      exact hreach .refl
    refine ends_of_next fun y hy => ?_
    have hlink := hsame x hxv y hy
    exact ih y hlink fun hyv => hreach (.head hlink hyv)

/-- **Give one thing new links: everything still ends iff none of them leads back to it.** -/
theorem ends_relinked (v : α) (h : ∀ x, Ends link x) (hsame : ∀ x ≠ v, ∀ y, link' x y ↔ link x y) :
    (∀ x, Ends link' x) ↔ ∀ y, link' v y → ¬ Leads link y v := by
  constructor
  · intro hends y hy hback
    exact (hends v).not_back hy (hback.relinked fun x hx y => (hsame x hx y).mpr)
  · intro hnew x
    have hv : Ends link' v := ends_of_next fun y hy =>
      (h y).relinked (fun x hx y => (hsame x hx y).mp) (hnew y hy)
    induction h x with
    | intro x _ ih =>
      by_cases hxv : x = v
      · rw [hxv]
        exact hv
      · exact ends_of_next fun y hy => ih y ((hsame x hxv y).mp hy)

/-! ## traversals -/

variable {β : Type*} {children : α → List α} {visit : ℕ → α → Option β}

/-- more fuel does no harm -/
theorem visit_mono (hzero : ∀ x, visit 0 x = none)
    (hsucc : ∀ n x, (visit (n + 1) x).isSome ↔ ∀ y ∈ children x, (visit n y).isSome)
    {m n : ℕ} (hmn : m ≤ n) (h : (visit m x).isSome) : (visit n x).isSome := by
  induction m generalizing n x with
  | zero => simp [hzero] at h
  | succ m ih =>
    cases n with
    | zero => omega
    | succ n =>
      rw [hsucc] at h ⊢
      exact fun y hy => ih (Nat.le_of_succ_le_succ hmn) (h y hy)

variable (visit) in
/-- enough fuel for each of finitely many is enough for all -/
theorem exists_fuel (hmono : ∀ {m n x}, m ≤ n → (visit m x).isSome → (visit n x).isSome)
    (xs : List α) (h : ∀ x ∈ xs, ∃ n, (visit n x).isSome) :
    ∃ n, ∀ x ∈ xs, (visit n x).isSome := by
  induction xs with
  | nil => exact ⟨0, fun x hx => nomatch hx⟩
  | cons x xs ih =>
    obtain ⟨m, hm⟩ := h x List.mem_cons_self
    obtain ⟨n, hn⟩ := ih fun y hy => h y (List.mem_cons_of_mem _ hy)
    refine ⟨max m n, fun y hy => ?_⟩
    rcases List.mem_cons.mp hy with rfl | hy
    · exact hmono (le_max_left m n) hm
    · exact hmono (le_max_right m n) (hn y hy)

/-- **A traversal that visits what its start links to returns iff the links end.** -/
theorem returns_iff_ends (hchildren : ∀ x y, link x y ↔ y ∈ children x)
    (hzero : ∀ x, visit 0 x = none)
    (hsucc : ∀ n x, (visit (n + 1) x).isSome ↔ ∀ y ∈ children x, (visit n y).isSome) (x : α) :
    (∃ n, (visit n x).isSome) ↔ Ends link x := by
  constructor
  · rintro ⟨n, hn⟩
    induction n generalizing x with
    | zero => simp [hzero] at hn
    | succ n ih =>
      exact ends_of_next fun y hy => ih y ((hsucc n x).mp hn y ((hchildren x y).mp hy))
  · intro h
    induction h with
    | intro x _ ih =>
      have hall : ∀ y ∈ children x, ∃ n, (visit n y).isSome :=
        fun y hy => ih y ((hchildren x y).mpr hy)
      obtain ⟨n, hn⟩ := exists_fuel visit (visit_mono hzero hsucc) (children x) hall
      exact ⟨n + 1, (hsucc n x).mpr hn⟩

end

end Links
