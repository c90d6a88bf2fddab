import Mathlib.Data.List.Forall2
import Mathlib.Tactic

/-!
# What a computation that may fail gives

`Gives x P`: the computation `x`, which might fail, does not, and what it gives has the property `P`.
`Ends E P x`: it may fail, and then the failure has the property `E`.

* `Gives.bind`, `Gives.map`, `Gives.ite`   sequences and branches;
* `Gives.mapM`       a loop, by what each turn is sure to give;
* `Ends.bind`, `Ends.ite`, `Ends.foldlM`   the same for computations that may fail;
* `Ends.of_error`    what is read off a failure.
-/

def Gives {α : Type*} (x : Option α) (P : α → Prop) : Prop := ∃ a, x = some a ∧ P a

namespace Gives

section
variable {α β : Type*} {x : Option α} {P Q : α → Prop} {R : β → Prop}

theorem some {a : α} (h : P a) : Gives (Option.some a) P := ⟨a, rfl, h⟩

theorem mono (h : Gives x P) (hPQ : ∀ a, P a → Q a) : Gives x Q := by
  obtain ⟨a, hx, ha⟩ := h
  exact ⟨a, hx, hPQ a ha⟩

/-- what a value that was given has -/
theorem of_eq (h : Gives x P) {a : α} (hx : x = Option.some a) : P a := by
  obtain ⟨b, hb, h⟩ := h
  exact Option.some.inj (hx.symm.trans hb) ▸ h

theorem of_isSome (h : x.isSome) : Gives x fun _ => True := by
  obtain ⟨a, ha⟩ := Option.isSome_iff_exists.mp h
  exact ⟨a, ha, trivial⟩

/-- with the equation of the value that is given -/
theorem with_eq (h : Gives x P) : Gives x fun a => x = Option.some a ∧ P a := by
  obtain ⟨a, hx, ha⟩ := h
  exact ⟨a, hx, hx, ha⟩

theorem map {f : α → β} (h : Gives x P) (hf : ∀ a, P a → R (f a)) : Gives (x.map f) R := by
  obtain ⟨a, rfl, ha⟩ := h
  exact ⟨f a, rfl, hf a ha⟩

theorem ite {c : Prop} [Decidable c] {y : Option α} (hx : c → Gives x P) (hy : ¬ c → Gives y P) :
    Gives (if c then x else y) P := by
  by_cases h : c
  · rw [if_pos h]
    exact hx h
  · rw [if_neg h]
    exact hy h

end

section
variable {α β : Type} {x : Option α} {P : α → Prop} {R : β → Prop}

theorem bind {f : α → Option β} (h : Gives x P) (hf : ∀ a, P a → Gives (f a) R) :
    Gives (x >>= f) R := by
  obtain ⟨a, rfl, ha⟩ := h
  exact hf a ha

theorem mapM {R : α → β → Prop} {f : α → Option β} {l : List α} (h : ∀ a ∈ l, Gives (f a) (R a)) :
    Gives (l.mapM f) (List.Forall₂ R l) := by
  induction l with
  | nil => exact ⟨[], rfl, List.Forall₂.nil⟩
  | cons a l ih =>
    rw [List.mapM_cons]
    apply bind (h a List.mem_cons_self)
    intro b hb
    apply bind (ih fun a ha => h a (List.mem_cons_of_mem _ ha))
    intro bs hbs
    exact some (hbs.cons hb)

end

end Gives

def Ends {ε α : Type*} (E : ε → Prop) (P : α → Prop) : Except ε α → Prop
  | .error e => E e
  | .ok a => P a

namespace Ends

section
variable {ε α : Type*} {E E' : ε → Prop} {P Q : α → Prop} {x : Except ε α}

theorem of_error (h : Ends E P x) {e : ε} (hx : x = .error e) : E e := by
  rw [hx] at h
  exact h

theorem ite {c : Prop} [Decidable c] {y : Except ε α} (hx : c → Ends E P x)
    (hy : ¬ c → Ends E P y) : Ends E P (if c then x else y) := by
  by_cases h : c
  · rw [if_pos h]
    exact hx h
  · rw [if_neg h]
    exact hy h

end

section
variable {ε α β : Type} {E : ε → Prop} {P : α → Prop} {Q : β → Prop} {x : Except ε α}

theorem bind {f : α → Except ε β} (h : Ends E P x) (hf : ∀ a, P a → Ends E Q (f a)) :
    Ends E Q (x >>= f) := by
  cases x with
  | error e => exact h
  | ok a => exact hf a h

theorem map {f : α → β} (h : Ends E P x) (hf : ∀ a, P a → Q (f a)) : Ends E Q (x.map f) := by
  cases x with
  | error e => exact h
  | ok a => exact hf a h

theorem foldlM {I : β → Prop} {f : β → α → Except ε β} {l : List α} {b : β}
    (hturn : ∀ b a, a ∈ l → I b → Ends E I (f b a)) (h : I b) : Ends E I (l.foldlM f b) := by
  induction l generalizing b with
  | nil => exact h
  | cons a l ih =>
    rw [List.foldlM_cons]
    apply bind (hturn b a List.mem_cons_self h)
    intro b' hb'
    exact ih (fun b a ha => hturn b a (List.mem_cons_of_mem _ ha)) hb'

end

end Ends
