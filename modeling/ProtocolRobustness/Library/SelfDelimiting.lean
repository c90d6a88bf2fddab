import Mathlib.Data.List.Basic
import Mathlib.Data.List.Forall2
import Mathlib.Tactic

/-!
# Self-delimiting codes

A code word delimits itself when a reader who knows the code finds its end, whatever follows:
`enc a ++ s = enc b ++ t` forces `a = b` and `s = t`.  This is the form of "injective and
prefix-free" that passes through concatenation, so it is what an induction over a nested format
carries.

* `Delimits dom enc a`   the word of `a` is not confused with the word of any `b` in `dom`;
* `Delimits.flatMap`     words in a row, read back when the number of words is known;
* `Delimits.flatMap_injective`   words that are not empty are read back without it;
* `Delimits.eq`, `Delimits.no_prefix`   what the property gives: injectivity, no proper prefix;
* `DelimitsUpTo`         the same when several values share a word, up to a relation of the values;
* `framed`               a length word followed by that many letters delimits itself.
-/

namespace Code

section
variable {α γ β : Type*}

def Delimits (dom : α → Prop) (enc : α → List β) (a : α) : Prop :=
  ∀ b, dom b → ∀ s t, enc a ++ s = enc b ++ t → a = b ∧ s = t

variable {dom : α → Prop} {enc : α → List β}

theorem Delimits.eq {a b : α} (h : Delimits dom enc a) (hb : dom b) (e : enc a = enc b) :
    a = b :=
  (h b hb [] [] (by rw [e])).1

theorem Delimits.no_prefix {a b : α} (h : Delimits dom enc a) (hb : dom b) {t : List β}
    (e : enc b = enc a ++ t) : t = [] :=
  (h b hb t [] (by rw [List.append_nil, e])).2

/-- words in a row: as many words, the same letters, hence the same words -/
theorem Delimits.flatMap (xs : List α) (hx : ∀ x ∈ xs, Delimits dom enc x) :
    ∀ (ys : List α), (∀ y ∈ ys, dom y) → xs.length = ys.length → ∀ s t,
      xs.flatMap enc ++ s = ys.flatMap enc ++ t → xs = ys ∧ s = t := by
  induction xs with
  | nil =>
    intro ys _ hl s t h
    have hy : ys = [] := List.length_eq_zero_iff.mp hl.symm
    subst hy
    exact ⟨rfl, h⟩
  | cons x xs ih =>
    intro ys hy hl s t h
    cases ys with
    | nil => cases hl
    | cons y ys =>
      rw [List.flatMap_cons, List.flatMap_cons, List.append_assoc, List.append_assoc] at h
      obtain ⟨e1, h1⟩ := hx x List.mem_cons_self y (hy y List.mem_cons_self) _ _ h
      obtain ⟨e2, h2⟩ := ih (fun z hz => hx z (List.mem_cons_of_mem _ hz)) ys
        (fun z hz => hy z (List.mem_cons_of_mem _ hz)) (Nat.succ.inj hl) s t h1
      exact ⟨by rw [e1, e2], h2⟩

/-- words in a row that are not empty need no count to be read back -/
theorem Delimits.flatMap_injective (h : ∀ x, Delimits (fun _ => True) enc x)
    (hne : ∀ x, enc x ≠ []) : Function.Injective fun xs : List α => xs.flatMap enc := by
  intro xs
  induction xs with
  | nil =>
    intro ys (he : [].flatMap enc = ys.flatMap enc)
    cases ys with
    | nil => rfl
    | cons y ys =>
      rw [List.flatMap_nil, List.flatMap_cons] at he
      exact absurd (List.append_eq_nil_iff.mp he.symm).1 (hne y)
  | cons x xs ih =>
    intro ys (he : (x :: xs).flatMap enc = ys.flatMap enc)
    cases ys with
    | nil =>
      rw [List.flatMap_nil, List.flatMap_cons] at he
      exact absurd (List.append_eq_nil_iff.mp he).1 (hne x)
    | cons y ys =>
      rw [List.flatMap_cons, List.flatMap_cons] at he
      obtain ⟨rfl, hs⟩ := h x y trivial _ _ he
      rw [ih hs]

/-- the word of `a` is confused only with the word of a `b` that `R` relates to `a` -/
def DelimitsUpTo (R : α → α → Prop) (enc : α → List β) (a : α) : Prop :=
  ∀ b s t, enc a ++ s = enc b ++ t → R a b ∧ s = t

theorem DelimitsUpTo.flatMap {R : α → α → Prop} (xs : List α)
    (hx : ∀ x ∈ xs, DelimitsUpTo R enc x) :
    ∀ (ys : List α), xs.length = ys.length → ∀ s t,
      xs.flatMap enc ++ s = ys.flatMap enc ++ t → List.Forall₂ R xs ys ∧ s = t := by
  induction xs with
  | nil =>
    intro ys hl s t h
    have hy : ys = [] := List.length_eq_zero_iff.mp hl.symm
    subst hy
    exact ⟨.nil, h⟩
  | cons x xs ih =>
    intro ys hl s t h
    cases ys with
    | nil => cases hl
    | cons y ys =>
      rw [List.flatMap_cons, List.flatMap_cons, List.append_assoc, List.append_assoc] at h
      obtain ⟨hr, h1⟩ := hx x List.mem_cons_self y _ _ h
      obtain ⟨hrs, h2⟩ := ih (fun z hz => hx z (List.mem_cons_of_mem _ hz)) ys (Nat.succ.inj hl)
        s t h1
      exact ⟨.cons hr hrs, h2⟩

/-- a word of `α` followed by a word of `γ` -/
theorem Delimits.pair {domc : γ → Prop} {encc : γ → List β} {a : α} {c : γ}
    (ha : Delimits dom enc a) (hc : Delimits domc encc c) :
    Delimits (fun p => dom p.1 ∧ domc p.2) (fun p : α × γ => enc p.1 ++ encc p.2) (a, c) := by
  rintro ⟨b, d⟩ ⟨hb, hd⟩ s t h
  simp only [List.append_assoc] at h
  obtain ⟨e1, h1⟩ := ha b hb _ _ h
  obtain ⟨e2, h2⟩ := hc d hd _ _ h1
  exact ⟨by rw [e1, e2], h2⟩

theorem DelimitsUpTo.pair {R : α → α → Prop} {S : γ → γ → Prop} {encc : γ → List β} {a : α} {c : γ}
    (ha : DelimitsUpTo R enc a) (hc : DelimitsUpTo S encc c) :
    DelimitsUpTo (fun p q => R p.1 q.1 ∧ S p.2 q.2) (fun p : α × γ => enc p.1 ++ encc p.2)
      (a, c) := by
  rintro ⟨b, d⟩ s t h
  simp only [List.append_assoc] at h
  obtain ⟨hr, h1⟩ := ha b _ _ h
  obtain ⟨hs, h2⟩ := hc d _ _ h1
  exact ⟨⟨hr, hs⟩, h2⟩

/-- a property that related values share holds of a whole list or of none -/
theorem forall_iff_of_forall₂ {P : α → Prop} {xs ys : List α}
    (h : List.Forall₂ (fun a b => P a ↔ P b) xs ys) : (∀ x ∈ xs, P x) ↔ ∀ y ∈ ys, P y := by
  induction h with
  | nil => exact Iff.rfl
  | cons he _ ih => rw [List.forall_mem_cons, List.forall_mem_cons, he, ih]

/-- a length word and then that many letters -/
theorem framed {len : ℕ → List β} (hlen : ∀ n, Delimits (fun _ => True) len n)
    (xs : List β) : Delimits (fun _ => True) (fun xs => len xs.length ++ xs) xs := by
  intro ys _ s t h
  simp only [List.append_assoc] at h
  obtain ⟨e, h1⟩ := hlen xs.length ys.length trivial _ _ h
  exact List.append_inj h1 e

end

end Code
