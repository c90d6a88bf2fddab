import Mathlib.Tactic

/-!
# Lists linked by the hash of the item before

Each item names the key of the one before it, and the first one an origin.

* `LinkedFrom`           the oldest item first;
* `tip`                  what an item put at the end would name;
* `linkedFrom_append`    a chain is a chain and one from its tip;
* `LinkedBack`           the latest item first, and `linkedBack_reverse` that both say the same.
-/

namespace HashChain

section
variable {α κ : Type*} (key : α → κ) (previous : α → Option κ)

def LinkedFrom (origin : Option κ) : List α → Prop
  | [] => True
  | a :: l => previous a = origin ∧ LinkedFrom (some (key a)) l

def tip (origin : Option κ) (l : List α) : Option κ := (l.getLast?.map key).or origin

/-- the latest item first; the last one names nothing -/
def LinkedBack : List α → Prop
  | [] => True
  | [a] => previous a = none
  | a :: b :: l => previous a = some (key b) ∧ LinkedBack (b :: l)

variable {key previous}

theorem tip_nil (origin : Option κ) : tip key origin [] = origin := rfl

theorem tip_cons (origin : Option κ) (a : α) (l : List α) :
    tip key origin (a :: l) = tip key (some (key a)) l := by
  cases l with
  | nil => rfl
  | cons b l => simp [tip, List.getLast?_cons]

/-- **A chain and one that goes on from its tip make a chain.** -/
theorem linkedFrom_append (origin : Option κ) (l l' : List α) :
    LinkedFrom key previous origin (l ++ l') ↔
      LinkedFrom key previous origin l ∧ LinkedFrom key previous (tip key origin l) l' := by
  induction l generalizing origin with
  | nil => simp [LinkedFrom, tip_nil]
  | cons a l ih =>
    show _ ∧ LinkedFrom key previous (some (key a)) (l ++ l') ↔ (_ ∧ _) ∧ _
    rw [ih, tip_cons, and_assoc]

theorem linkedFrom_concat (origin : Option κ) (l : List α) (a : α) :
    LinkedFrom key previous origin (l ++ [a]) ↔
      LinkedFrom key previous origin l ∧ previous a = tip key origin l := by
  rw [linkedFrom_append]
  show _ ∧ (_ ∧ True) ↔ _
  rw [and_true]

/-- **Read from either end, a chain is the same.** -/
theorem linkedBack_reverse (l : List α) :
    LinkedBack key previous l.reverse ↔ LinkedFrom key previous none l := by
  induction l using List.reverseRecOn with
  | nil => rfl
  | append_singleton l a ih =>
    rw [List.reverse_concat, linkedFrom_concat, ← ih]
    cases hl : l.reverse with
    | nil =>
      rw [List.reverse_eq_nil_iff.mp hl]
      show _ ↔ True ∧ _
      rw [true_and]
      rfl
    | cons b l' =>
      have hlast : l.getLast? = some b := by
        rw [← List.head?_reverse, hl]
        rfl
      have htip : tip key none l = some (key b) := by
        rw [tip, hlast]
        rfl
      rw [htip, and_comm]
      rfl

end

end HashChain
