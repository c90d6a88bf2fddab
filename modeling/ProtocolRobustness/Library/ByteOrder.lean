import Mathlib.Data.List.Lex
import Mathlib.Data.List.Sort
import Mathlib.Order.Compare
import Mathlib.Tactic
import ProtocolRobustness.Library.Keyed

/-!
# Byte strings in unsigned lexicographic order

`compareBytes` walks two byte strings and compares the first bytes that differ as unsigned
numbers; a string is before every proper extension of it.  The numbers of the bytes carry the
order of Mathlib (`List ℕ`, lexicographic), and every order fact is read off there:

* `compareBytes_lt_iff`   the walk decides the order of the lists of numbers;
* `compareBytes_eq_iff`   only equal strings compare equal;
* `leBytes`               the order as a decidable relation: total, transitive, antisymmetric;
* `sort_unique`           sorting along an injective byte key forgets the order of the input.
-/

namespace Bytes

abbrev ByteString := List UInt8

def compareBytes : ByteString → ByteString → Ordering
  | [], ys => compare 0 ys.length
  | x :: xs, [] => compare (x :: xs).length 0
  | x :: xs, y :: ys => if x = y then compareBytes xs ys else compare x.toNat y.toNat

/-- the bytes as numbers -/
def nums (xs : ByteString) : List ℕ := xs.map UInt8.toNat

theorem nums_cons (x : UInt8) (xs : ByteString) : nums (x :: xs) = x.toNat :: nums xs := rfl

theorem nums_injective : Function.Injective nums :=
  List.map_injective_iff.mpr fun _ _ h => UInt8.toNat_inj.mp h

theorem compareBytes_self (xs : ByteString) : compareBytes xs xs = .eq := by
  induction xs with
  | nil => rfl
  | cons x xs ih => exact (if_pos rfl).trans ih

theorem compareBytes_swap (xs ys : ByteString) :
    (compareBytes xs ys).swap = compareBytes ys xs := by
  induction xs generalizing ys with
  | nil =>
    cases ys with
    | nil => rfl
    | cons y ys => exact Nat.compare_swap _ _
  | cons x xs ih =>
    cases ys with
    | nil => exact Nat.compare_swap _ _
    | cons y ys =>
      show (if x = y then compareBytes xs ys else compare x.toNat y.toNat).swap
        = if y = x then compareBytes ys xs else compare y.toNat x.toNat
      by_cases e : x = y
      · rw [if_pos e, if_pos e.symm, ih]
      · rw [if_neg e, if_neg (Ne.symm e), Nat.compare_swap]

theorem compareBytes_lt_iff (xs ys : ByteString) :
    compareBytes xs ys = .lt ↔ nums xs < nums ys := by
  induction xs generalizing ys with
  | nil =>
    cases ys with
    | nil => exact iff_of_false (by decide) (lt_irrefl _)
    | cons y ys => exact iff_of_true (Nat.compare_eq_lt.mpr (Nat.succ_pos _)) (List.nil_lt_cons _ _)
  | cons x xs ih =>
    cases ys with
    | nil =>
      refine iff_of_false ?_ (not_lt_of_gt (List.nil_lt_cons _ _))
      rw [show compareBytes (x :: xs) [] = .gt from Nat.compare_eq_gt.mpr (Nat.succ_pos _)]
      decide
    | cons y ys =>
      show (if x = y then compareBytes xs ys else compare x.toNat y.toNat) = .lt ↔ _
      rw [nums_cons, nums_cons, List.cons_lt_cons_iff]
      by_cases e : x = y
      · subst e
        rw [if_pos rfl, ih]
        exact ⟨fun h => Or.inr ⟨rfl, h⟩, fun h => (h.resolve_left (lt_irrefl _)).2⟩
      · rw [if_neg e, Nat.compare_eq_lt]
        have hne : x.toNat ≠ y.toNat := fun h => e (UInt8.toNat_inj.mp h)
        exact ⟨Or.inl, fun h => h.resolve_right fun h' => hne h'.1⟩

theorem compareBytes_gt_iff (xs ys : ByteString) :
    compareBytes xs ys = .gt ↔ nums ys < nums xs := by
  rw [← compareBytes_lt_iff, ← compareBytes_swap xs ys]
  cases compareBytes xs ys <;> decide

theorem compareBytes_eq_iff (xs ys : ByteString) : compareBytes xs ys = .eq ↔ xs = ys := by
  constructor
  · intro h
    apply nums_injective
    refine le_antisymm (not_lt.mp fun hlt => ?_) (not_lt.mp fun hlt => ?_)
    · rw [(compareBytes_gt_iff xs ys).mpr hlt] at h
      cases h
    · rw [(compareBytes_lt_iff xs ys).mpr hlt] at h
      cases h
  · rintro rfl
    exact compareBytes_self xs

/-! ## the order as a relation -/

def leBytes (xs ys : ByteString) : Prop := compareBytes xs ys ≠ .gt

instance : DecidableRel leBytes := fun _ _ => inferInstanceAs (Decidable (_ ≠ _))

theorem leBytes_iff (xs ys : ByteString) : leBytes xs ys ↔ nums xs ≤ nums ys := by
  unfold leBytes
  rw [Ne, compareBytes_gt_iff, not_lt]

instance : Std.Total leBytes where
  total xs ys := by
    rw [leBytes_iff, leBytes_iff]
    exact le_total _ _

instance : IsTrans ByteString leBytes where
  trans xs ys zs h h' := by
    rw [leBytes_iff] at h h' ⊢
    exact h.trans h'

theorem leBytes_antisymm {xs ys : ByteString} (h : leBytes xs ys) (h' : leBytes ys xs) :
    xs = ys := by
  rw [leBytes_iff] at h h'
  exact nums_injective (le_antisymm h h')

/-! ## sorting along a byte key -/

section
variable {α : Type*} (key : α → ByteString)

/-- the order a byte key gives -/
def byKey (a b : α) : Prop := leBytes (key a) (key b)

instance : DecidableRel (byKey key) := fun _ _ => inferInstanceAs (Decidable (leBytes _ _))

instance : Std.Total (byKey key) where
  total a b := Std.Total.total (r := leBytes) (key a) (key b)

instance : IsTrans α (byKey key) where
  trans _ _ _ h h' := IsTrans.trans (r := leBytes) _ _ _ h h'

/-- **Two orders of one list are sorted to the same list**, when the key tells its members
apart. -/
theorem sort_unique {l l' : List α} (hp : l.Perm l')
    (hinj : ∀ a ∈ l, ∀ b ∈ l, key a = key b → a = b) :
    l.insertionSort (byKey key) = l'.insertionSort (byKey key) := by
  exact Sorted.sort_eq_of_perm (byKey key) hp fun a ha b hb hab hba =>
    hinj a ha b hb (leBytes_antisymm hab hba)

end

end Bytes
