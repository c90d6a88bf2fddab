import Mathlib.Data.Rat.Defs
import Mathlib.Tactic

/-!
# Clojure data

The data an EDN reader produces: atoms, vectors, sets and maps.  A map is its entries in the order of
their keys and a set its members in their order, each once, so equal data are equal values; a list is
the vector of its items.

* `Datum.get`, `Datum.has`   `(:k d)` and `(contains? d :k)`, for any datum;
* `Datum.canonicalSafe`      vectors for sets, at every depth but inside a set.

Doubles, characters and other host objects are left out.
-/

namespace PRF

inductive Atom where
  | null
  | bool (b : Bool)
  | int (n : ℤ)
  | ratio (q : ℚ)
  | str (s : String)
  | kw (s : String)
deriving DecidableEq, Inhabited

/-- a number, for a comparison -/
def Atom.number? : Atom → Option ℚ
  | .int n => some n
  | .ratio q => some q
  | _ => none

inductive Datum where
  | atom (a : Atom)
  | vec (xs : List Datum)
  | set (xs : List Datum)
  | map (es : List (Datum × Datum))

namespace Datum

mutual

def decEq : (a b : Datum) → Decidable (a = b)
  | .atom x, b => match b with
    | .atom y => decidable_of_iff (x = y) (by simp)
    | .vec _ | .set _ | .map _ => isFalse nofun
  | .vec x, b => match b with
    | .vec y => @decidable_of_iff _ (x = y) (by simp) (decEqItems x y)
    | .atom _ | .set _ | .map _ => isFalse nofun
  | .set x, b => match b with
    | .set y => @decidable_of_iff _ (x = y) (by simp) (decEqItems x y)
    | .atom _ | .vec _ | .map _ => isFalse nofun
  | .map x, b => match b with
    | .map y => @decidable_of_iff _ (x = y) (by simp) (decEqEntries x y)
    | .atom _ | .vec _ | .set _ => isFalse nofun

def decEqItems : (a b : List Datum) → Decidable (a = b)
  | [], [] => isTrue rfl
  | [], _ :: _ => isFalse nofun
  | _ :: _, [] => isFalse nofun
  | x :: xs, y :: ys =>
    @decidable_of_iff _ (x = y ∧ xs = ys) (by simp)
      (@instDecidableAnd _ _ (decEq x y) (decEqItems xs ys))

def decEqEntries : (a b : List (Datum × Datum)) → Decidable (a = b)
  | [], [] => isTrue rfl
  | [], _ :: _ => isFalse nofun
  | _ :: _, [] => isFalse nofun
  | (k, x) :: xs, (l, y) :: ys =>
    @decidable_of_iff _ ((k = l ∧ x = y) ∧ xs = ys) (by simp)
      (@instDecidableAnd _ _ (@instDecidableAnd _ _ (decEq k l) (decEq x y)) (decEqEntries xs ys))

end

instance : DecidableEq Datum := decEq

/-! ## reading -/

def null : Datum := .atom .null
def bool (b : Bool) : Datum := .atom (.bool b)
def int (n : ℤ) : Datum := .atom (.int n)
def str (s : String) : Datum := .atom (.str s)
def kw (s : String) : Datum := .atom (.kw s)

/-- neither `nil` nor `false` -/
def truthy (d : Datum) : Bool := d ≠ null ∧ d ≠ bool false

/-- `(or a b)` -/
def orElse (a b : Datum) : Datum := if a.truthy then a else b

/-- `(:k d)`; a set answers with its member -/
def get (d : Datum) (k : String) : Datum :=
  match d with
  | .map es => ((es.find? fun e => e.1 = kw k).map Prod.snd).getD null
  | .set xs => if kw k ∈ xs then kw k else null
  | _ => null

/-- `(contains? d :k)` -/
def has (d : Datum) (k : String) : Bool :=
  match d with
  | .map es => es.any fun e => e.1 = kw k
  | .set xs => kw k ∈ xs
  | _ => false

def isMap : Datum → Bool
  | .map _ => true
  | _ => false

def isKeyword : Datum → Bool
  | .atom (.kw _) => true
  | _ => false

def isString : Datum → Bool
  | .atom (.str _) => true
  | _ => false

def int? : Datum → Option ℤ
  | .atom (.int n) => some n
  | _ => none

def number? : Datum → Option ℚ
  | .atom a => a.number?
  | _ => none

def items? : Datum → Option (List Datum)
  | .vec xs => some xs
  | _ => none

@[simp] theorem null_ne_str (s : String) : null ≠ str s := nofun
@[simp] theorem str_inj {s t : String} : str s = str t ↔ s = t := by simp [str]
@[simp] theorem bool_inj {b c : Bool} : bool b = bool c ↔ b = c := by simp [bool]

/-! ## canonical data -/

section
variable (before : Datum → Datum → Bool)

mutual

/-- sets become vectors, sorted by `before` -/
def canonicalSafe : Datum → Datum
  | .atom a => .atom a
  | .set xs => .vec (xs.mergeSort before)
  | .vec xs => .vec (safeItems xs)
  | .map es => .map (safeEntries es)

def safeItems : List Datum → List Datum
  | [] => []
  | x :: xs => canonicalSafe x :: safeItems xs

def safeEntries : List (Datum × Datum) → List (Datum × Datum)
  | [] => []
  | (k, x) :: es => (k, canonicalSafe x) :: safeEntries es

end

end

end Datum

end PRF
