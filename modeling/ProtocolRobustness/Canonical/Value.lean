import Mathlib.Data.List.Basic
import Mathlib.Tactic

/-!
# The values of the portable canonical encoding

`canonical-hash-scheme.v1` knows null, booleans, unbounded integers, strings, keywords, vectors and
maps whose keys are strings or keywords.  `Value` is that algebra, so a value the encoder
rejects (a float, a set, a map with another key) cannot be written down here.

* `Keyword`   a namespace and a name as the reader produces them: the name holds no slash, so the
              spelling `ns/name` gives the two parts back (`Keyword.spelling_injective`);
* `Key`       the keys of a map;
* `Value`     the algebra; a map is the list of its entries in iteration order;
* `Value.get` the value of a map under a key, as `(get m k)` reads it;
* `Value.truthy`  what `if`, `and` and `some` ask of a value: neither `nil` nor `false`.

Strings are sequences of Unicode scalars.
-/

namespace PRF

/-! ## keywords -/

structure Keyword where
  ns : Option String
  name : String
  legal : name ≠ "" ∧ (name = "/" ∨ '/' ∉ name.toList)
deriving DecidableEq

/-- the condition on the name of a keyword, on its bytes: evaluated where a keyword is written -/
def legalName (name : String) : Bool :=
  let bytes := name.toUTF8.data.toList
  !bytes.isEmpty && (bytes == [47] || !bytes.contains 47)

theorem legal_of_legalName {name : String} (h : legalName name = true) :
    name ≠ "" ∧ (name = "/" ∨ '/' ∉ name.toList) := by
  have hbytes : name.toUTF8.data.toList = name.toList.flatMap String.utf8EncodeChar := by
    rw [String.toUTF8_eq_toByteArray, ← String.utf8Encode_toList]
    exact congrArg Array.toList List.data_toByteArray
  obtain ⟨hne, hslash⟩ := Bool.and_eq_true_iff.mp h
  refine ⟨?_, ?_⟩
  · rintro rfl
    cases hne
  · rcases Bool.or_eq_true_iff.mp hslash with hone | hfree
    · refine .inl (String.toByteArray_inj.mp (ByteArray.ext (Array.toList_inj.mp ?_)))
      exact eq_of_beq hone
    · refine .inr fun hmem => ?_
      -- a character below 128 is its own byte
      have h47 : 47 ∈ name.toUTF8.data.toList :=
        hbytes ▸ List.mem_flatMap.mpr ⟨'/', hmem, List.mem_singleton_self _⟩
      rw [List.contains_iff_mem.mpr h47] at hfree
      cases hfree

namespace Keyword

/-- `(keyword-string value)` -/
def spelling (k : Keyword) : String :=
  match k.ns with
  | some s => s ++ "/" ++ k.name
  | none => k.name

theorem split_last {α : Type*} {c : α} {s t a b : List α} (ha : c ∉ a) (hb : c ∉ b)
    (h : s ++ c :: a = t ++ c :: b) : s = t ∧ a = b := by
  induction s generalizing t with
  | nil =>
    cases t with
    | nil => exact ⟨rfl, List.tail_eq_of_cons_eq h⟩
    | cons x t =>
      have h' : a = t ++ c :: b := List.tail_eq_of_cons_eq h
      exact absurd (h' ▸ List.mem_append_right t List.mem_cons_self) ha
  | cons x s ih =>
    cases t with
    | nil =>
      have h' : s ++ c :: a = b := List.tail_eq_of_cons_eq h
      exact absurd (h' ▸ List.mem_append_right s List.mem_cons_self) hb
    | cons y t =>
      obtain ⟨hst, hab⟩ := ih (List.tail_eq_of_cons_eq h)
      exact ⟨by rw [List.head_eq_of_cons_eq h, hst], hab⟩

theorem chars_some (s n : String) :
    (s ++ "/" ++ n).toList = s.toList ++ '/' :: n.toList := by
  rw [String.toList_append, String.toList_append, List.append_assoc]
  rfl

theorem name_chars_ne_nil (k : Keyword) : k.name.toList ≠ [] := fun h =>
  k.legal.1 (String.toList_inj.mp h)

theorem spelling_some_ne_none (s n m : String) (hn : n.toList ≠ [])
    (hm : m = "/" ∨ '/' ∉ m.toList) : s.toList ++ '/' :: n.toList ≠ m.toList := by
  intro h
  rcases hm with rfl | hm
  · have hl := congrArg List.length h
    have h1 : 0 < n.toList.length := List.length_pos_iff.mpr hn
    simp only [List.length_append, List.length_cons] at hl
    have h2 : ("/" : String).toList.length = 1 := rfl
    omega
  · exact hm (h ▸ List.mem_append_right _ List.mem_cons_self)

theorem slash_name {s t n m : List Char} (hn : n ≠ []) (hs : '/' ∉ n)
    (h : s ++ '/' :: n = t ++ '/' :: m) (hm : m = ['/']) : False := by
  subst hm
  have hl := congrArg List.getLast? h
  rw [List.getLast?_append_of_ne_nil _ (List.cons_ne_nil _ _),
    List.getLast?_append_of_ne_nil _ (List.cons_ne_nil _ _), List.getLast?_cons_of_ne_nil hn] at hl
  exact hs (List.mem_of_getLast? hl)

/-- **The spelling determines the keyword.** -/
theorem spelling_injective : Function.Injective spelling := by
  rintro ⟨ns, n, hn⟩ ⟨ns', n', hn'⟩ h
  have hne : n.toList ≠ [] := name_chars_ne_nil ⟨ns, n, hn⟩
  have hne' : n'.toList ≠ [] := name_chars_ne_nil ⟨ns', n', hn'⟩
  cases ns with
  | none =>
    cases ns' with
    | none =>
      have h1 : n = n' := h
      subst h1
      rfl
    | some s' =>
      have h1 : n = s' ++ "/" ++ n' := h
      have h2 := congrArg String.toList h1
      rw [chars_some] at h2
      exact absurd h2.symm (spelling_some_ne_none s' n' n hne' hn.2)
  | some s =>
    cases ns' with
    | none =>
      have h1 : s ++ "/" ++ n = n' := h
      have h2 := congrArg String.toList h1
      rw [chars_some] at h2
      exact absurd h2 (spelling_some_ne_none s n n' hne hn'.2)
    | some s' =>
      have h1 : s ++ "/" ++ n = s' ++ "/" ++ n' := h
      have h2 := congrArg String.toList h1
      rw [chars_some, chars_some] at h2
      have hpair : s.toList = s'.toList ∧ n.toList = n'.toList := by
        rcases hn.2 with hs | hs <;> rcases hn'.2 with hs' | hs'
        · subst hs; subst hs'
          exact ⟨List.append_cancel_right h2, rfl⟩
        · exact (slash_name hne' hs' h2.symm (by rw [hs]; rfl)).elim
        · exact (slash_name hne hs h2 (by rw [hs']; rfl)).elim
        · exact split_last hs hs' h2
      have e1 : s = s' := String.toList_inj.mp hpair.1
      have e2 : n = n' := String.toList_inj.mp hpair.2
      subst e1; subst e2
      rfl

end Keyword

/-! ## values -/

/-- the keys a canonical map may have -/
inductive Key where
  | str (s : String)
  | kw (k : Keyword)
deriving DecidableEq

inductive Value where
  | null
  | bool (b : Bool)
  | int (n : Int)
  | str (s : String)
  | kw (k : Keyword)
  | vec (xs : List Value)
  | map (es : List (Key × Value))
deriving Inhabited

namespace Value

mutual

def decEq : (a b : Value) → Decidable (a = b)
  | .null, b => match b with
    | .null => isTrue rfl
    | .bool _ | .int _ | .str _ | .kw _ | .vec _ | .map _ => isFalse nofun
  | .bool x, b => match b with
    | .bool y => decidable_of_iff (x = y) (by simp)
    | .null | .int _ | .str _ | .kw _ | .vec _ | .map _ => isFalse nofun
  | .int x, b => match b with
    | .int y => decidable_of_iff (x = y) (by simp)
    | .null | .bool _ | .str _ | .kw _ | .vec _ | .map _ => isFalse nofun
  | .str x, b => match b with
    | .str y => decidable_of_iff (x = y) (by simp)
    | .null | .bool _ | .int _ | .kw _ | .vec _ | .map _ => isFalse nofun
  | .kw x, b => match b with
    | .kw y => decidable_of_iff (x = y) (by simp)
    | .null | .bool _ | .int _ | .str _ | .vec _ | .map _ => isFalse nofun
  | .vec x, b => match b with
    | .vec y => @decidable_of_iff _ (x = y) (by simp) (decEqItems x y)
    | .null | .bool _ | .int _ | .str _ | .kw _ | .map _ => isFalse nofun
  | .map x, b => match b with
    | .map y => @decidable_of_iff _ (x = y) (by simp) (decEqEntries x y)
    | .null | .bool _ | .int _ | .str _ | .kw _ | .vec _ => isFalse nofun

def decEqItems : (a b : List Value) → Decidable (a = b)
  | [], [] => isTrue rfl
  | [], _ :: _ => isFalse nofun
  | _ :: _, [] => isFalse nofun
  | x :: xs, y :: ys =>
    @decidable_of_iff _ (x = y ∧ xs = ys) (by simp)
      (@instDecidableAnd _ _ (decEq x y) (decEqItems xs ys))

def decEqEntries : (a b : List (Key × Value)) → Decidable (a = b)
  | [], [] => isTrue rfl
  | [], _ :: _ => isFalse nofun
  | _ :: _, [] => isFalse nofun
  | (k, x) :: xs, (l, y) :: ys =>
    @decidable_of_iff _ (k = l ∧ x = y ∧ xs = ys) (by simp [and_assoc])
      (@instDecidableAnd _ _ _ (@instDecidableAnd _ _ (decEq x y) (decEqEntries xs ys)))

end

instance : DecidableEq Value := decEq

/-- induction over a value: a vector is proved from its items, a map from its entries -/
theorem induct {P : Value → Prop} (null : P .null) (bool : ∀ b, P (.bool b))
    (int : ∀ n, P (.int n)) (str : ∀ s, P (.str s)) (kw : ∀ k, P (.kw k))
    (vec : ∀ xs, (∀ x ∈ xs, P x) → P (.vec xs))
    (map : ∀ es, (∀ e ∈ es, P e.2) → P (.map es)) (v : Value) : P v := by
  refine @Value.rec P (fun xs => ∀ x ∈ xs, P x) (fun es => ∀ e ∈ es, P e.2) (fun e => P e.2)
    null bool int str kw vec map ?_ ?_ ?_ ?_ ?_ v
  · intro x hx; cases hx
  · intro x xs hx hxs
    exact List.forall_mem_cons.mpr ⟨hx, hxs⟩
  · intro e he; cases he
  · intro e es he hes
    exact List.forall_mem_cons.mpr ⟨he, hes⟩
  · intro k x hx
    exact hx

/-- neither `nil` nor `false` -/
def truthy : Value → Bool
  | .null => false
  | .bool false => false
  | _ => true

/-- `(get m k)`: anything but a map has no entries -/
def get (v : Value) (k : Key) : Value :=
  match v with
  | .map es => ((es.find? fun e => e.1 = k).map Prod.snd).getD .null
  | _ => .null

/-- `(assoc m k x)` on a map -/
def assoc (v : Value) (k : Key) (x : Value) : Value :=
  match v with
  | .map es =>
    if es.any (fun e => e.1 = k) then .map (es.map fun e => if e.1 = k then (k, x) else e)
    else .map (es ++ [(k, x)])
  | v => v

end Value

end PRF
