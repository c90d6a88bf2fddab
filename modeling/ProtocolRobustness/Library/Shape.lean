import ProtocolRobustness.Library.Datum
import ProtocolRobustness.Library.Gives

/-!
# Data of any shape

What the functions on collections answer for any datum; `none` is an exception.

* `Datum.seq?`, `Datum.keys?`, `Datum.vals?`   the items of a collection;
* `Datum.lookup`, `Datum.contains?`, `Datum.assoc?`   under a key;
* `Datum.encodable`   what a canonical encoder takes: no ratios, no sets, and keys that are strings or
                      keywords.

A letter of a string is a string.
-/

namespace PRF.Datum

def letters (s : String) : List Datum := s.toList.map fun c => str (String.singleton c)

/-- `(seq d)` -/
def seq? : Datum → Option (List Datum)
  | .atom .null => some []
  | .atom (.str s) => some (letters s)
  | .vec xs => some xs
  | .set xs => some xs
  | .map es => some (es.map fun e => .vec [e.1, e.2])
  | .atom _ => none

/-- `(keys d)`: what is no map is empty -/
def keys? : Datum → Option (List Datum)
  | .map es => some (es.map Prod.fst)
  | d => if d.seq? = some [] then some [] else none

/-- `(vals d)` -/
def vals? : Datum → Option (List Datum)
  | .map es => some (es.map Prod.snd)
  | d => if d.seq? = some [] then some [] else none

/-- `[k v]` of an item -/
def pair? : Datum → Option (Datum × Datum)
  | .atom .null => some (null, null)
  | .atom (.str s) => some ((letters s)[0]?.getD null, (letters s)[1]?.getD null)
  | .vec xs => some (xs[0]?.getD null, xs[1]?.getD null)
  | _ => none

/-- the items, each taken for an entry -/
def entries? : Datum → Option (List (Datum × Datum))
  | .map es => some es
  | d => do (← d.seq?).mapM pair?

def nth (xs : List Datum) (n : ℤ) : Datum := if 0 ≤ n then xs[n.toNat]?.getD null else null

/-- `(get d k)` -/
def lookup (d k : Datum) : Datum :=
  match d, k with
  | .map es, k => ((es.find? fun e => e.1 = k).map Prod.snd).getD null
  | .set xs, k => if k ∈ xs then k else null
  | .vec xs, .atom (.int n) => nth xs n
  | .atom (.str s), .atom (.int n) => nth (letters s) n
  | _, _ => null

/-- `(contains? d k)` -/
def contains? (d k : Datum) : Option Bool :=
  match d, k with
  | .map es, k => some (es.any fun e => e.1 = k)
  | .set xs, k => some (k ∈ xs)
  | .vec xs, .atom (.int n) => some (0 ≤ n ∧ n < xs.length)
  | .vec _, _ => some false
  | .atom (.str s), .atom (.int n) => some (0 ≤ n ∧ n < s.length)
  | .atom .null, _ => some false
  | _, _ => none

/-- `(assoc d :k v)`; the place of the entry is of no account -/
def assoc? (d : Datum) (k : String) (v : Datum) : Option Datum :=
  match d with
  | .map es => some (.map ((kw k, v) :: es.filter fun e => e.1 ≠ kw k))
  | .atom .null => some (.map [(kw k, v)])
  | _ => none

/-! ## reading -/

@[simp] theorem null_get (k : String) : null.get k = null := rfl

@[simp] theorem null_seq? : null.seq? = some [] := rfl

@[simp] theorem null_truthy : null.truthy = false := rfl

@[simp] theorem kw_truthy (s : String) : (kw s).truthy = true := rfl

theorem kw_inj {s t : String} : kw s = kw t ↔ s = t := by simp [kw]

theorem get_map_cons (k k' : String) (v : Datum) (es : List (Datum × Datum)) :
    (Datum.map ((kw k, v) :: es)).get k' = if k = k' then v else (Datum.map es).get k' := by
  unfold get
  by_cases h : k = k' <;> simp [h, kw_inj]

theorem get_map_filter {k k' : String} (h : k ≠ k') (es : List (Datum × Datum)) :
    (Datum.map (es.filter fun e => e.1 ≠ kw k)).get k' = (Datum.map es).get k' := by
  unfold get
  simp only
  rw [List.find?_filter]
  congr 3
  funext e
  by_cases he : e.1 = kw k'
  · have hne : kw k' ≠ kw k := fun hk => h (kw_inj.mp hk).symm
    simp [he, hne]
  · simp [he]

/-- another key is read as before -/
theorem get_assoc {d d' v : Datum} {k k' : String} (hd : d.assoc? k v = some d') (h : k ≠ k') :
    d'.get k' = d.get k' := by
  match d, hd with
  | .map es, hd =>
    cases hd
    rw [get_map_cons, if_neg h, get_map_filter h]
  | .atom .null, hd =>
    cases hd
    rw [get_map_cons, if_neg h]
    rfl

/-- a map has what it can be asked for -/
theorem contains_map (es : List (Datum × Datum)) (k : Datum) :
    (Datum.map es).contains? k = some (es.any fun e => e.1 = k) := rfl

/-! ## canonical data -/

/-- a string or a keyword -/
def isKey : Datum → Bool
  | .atom (.str _) => true
  | .atom (.kw _) => true
  | _ => false

mutual

def encodable : Datum → Bool
  | .atom (.ratio _) => false
  | .atom _ => true
  | .set _ => false
  | .vec xs => encodableItems xs
  | .map es => encodableEntries es

def encodableItems : List Datum → Bool
  | [] => true
  | x :: xs => encodable x && encodableItems xs

def encodableEntries : List (Datum × Datum) → Bool
  | [] => true
  | (k, x) :: es => isKey k && encodable x && encodableEntries es

end

theorem encodableItems_iff {xs : List Datum} : encodableItems xs ↔ ∀ x ∈ xs, x.encodable := by
  induction xs with
  | nil => simp [encodableItems]
  | cons x xs ih => simp [encodableItems, ih]

theorem encodableEntries_iff {es : List (Datum × Datum)} :
    encodableEntries es ↔ ∀ e ∈ es, e.1.isKey ∧ e.2.encodable := by
  induction es with
  | nil => simp [encodableEntries]
  | cons e es ih => simp [encodableEntries, ih, and_assoc]

@[simp] theorem encodable_vec {xs : List Datum} :
    (Datum.vec xs).encodable ↔ ∀ x ∈ xs, x.encodable := by
  rw [encodable, encodableItems_iff]

@[simp] theorem encodable_map {es : List (Datum × Datum)} :
    (Datum.map es).encodable ↔ ∀ e ∈ es, e.1.isKey ∧ e.2.encodable := by
  rw [encodable, encodableEntries_iff]

theorem encodable_of_isKey {d : Datum} (h : d.isKey) : d.encodable := by
  match d, h with
  | .atom (.str s), _ => rfl
  | .atom (.kw s), _ => rfl

/-- a part of canonical data is canonical -/
theorem encodable_get {d : Datum} (h : d.encodable) (k : String) : (d.get k).encodable := by
  match d, h with
  | .map es, h =>
    show (((es.find? fun e => e.1 = kw k).map Prod.snd).getD null).encodable
    cases he : es.find? fun e => e.1 = kw k with
    | none => rfl
    | some e => exact (encodable_map.mp h e (List.mem_of_find?_eq_some he)).2
  | .atom a, _ => rfl
  | .vec xs, _ => rfl

theorem encodable_orElse {a b : Datum} (ha : a.encodable) (hb : b.encodable) :
    (a.orElse b).encodable := by
  unfold orElse
  split
  · exact ha
  · exact hb

theorem encodable_letters (s : String) : ∀ d ∈ letters s, d.encodable := by
  intro d hd
  obtain ⟨c, -, rfl⟩ := List.mem_map.mp hd
  rfl

theorem encodable_seq {d : Datum} (h : d.encodable) {xs : List Datum} (hx : d.seq? = some xs) :
    ∀ x ∈ xs, x.encodable := by
  match d, h, hx with
  | .atom .null, _, hx =>
    cases hx
    exact fun _ hx => by cases hx
  | .atom (.str s), _, hx =>
    cases hx
    exact encodable_letters s
  | .vec xs, h, hx =>
    cases hx
    exact encodable_vec.mp h
  | .map es, h, hx =>
    cases hx
    intro x hx
    obtain ⟨e, he, rfl⟩ := List.mem_map.mp hx
    obtain ⟨hk, hv⟩ := encodable_map.mp h e he
    simp [encodable_of_isKey hk, hv]

end PRF.Datum
