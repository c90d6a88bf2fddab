import ProtocolRobustness.Conformance.Bytes

/-!
# EDN texts of canonical values

* `LegalKeyword`, `Portable`   the values of the portable canonical domain: keywords as the EDN
                    specification allows them, integers of 64 bits, maps with distinct keys;
* `write`           what `pr-str` gives, with `*print-namespace-maps*` on or off; integers are written
                    as longs, without the mark `N` of big integers;
* `Form`, `IsEdn`   the texts of one value by the EDN specification, comments and discarded values
                    between the values included.
-/

namespace PRF.Edn

/-! ## the portable canonical domain -/

section
variable (host : Alphabet)

/-- the letters of a symbol -/
def symbolic (c : Char) : Bool :=
  host.alphanumeric c || ['.', '*', '+', '!', '-', '_', '?', '$', '%', '&', '=', '<', '>', ':',
    '#'].contains c

/-- a sign or a dot, and a digit after it -/
def signedDigit : List Char → Bool
  | c :: d :: _ => (c == '-' || c == '+' || c == '.') && d.isDigit
  | _ => false

/-- a symbol without a slash: it starts with no digit, colon or hash, and no digit follows a sign
or a dot at its start -/
structure LegalSymbol (s : String) : Prop where
  nonempty : s.toList ≠ []
  all_symbolic : s.toList.all (symbolic host)
  start : s.toList.head?.all fun c => !c.isDigit && c != ':' && c != '#'
  unsigned : signedDigit s.toList = false

structure LegalKeyword (k : Keyword) : Prop where
  ns : ∀ s ∈ k.ns, LegalSymbol host s
  name : LegalSymbol host k.name

def LegalKey : Key → Prop
  | .str _ => True
  | .kw k => LegalKeyword host k

inductive Portable : PRF.Value → Prop
  | null : Portable .null
  | bool (b : Bool) : Portable (.bool b)
  | int {n : ℤ} (h : fits n) : Portable (.int n)
  | str (s : String) : Portable (.str s)
  | kw {k : Keyword} (h : LegalKeyword host k) : Portable (.kw k)
  | vec {xs : List PRF.Value} (h : ∀ x ∈ xs, Portable x) : Portable (.vec xs)
  | map {es : List (Key × PRF.Value)} (distinct : (es.map Prod.fst).Nodup)
      (hk : ∀ e ∈ es, LegalKey host e.1) (h : ∀ e ∈ es, Portable e.2) : Portable (.map es)

end

section
variable {host : Alphabet}

theorem LegalSymbol.letters {s : String} (h : LegalSymbol host s) :
    ∀ c ∈ s.toList, symbolic host c :=
  List.all_eq_true.mp h.all_symbolic

theorem Portable.within64 {v : PRF.Value} (h : Portable host v) : Within64 v := by
  induction h with
  | null => exact .null
  | bool b => exact .bool b
  | int h => exact .int h
  | str s => exact .str s
  | kw h => exact .kw _
  | vec h ih => exact .vec ih
  | map _ _ h ih => exact .map ih

end

/-! ## the writer -/

/-- `char-escape-string` -/
def escape (c : Char) : List Char :=
  if c = '\n' then ['\\', 'n']
  else if c = '\t' then ['\\', 't']
  else if c = '\r' then ['\\', 'r']
  else if c = '"' then ['\\', '"']
  else if c = '\\' then ['\\', '\\']
  else if c = '\x0c' then ['\\', 'f']
  else if c = '\x08' then ['\\', 'b']
  else [c]

def writeString (s : String) : List Char := '"' :: (s.toList.flatMap escape ++ ['"'])

def writeInt (n : ℤ) : List Char :=
  if n < 0 then '-' :: Nat.toDigits 10 n.natAbs else Nat.toDigits 10 n.natAbs

def writeKey (lifted : Bool) : Key → List Char
  | .str s => writeString s
  | .kw k => ':' :: (if lifted then k.name.toList else k.spelling.toList)

/-- `lift-ns`: the namespace all keys have -/
def liftNs : List Key → Option String
  | .kw k :: ks =>
    k.ns.filter fun ns => ks.all fun
      | .kw k => k.ns = some ns
      | .str _ => false
  | _ => none

section
variable (nsMaps : Bool)

mutual

/-- `(pr-str v)`, with `*print-namespace-maps*` bound to `nsMaps` -/
def write : PRF.Value → List Char
  | .null => ['n', 'i', 'l']
  | .bool true => ['t', 'r', 'u', 'e']
  | .bool false => ['f', 'a', 'l', 's', 'e']
  | .int n => writeInt n
  | .str s => writeString s
  | .kw k => ':' :: k.spelling.toList
  | .vec xs => '[' :: ([' '].intercalate (writeItems xs) ++ [']'])
  | .map es =>
    match if nsMaps then liftNs (es.map Prod.fst) else none with
    | some ns =>
      '#' :: ':' :: (ns.toList ++ '{' :: ([',', ' '].intercalate (writeEntries true es) ++ ['}']))
    | none => '{' :: ([',', ' '].intercalate (writeEntries false es) ++ ['}'])

def writeItems : List PRF.Value → List (List Char)
  | [] => []
  | x :: xs => write x :: writeItems xs

def writeEntries (lifted : Bool) : List (Key × PRF.Value) → List (List Char)
  | [] => []
  | (k, x) :: es => (writeKey lifted k ++ ' ' :: write x) :: writeEntries lifted es

end

theorem writeItems_eq (xs : List PRF.Value) : writeItems nsMaps xs = xs.map (write nsMaps) := by
  induction xs with
  | nil => simp [writeItems]
  | cons x xs ih => rw [writeItems, ih, List.map_cons]

theorem writeEntries_eq (lifted : Bool) (es : List (Key × PRF.Value)) :
    writeEntries nsMaps lifted es
      = es.map fun e => writeKey lifted e.1 ++ ' ' :: write nsMaps e.2 := by
  induction es with
  | nil => simp [writeEntries]
  | cons e es ih => rw [writeEntries, ih, List.map_cons]

end

theorem write_map (nsMaps : Bool) (es : List (Key × PRF.Value)) :
    (∃ ns, liftNs (es.map Prod.fst) = some ns ∧ write nsMaps (.map es) = '#' :: ':' :: (ns.toList
      ++ '{' :: ([',', ' '].intercalate (es.map fun e => writeKey true e.1 ++ ' '
        :: write nsMaps e.2) ++ ['}']))) ∨
    write nsMaps (.map es) = '{' :: ([',', ' '].intercalate (es.map fun e => writeKey false e.1
      ++ ' ' :: write nsMaps e.2) ++ ['}']) := by
  rw [write, writeEntries_eq, writeEntries_eq]
  split
  next ns h =>
    refine Or.inl ⟨ns, ?_, rfl⟩
    cases nsMaps with
    | true => exact h
    | false => cases h
  next => exact Or.inr rfl

theorem liftNs_key {ks : List Key} {ns : String} (h : liftNs ks = some ns) :
    ∀ k ∈ ks, ∃ k', k = .kw k' ∧ k'.ns = some ns := by
  match ks, h with
  | .kw k :: ks, h =>
    obtain ⟨hk, hall⟩ := Option.filter_eq_some_iff.mp h
    intro l hl
    rcases List.mem_cons.mp hl with rfl | hl
    · exact ⟨k, rfl, hk⟩
    · have hl' := List.all_eq_true.mp hall l hl
      cases l with
      | str s => cases hl'
      | kw k' => exact ⟨k', rfl, of_decide_eq_true hl'⟩

/-! ## the texts of one value -/

/-- a letter after a backslash, and what it stands for -/
def escapes : List (Char × Char) :=
  [('n', '\n'), ('t', '\t'), ('r', '\r'), ('"', '"'), ('\\', '\\'), ('f', '\x0c'), ('b', '\x08')]

/-- the letters of a string between its quotes -/
inductive Escaped : List Char → List Char → Prop
  | nil : Escaped [] []
  | letter {c : Char} {s u : List Char} (hq : c ≠ '"') (hb : c ≠ '\\') (h : Escaped s u) :
      Escaped (c :: s) (c :: u)
  | escape {e c : Char} {s u : List Char} (he : (e, c) ∈ escapes) (h : Escaped s u) :
      Escaped (c :: s) ('\\' :: e :: u)

/-- a number without a leading zero, with a sign or none and the mark of a big integer or none -/
inductive Numeral : ℤ → List Char → Prop
  | plain (n : ℕ) {mark : List Char} (hm : mark = [] ∨ mark = ['N']) :
      Numeral n (Nat.toDigits 10 n ++ mark)
  | plus (n : ℕ) {mark : List Char} (hm : mark = [] ∨ mark = ['N']) :
      Numeral n ('+' :: (Nat.toDigits 10 n ++ mark))
  | minus (n : ℕ) {mark : List Char} (hm : mark = [] ∨ mark = ['N']) :
      Numeral (-n) ('-' :: (Nat.toDigits 10 n ++ mark))

/-- the values whose text ends only where another letter ends it -/
def token : PRF.Value → Bool
  | .null | .bool _ | .int _ | .kw _ => true
  | .str _ | .vec _ | .map _ => false

def delimiter (c : Char) : Bool := blank c || ['"', '{', '}', '[', ']', ';'].contains c

/-- the text of `v` ends before `rest` -/
def Ends (v : PRF.Value) (rest : List Char) : Prop := token v → ∀ c ∈ rest.head?, delimiter c

def keyValue : Key → PRF.Value
  | .str s => .str s
  | .kw k => .kw k

/-- the keys and values of a map, as they stand in its text -/
def interleaved (es : List (Key × PRF.Value)) : List PRF.Value :=
  es.flatMap fun e => [keyValue e.1, e.2]

/-- what a key of a namespaced map stands for; the namespace `_` stands for none -/
def inNamespace (ns : String) : Key → Key
  | .str s => .str s
  | .kw k =>
    match k.ns with
    | none => .kw { k with ns := some ns }
    | some own => if own = "_" then .kw { k with ns := none } else .kw k

section
variable (host : Alphabet)

mutual

/-- blanks, comments and discarded values -/
inductive Gap : List Char → Prop
  | nil : Gap []
  | blank {c : Char} {cs : List Char} (hc : blank c) (h : Gap cs) : Gap (c :: cs)
  | comment {body cs : List Char} (hb : '\n' ∉ body) (h : Gap cs) :
      Gap (';' :: (body ++ '\n' :: cs))
  | discard {gap u cs : List Char} {v : PRF.Value} (hg : Gap gap) (hu : Form v u) (he : Ends v cs)
      (h : Gap cs) : Gap ('#' :: '_' :: (gap ++ (u ++ cs)))

/-- a text of a value, with nothing around it -/
inductive Form : PRF.Value → List Char → Prop
  | null : Form .null ['n', 'i', 'l']
  | tt : Form (.bool true) ['t', 'r', 'u', 'e']
  | ff : Form (.bool false) ['f', 'a', 'l', 's', 'e']
  | int {n : ℤ} {u : List Char} (h : Numeral n u) (hn : fits n) : Form (.int n) u
  | str {s : String} {u : List Char} (h : Escaped s.toList u) :
      Form (.str s) ('"' :: (u ++ ['"']))
  | kw {k : Keyword} (h : LegalKeyword host k) : Form (.kw k) (':' :: k.spelling.toList)
  | vec {xs : List PRF.Value} {u : List Char} (h : Row xs u) : Form (.vec xs) ('[' :: (u ++ [']']))
  | map {es : List (Key × PRF.Value)} {u : List Char} (h : Row (interleaved es) u)
      (distinct : (es.map Prod.fst).Nodup) : Form (.map es) ('{' :: (u ++ ['}']))
  | nsMap {ns : String} {es : List (Key × PRF.Value)} {gap u : List Char}
      (hn : LegalSymbol host ns) (hg : ∀ c ∈ gap, Edn.blank c) (h : Row (interleaved es) u)
      (distinct : (es.map fun e => inNamespace ns e.1).Nodup) :
      Form (.map (es.map fun e => (inNamespace ns e.1, e.2)))
        ('#' :: ':' :: (ns.toList ++ (gap ++ '{' :: (u ++ ['}']))))

/-- values in a row, with the gaps before, between and after them -/
inductive Row : List PRF.Value → List Char → Prop
  | nil {gap : List Char} (hg : Gap gap) : Row [] gap
  | cons {gap u rest : List Char} {x : PRF.Value} {xs : List PRF.Value} (hg : Gap gap)
      (hu : Form x u) (he : Ends x rest) (h : Row xs rest) : Row (x :: xs) (gap ++ (u ++ rest))

end

/-- exactly one complete value of the domain; the last comment may end with the text -/
def IsEdn (t : List Char) : Prop :=
  ∃ v gap u gap' last, Gap host gap ∧ Form host v u ∧ Ends v (gap' ++ last) ∧ Gap host gap'
    ∧ (last = [] ∨ ∃ body, last = ';' :: body ∧ '\n' ∉ body)
    ∧ t = gap ++ (u ++ (gap' ++ last))

end

/-! ## what is written is the text of one value -/

/-- a rule for words with a separator between them: `Q` says what stands in a text, `T` how a
text may go on after a word -/
theorem intercalate_rule {α : Type*} {Q : List α → List Char → Prop} {T : List Char → Prop}
    {sep : List Char} (close : List Char) (hclose : Q [] close ∧ T close)
    (hsep : ∀ xs u, Q xs u → Q xs (sep ++ u) ∧ T (sep ++ u)) {ws : List (List Char)}
    {vss : List (List α)}
    (h : List.Forall₂ (fun w vs => ∀ xs u, T u → Q xs u → Q (vs ++ xs) (w ++ u)) ws vss) :
    Q vss.flatten (sep.intercalate ws ++ close) := by
  induction h with
  | nil => exact hclose.1
  | @cons w vs ws vss hw hs ih =>
    cases hs with
    | nil =>
      rw [List.intercalate_singleton]
      exact hw [] close hclose.2 hclose.1
    | cons hw' hs =>
      obtain ⟨hq, ht⟩ := hsep _ _ ih
      rw [List.intercalate_cons_cons, List.append_assoc, List.append_assoc]
      exact hw _ _ ht hq

theorem escape_cases (c : Char) : (∃ e, (e, c) ∈ escapes ∧ escape c = ['\\', e])
    ∨ (∀ e, (e, c) ∉ escapes) ∧ escape c = [c] := by
  unfold escape
  split_ifs with h1 h2 h3 h4 h5 h6 h7
  · exact Or.inl ⟨'n', by rw [h1]; decide, rfl⟩
  · exact Or.inl ⟨'t', by rw [h2]; decide, rfl⟩
  · exact Or.inl ⟨'r', by rw [h3]; decide, rfl⟩
  · exact Or.inl ⟨'"', by rw [h4]; decide, rfl⟩
  · exact Or.inl ⟨'\\', by rw [h5]; decide, rfl⟩
  · exact Or.inl ⟨'f', by rw [h6]; decide, rfl⟩
  · exact Or.inl ⟨'b', by rw [h7]; decide, rfl⟩
  · refine Or.inr ⟨fun e he => ?_, rfl⟩
    simp only [escapes, List.mem_cons, Prod.mk.injEq, List.not_mem_nil, or_false] at he
    tauto

section
variable {host : Alphabet}

theorem blanks_cons {c : Char} {cs : List Char} (h : (c :: cs).all Edn.blank) :
    Edn.blank c ∧ cs.all Edn.blank := by
  rw [List.all_cons, Bool.and_eq_true] at h
  exact h

/-- a key as it is written when its namespace stands before the map -/
def strip : Key → Key
  | .str s => .str s
  | .kw k => .kw { k with ns := none }

def written (lifted : Bool) (k : Key) : Key := if lifted then strip k else k

end

end PRF.Edn
