import ProtocolRobustness.Conformance.Decides
import ProtocolRobustness.Conformance.Text

/-!
# Values the reader knows how to spell

The reader knows five escapes, and of the letters of a keyword only letters, digits and `- _ ? . /`.
The writer also escapes the form feed and the backspace, and writes every keyword as it is.

* `Tame`          no string of the value holds one of the two controls, and no keyword one of the
                  letters `* + ! $ % & = < > : #`;
* `tame_iff`      the same of the value as the verifier holds it;
* `reads_write`   the text of a tame value is read as the value, by induction on the value.
-/

namespace PRF.Edn

/-! ## letters -/

/-- legal letters of a symbol that the reader does not take for letters of a keyword -/
def outside : List Char := ['*', '+', '!', '$', '%', '&', '=', '<', '>', ':', '#']

def TameString (s : String) : Prop := '\x0c' ∉ s.toList ∧ '\x08' ∉ s.toList

def TameKeyword (k : Keyword) : Prop := ∀ c ∈ k.spelling.toList, c ∉ outside

def TameKey : Key → Prop
  | .str s => TameString s
  | .kw k => TameKeyword k

/-- the values whose strings and keywords the reader knows how to spell -/
inductive Tame : PRF.Value → Prop
  | null : Tame .null
  | bool (b : Bool) : Tame (.bool b)
  | int (n : ℤ) : Tame (.int n)
  | str {s : String} (h : TameString s) : Tame (.str s)
  | kw {k : Keyword} (h : TameKeyword k) : Tame (.kw k)
  | vec {xs : List PRF.Value} (h : ∀ x ∈ xs, Tame x) : Tame (.vec xs)
  | map {es : List (Key × PRF.Value)} (hk : ∀ e ∈ es, TameKey e.1) (h : ∀ e ∈ es, Tame e.2) :
      Tame (.map es)

section
variable {host : Alphabet}

theorem keywordChar_ascii {c : Char} (h : c.toNat < 128) :
    keywordChar host c = keywordChar .plain c := by
  rw [keywordChar, host.ascii c h]
  rfl

theorem keywordChar_iff {c : Char} : keywordChar host c ↔ symbolChar host c ∨ c = '/' := by
  rw [keywordChar, symbolChar, Bool.or_eq_true, beq_iff_eq]

theorem keywordChar_digit {c : Char} (h : c.isDigit) : keywordChar host c := by
  have ha : c.isAlphanum := by rw [Char.isAlphanum, h, Bool.or_true]
  have hr := alphanum_range ha
  rw [keywordChar, host.ascii c (by omega), ha]
  rfl

theorem symbolic_iff {c : Char} : symbolic host c ↔ symbolChar host c ∨ c ∈ outside := by
  simp only [symbolic, symbolChar, outside, Bool.or_eq_true, beq_iff_eq, List.contains_eq_mem,
    decide_eq_true_eq, List.mem_cons, List.not_mem_nil, or_false]
  tauto

theorem keywordChar_outside {c : Char} (h : c ∈ outside) : keywordChar host c = false := by
  have hall : outside.all fun d => d.toNat < 128 && !keywordChar .plain d := by decide
  have hc := List.all_eq_true.mp hall c h
  rw [Bool.and_eq_true, decide_eq_true_eq, Bool.not_eq_true'] at hc
  obtain ⟨ha, hf⟩ := hc
  rw [keywordChar_ascii ha, hf]

theorem symbolic_slash : symbolic host '/' = false := by
  rw [symbolic, host.ascii '/' (by decide)]
  rfl

theorem symbolic_controls {c : Char} (h : symbolic host c) : c ≠ '\x0c' ∧ c ≠ '\x08' := by
  constructor
  · rintro rfl
    rw [symbolic, host.ascii _ (by decide)] at h
    exact absurd h (by decide)
  · rintro rfl
    rw [symbolic, host.ascii _ (by decide)] at h
    exact absurd h (by decide)

/-! ## keywords -/

theorem spelling_chars (k : Keyword) : k.spelling.toList
    = match k.ns with
      | some s => s.toList ++ '/' :: k.name.toList
      | none => k.name.toList := by
  unfold Keyword.spelling
  cases k.ns with
  | some s => exact Keyword.chars_some s k.name
  | none => rfl

/-- a letter of a legal keyword is the slash or a letter of a symbol -/
theorem LegalKeyword.letters {k : Keyword} (h : LegalKeyword host k) :
    ∀ c ∈ k.spelling.toList, symbolic host c ∨ c = '/' := by
  intro c hc
  rw [spelling_chars] at hc
  cases hns : k.ns with
  | none =>
    rw [hns] at hc
    exact Or.inl (h.name.letters c hc)
  | some s =>
    rw [hns] at hc
    rcases List.mem_append.mp hc with hc | hc
    · exact Or.inl ((h.ns s hns).letters c hc)
    · rcases List.mem_cons.mp hc with rfl | hc
      · exact Or.inr rfl
      · exact Or.inl (h.name.letters c hc)

/-- what the reader asks of the spelling of a keyword -/
def Legible (host : Alphabet) (t : String) : Prop := ∀ c ∈ t.toList, keywordChar host c

theorem tameKeyword_iff {k : Keyword} (h : LegalKeyword host k) :
    TameKeyword k ↔ Legible host k.spelling := by
  refine forall₂_congr fun c hc => ?_
  constructor
  · intro ho
    rw [keywordChar_iff]
    exact (h.letters c hc).imp_left fun hs => (symbolic_iff.mp hs).resolve_right ho
  · intro hk ho
    rw [keywordChar_outside ho] at hk
    cases hk

theorem tame_iff {v : PRF.Value} (h : Portable host v) :
    Tame v ↔ Spelled TameString (Legible host) (ofValue v) := by
  induction h with
  | null => rw [ofValue]; exact iff_of_true .null .nil
  | bool b => rw [ofValue]; exact iff_of_true (.bool b) (.bool b)
  | int h => rw [ofValue]; exact iff_of_true (.int _) (.int _)
  | str s =>
    rw [ofValue, spelled_str_iff]
    exact ⟨fun h => by cases h; assumption, .str⟩
  | kw h =>
    rw [ofValue, spelled_keyword_iff]
    refine Iff.trans ?_ (tameKeyword_iff h)
    exact ⟨fun h => by cases h; assumption, .kw⟩
  | vec h ih =>
    rw [ofValue, spelled_vec_iff, ofItems_eq, List.forall_mem_map]
    refine Iff.trans ?_ (forall₂_congr ih)
    exact ⟨fun h => by cases h; assumption, .vec⟩
  | @map es _ hk h ih =>
    rw [ofValue, spelled_map_iff, ofEntries_eq, List.forall_mem_map]
    have hkey : ∀ e ∈ es, TameKey e.1 ↔ Spelled TameString (Legible host) (ofKey e.1) := by
      intro e he
      have hl := hk e he
      cases hke : e.1 with
      | str s =>
        show TameString s ↔ Spelled TameString (Legible host) (.str s)
        exact spelled_str_iff.symm
      | kw k =>
        rw [hke] at hl
        exact (tameKeyword_iff hl).trans spelled_keyword_iff.symm
    constructor
    · intro ht e he
      cases ht with
      | map hk' h' => exact ⟨(hkey e he).mp (hk' e he), (ih e he).mp (h' e he)⟩
    · exact fun hs => .map (fun e he => (hkey e he).mpr (hs e he).1)
        fun e he => (ih e he).mpr (hs e he).2

/-! ## the text of a tame value is read as the value -/

/-- a keyword and a number end here -/
def Terminated (host : Alphabet) (rest : List Char) : Prop :=
  ∀ c ∈ rest.head?, keywordChar host c = false

theorem Terminated.munch {ds rest : List Char} (h : Terminated host rest)
    (hd : ∀ c ∈ ds, c.isDigit) : Munch Char.isDigit ds rest := by
  refine ⟨hd, fun c hc => ?_⟩
  rw [← Bool.not_eq_true]
  intro hdig
  have hk : keywordChar host c := keywordChar_digit hdig
  rw [h c hc] at hk
  cases hk

theorem toDigits_isDigit (n : ℕ) : ∀ c ∈ Nat.toDigits 10 n, c.isDigit :=
  fun _ hc => Nat.isDigit_of_mem_toDigits (by decide) (by decide) hc

theorem decimal_toDigits (n : ℕ) : decimal (Nat.toDigits 10 n) = some (n : ℤ) := by
  rw [decimal, if_pos ⟨Nat.toDigits_ne_nil, List.all_eq_true.mpr (toDigits_isDigit n)⟩,
    Nat.ofDigitChars_ten_toDigits]

theorem parseI64_toDigits (n : ℕ) :
    parseI64 (Nat.toDigits 10 n) = ((some (n : ℤ)).filter fits).map Int64.ofInt := by
  unfold parseI64
  split
  next ds hd =>
    have hm : ('-').isDigit := toDigits_isDigit n '-' (hd ▸ List.mem_cons_self)
    exact absurd hm (by decide)
  next ds hd =>
    have hm : ('+').isDigit := toDigits_isDigit n '+' (hd ▸ List.mem_cons_self)
    exact absurd hm (by decide)
  next => rw [decimal_toDigits]

theorem reads_int {n : ℤ} (hn : fits n) {rest : List Char} (hr : Terminated host rest) :
    Reads host (writeInt n ++ rest) (.int (Int64.ofInt n)) rest := by
  have hm := hr.munch (toDigits_isDigit n.natAbs)
  unfold writeInt
  split_ifs with h
  · have he : -(n.natAbs : ℤ) = n := by omega
    refine .int (.signed rfl hm) ?_
    show (((decimal (Nat.toDigits 10 n.natAbs)).map fun n => -n).filter fits).map _ = _
    rw [decimal_toDigits, Option.map_some, he, Option.filter_some_pos hn]
    rfl
  · have he : (n.natAbs : ℤ) = n := by omega
    refine .int (.plain Nat.toDigits_ne_nil hm) ?_
    rw [parseI64_toDigits, he, Option.filter_some_pos hn]
    rfl

theorem unescape_of_mem {e c : Char} (h : (e, c) ∈ escapes) (hf : c ≠ '\x0c') (hb : c ≠ '\x08') :
    unescape e = c := by
  simp only [escapes, List.mem_cons, Prod.mk.injEq, List.not_mem_nil, or_false] at h
  rcases h with ⟨rfl, rfl⟩ | ⟨rfl, rfl⟩ | ⟨rfl, rfl⟩ | ⟨rfl, rfl⟩ | ⟨rfl, rfl⟩ | ⟨rfl, rfl⟩ |
    ⟨rfl, rfl⟩
  · rfl
  · rfl
  · rfl
  · rfl
  · rfl
  · exact absurd rfl hf
  · exact absurd rfl hb

theorem quoted_escape {cs : List Char} (hf : '\x0c' ∉ cs) (hb : '\x08' ∉ cs) (rest : List Char) :
    Quoted (cs.flatMap escape ++ '"' :: rest) cs rest := by
  induction cs with
  | nil => exact .close rest
  | cons c cs ih =>
    rw [List.mem_cons, not_or] at hf hb
    have ih := ih hf.2 hb.2
    rw [List.flatMap_cons, List.append_assoc]
    rcases escape_cases c with ⟨e, he, hc⟩ | ⟨hn, hc⟩
    · have hq := Quoted.escape e ih
      rw [unescape_of_mem he (Ne.symm hf.1) (Ne.symm hb.1)] at hq
      rw [hc]
      exact hq
    · rw [hc]
      exact .letter (fun h => hn '"' (by rw [h]; decide)) (fun h => hn '\\' (by rw [h]; decide)) ih

theorem reads_string {s : String} (h : TameString s) (rest : List Char) :
    Reads host (writeString s ++ rest) (.str s) rest := by
  have hr : Reads host _ _ _ := .str (quoted_escape h.1 h.2 rest)
  rw [String.ofList_toList] at hr
  have he : writeString s ++ rest = '"' :: (s.toList.flatMap escape ++ '"' :: rest) := by
    rw [writeString, List.cons_append, List.append_assoc]
    rfl
  rw [he]
  exact hr

theorem splitKeyword_some {s n : List Char} (hs : '/' ∉ s) : splitKeyword (s ++ '/' :: n)
    = .keyword (some (String.ofList s)) (String.ofList n) := by
  have hm : Munch (fun c => decide (c ≠ '/')) s ('/' :: n) := by
    refine ⟨fun c hc => decide_eq_true fun h => hs (h ▸ hc), fun c hc => ?_⟩
    cases hc
    rfl
  rw [splitKeyword, if_pos (List.mem_append_right _ List.mem_cons_self), hm.takeWhile,
    hm.dropWhile]
  rfl

theorem LegalSymbol.no_slash {s : String} (h : LegalSymbol host s) : '/' ∉ s.toList := by
  intro hm
  have hs := h.letters '/' hm
  rw [symbolic_slash] at hs
  cases hs

theorem splitKeyword_spelling {k : Keyword} (h : LegalKeyword host k) :
    splitKeyword k.spelling.toList = .keyword k.ns k.name := by
  rw [spelling_chars]
  cases hns : k.ns with
  | none =>
    show splitKeyword k.name.toList = _
    rw [splitKeyword, if_neg h.name.no_slash, String.ofList_toList]
  | some s =>
    show splitKeyword (s.toList ++ '/' :: k.name.toList) = _
    rw [splitKeyword_some (h.ns s hns).no_slash, String.ofList_toList, String.ofList_toList]

theorem reads_keyword {k : Keyword} (h : LegalKeyword host k) (ht : TameKeyword k)
    {rest : List Char} (hr : Terminated host rest) :
    Reads host (':' :: (k.spelling.toList ++ rest)) (.keyword k.ns k.name) rest := by
  rw [← splitKeyword_spelling h]
  exact .keyword ⟨(tameKeyword_iff h).mp ht, hr⟩

theorem name_subset (k : Keyword) : ∀ c ∈ k.name.toList, c ∈ k.spelling.toList := by
  intro c hc
  rw [spelling_chars]
  cases k.ns with
  | none => exact hc
  | some s => exact List.mem_append_right _ (List.mem_cons_of_mem _ hc)

theorem ns_subset {k : Keyword} {s : String} (h : k.ns = some s) :
    ∀ c ∈ s.toList, c ∈ k.spelling.toList := by
  intro c hc
  rw [spelling_chars, h]
  exact List.mem_append_left _ hc

theorem reads_key {lifted : Bool} {k : Key} (h : LegalKey host k) (ht : TameKey k)
    {rest : List Char} (hr : Terminated host rest) :
    Reads host (writeKey lifted k ++ rest) (ofKey (written lifted k)) rest := by
  cases k with
  | str s => cases lifted <;> exact reads_string ht rest
  | kw k =>
    cases lifted with
    | false => exact reads_keyword h ht hr
    | true =>
      have hk : LegalKeyword host k := h
      have hl : LegalKeyword host { k with ns := none } := ⟨nofun, hk.name⟩
      exact reads_keyword hl (fun c hc => ht c (name_subset k c hc)) hr

theorem keywordChar_blank {c : Char} (h : blank c) : keywordChar host c = false := by
  rcases (Bool.or_eq_true _ _).mp h with hw | hc
  · have hne : ∀ d : Char, whitespace d = false → (c == d) = false := by
      intro d hd
      rw [beq_eq_false_iff_ne]
      rintro rfl
      rw [hd] at hw
      cases hw
    rw [keywordChar, host.spaced c hw, hne '-' (by decide), hne '_' (by decide),
      hne '?' (by decide), hne '.' (by decide), hne '/' (by decide)]
    rfl
  · rw [beq_iff_eq.mp hc, keywordChar_ascii (by decide)]
    rfl

theorem Seq.gap {close c : Char} (hc : blank c) {cs : List Char} {xs : List Value}
    {rest : List Char} (h : Seq (Reads host) close cs xs rest) :
    Seq (Reads host) close (c :: cs) xs rest := by
  cases h with
  | closed hg rest =>
    exact @Seq.closed _ close (c :: _) (List.forall_mem_cons.mpr ⟨hc, hg⟩) rest
  | cons h hs => exact .cons (.gap hc h) hs

theorem seq_separated {close : Char} {sep rest : List Char} (hs : sep ≠ [])
    (hb : sep.all blank) (xs : List Value) (u : List Char)
    (h : Seq (Reads host) close u xs rest) :
    Seq (Reads host) close (sep ++ u) xs rest ∧ Terminated host (sep ++ u) := by
  constructor
  · clear hs
    induction sep with
    | nil => exact h
    | cons c sep ih =>
      obtain ⟨hc, hrest⟩ := blanks_cons hb
      exact .gap hc (ih hrest)
  · cases sep with
    | nil => exact absurd rfl hs
    | cons c sep =>
      intro d hd
      cases hd
      exact keywordChar_blank (blanks_cons hb).1

theorem terminated_ascii {c : Char} (hc : c.toNat < 128 ∧ keywordChar .plain c = false)
    (cs : List Char) : Terminated host (c :: cs) := by
  intro d hd
  cases hd
  rw [keywordChar_ascii hc.1, hc.2]

theorem seq_intercalate {close : Char} {rest : List Char} (hc : Terminated host (close :: rest))
    {sep : List Char} (hs : sep ≠ []) (hb : sep.all blank) {ws : List (List Char)}
    {vss : List (List Value)}
    (h : List.Forall₂ (fun w vs => ∀ xs u, Terminated host u → Seq (Reads host) close u xs rest →
      Seq (Reads host) close (w ++ u) (vs ++ xs) rest) ws vss) :
    Seq (Reads host) close (sep.intercalate ws ++ close :: rest) vss.flatten rest :=
  intercalate_rule (Q := fun xs u => Seq (Reads host) close u xs rest) (close :: rest)
    ⟨@Seq.closed _ close [] nofun rest, hc⟩ (seq_separated hs hb) h

theorem seq_entries {nsMaps : Bool} (lifted : Bool) {es : List (Key × PRF.Value)}
    (hk : ∀ e ∈ es, LegalKey host e.1 ∧ TameKey e.1)
    (h : ∀ e ∈ es, ∀ u, Terminated host u →
      Reads host (write nsMaps e.2 ++ u) (ofValue e.2) u) (rest : List Char) :
    Seq (Reads host) '}' ([',', ' '].intercalate
        (es.map fun e => writeKey lifted e.1 ++ ' ' :: write nsMaps e.2) ++ '}' :: rest)
      (flat (es.map fun e => (ofKey (written lifted e.1), ofValue e.2))) rest := by
  rw [flat, List.flatMap_map, List.flatMap_def]
  refine seq_intercalate (terminated_ascii (by decide) rest) (by decide) (by decide) ?_
  rw [List.forall₂_map_left_iff, List.forall₂_map_right_iff, List.forall₂_same]
  intro e he xs u hu hs
  obtain ⟨hl, ht⟩ := hk e he
  rw [List.append_assoc]
  exact .cons (reads_key hl ht (terminated_ascii (by decide) _))
    (.gap (by decide) (.cons (h e he u hu) hs))

theorem seq_items {nsMaps : Bool} {xs : List PRF.Value}
    (h : ∀ x ∈ xs, ∀ u, Terminated host u → Reads host (write nsMaps x ++ u) (ofValue x) u)
    (rest : List Char) :
    Seq (Reads host) ']' ([' '].intercalate (xs.map (write nsMaps)) ++ ']' :: rest)
      (xs.map ofValue) rest := by
  have hx : (xs.map fun x => [ofValue x]).flatten = xs.map ofValue := by
    rw [← List.flatMap_def]
    exact List.map_eq_flatMap.symm
  rw [← hx]
  refine seq_intercalate (terminated_ascii (by decide) rest) (by decide) (by decide) ?_
  rw [List.forall₂_map_left_iff, List.forall₂_map_right_iff, List.forall₂_same]
  exact fun x hx ys u hu hs => .cons (h x hx u hu) hs

theorem keyed_lifted {es : List (Key × PRF.Value)} {ns : String}
    (hl : liftNs (es.map Prod.fst) = some ns) :
    Keyed (qualifyKey ns) (es.map fun e => (ofKey (written true e.1), ofValue e.2))
      (es.map fun e => (ofKey e.1, ofValue e.2)) := by
  rw [Keyed, List.forall₂_map_left_iff, List.forall₂_map_right_iff, List.forall₂_same]
  intro e he
  obtain ⟨k, hk, hns⟩ := liftNs_key hl e.1 (List.mem_map_of_mem he)
  refine ⟨?_, rfl⟩
  show qualifyKey ns (ofKey (strip e.1)) = .ok (ofKey e.1)
  rw [hk, ofKey, hns]
  rfl

theorem munch_ns {k : Keyword} {ns : String} (h : LegalKeyword host k) (ht : TameKeyword k)
    (hns : k.ns = some ns) (cs : List Char) : Munch (symbolChar host) ns.toList ('{' :: cs) := by
  refine ⟨fun c hc => ?_, fun c hc => ?_⟩
  · have hs := (h.ns ns hns).letters c hc
    exact (symbolic_iff.mp hs).resolve_right (ht c (ns_subset hns c hc))
  · cases hc
    rw [← Bool.not_eq_true]
    intro hs
    have hk : keywordChar host '{' := keywordChar_iff.mpr (Or.inl hs)
    rw [keywordChar_ascii (by decide)] at hk
    exact absurd hk (by decide)

/-- **The text of a tame value is read as the value, wherever a token may end.** -/
theorem reads_write {nsMaps : Bool} {v : PRF.Value} (h : Portable host v) (ht : Tame v)
    {rest : List Char} (hr : Terminated host rest) :
    Reads host (write nsMaps v ++ rest) (ofValue v) rest := by
  induction h generalizing rest with
  | null => rw [write, ofValue]; exact .nil rest
  | bool b =>
    cases b with
    | true => rw [write, ofValue]; exact .tt rest
    | false => rw [write, ofValue]; exact .ff rest
  | int h => rw [write, ofValue]; exact reads_int h hr
  | str s =>
    cases ht with
    | str ht => rw [write, ofValue]; exact reads_string ht rest
  | kw h =>
    cases ht with
    | kw ht => rw [write, ofValue]; exact reads_keyword h ht hr
  | @vec xs h ih =>
    cases ht with
    | vec ht =>
      rw [write, writeItems_eq, ofValue, ofItems_eq, List.cons_append, List.append_assoc]
      exact .vec (seq_items (fun x hx u hu => ih x hx (ht x hx) hu) rest)
  | @map es distinct hk h ih =>
    cases ht with
    | map htk ht =>
      have hkeys : ∀ e ∈ es, LegalKey host e.1 ∧ TameKey e.1 := fun e he => ⟨hk e he, htk e he⟩
      have hes : ∀ e ∈ es, ∀ u, Terminated host u →
          Reads host (write nsMaps e.2 ++ u) (ofValue e.2) u :=
        fun e he u hu => ih e he (ht e he) hu
      rw [ofValue, ofEntries_eq]
      rcases write_map nsMaps es with ⟨ns, hl, he⟩ | he
      · obtain ⟨e, hmem⟩ : ∃ e, e ∈ es := by
          cases es with
          | nil => cases hl
          | cons e es => exact ⟨e, List.mem_cons_self⟩
        obtain ⟨k, hke, hns⟩ := liftNs_key hl e.1 (List.mem_map_of_mem hmem)
        obtain ⟨hlk, htk⟩ := hkeys e hmem
        rw [hke] at hlk htk
        rw [he]
        simp only [List.cons_append, List.append_assoc, List.nil_append]
        refine @Reads.nsMap host ns.toList [] _ _ _ rest (munch_ns hlk htk hns _)
          (fun c hc => by cases hc)
          (seq_entries true hkeys hes rest) ?_
        rw [String.ofList_toList]
        exact keyed_lifted hl
      · rw [he, List.cons_append, List.append_assoc]
        exact .map (seq_entries false hkeys hes rest)

end

end PRF.Edn
