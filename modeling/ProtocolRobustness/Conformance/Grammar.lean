import ProtocolRobustness.Conformance.Edn

/-!
# What the EDN reader accepts

`Reads host cs v rest`: at the head of the text `cs` stands a value `v`, and `rest` is left.  Tokens
are the longest there are, a string may end with the input, a keyword may be empty, a map may have
any keys, and nothing is asked of what is left.

* `Munch`, `Quoted`, `Digits`   tokens, and the parsers that find them;
* `Reads`          one value, with `Seq` for the values up to a closing bracket;
* `Reads.induct`   induction over a reading.
-/

namespace PRF.Edn

/-! ## tokens -/

/-- the longest head of letters of a kind -/
def Munch (p : Char → Bool) (text rest : List Char) : Prop :=
  (∀ c ∈ text, p c) ∧ ∀ c ∈ rest.head?, p c = false

theorem munch_span (p : Char → Bool) (cs : List Char) :
    Munch p (cs.takeWhile p) (cs.dropWhile p) := by
  refine ⟨fun c hc => List.mem_takeWhile_imp hc, fun c hc => ?_⟩
  have h := List.head?_dropWhile_not p cs
  rw [Option.mem_def.mp hc] at h
  exact h

theorem Munch.takeWhile {p : Char → Bool} {text rest : List Char} (h : Munch p text rest) :
    (text ++ rest).takeWhile p = text := by
  rw [List.takeWhile_append_of_pos h.1]
  cases rest with
  | nil => simp
  | cons c cs => rw [List.takeWhile_cons_of_neg (by simp [h.2 c rfl]), List.append_nil]

theorem Munch.dropWhile {p : Char → Bool} {text rest : List Char} (h : Munch p text rest) :
    (text ++ rest).dropWhile p = rest := by
  rw [List.dropWhile_append_of_pos h.1]
  cases rest with
  | nil => rfl
  | cons c cs => rw [List.dropWhile_cons_of_neg (by simp [h.2 c rfl])]

/-- the letters of a string: it ends at a quote, or with the input -/
inductive Quoted : List Char → List Char → List Char → Prop
  | close (rest : List Char) : Quoted ('"' :: rest) [] rest
  | cut : Quoted [] [] []
  | stray : Quoted ['\\'] [] []
  | escape {cs s rest : List Char} (c : Char) (h : Quoted cs s rest) :
      Quoted ('\\' :: c :: cs) (unescape c :: s) rest
  | letter {cs s rest : List Char} {c : Char} (hq : c ≠ '"') (hb : c ≠ '\\')
      (h : Quoted cs s rest) : Quoted (c :: cs) (c :: s) rest

theorem parseString_quoted (cs : List Char) :
    Quoted cs (parseString cs).1 (parseString cs).2 := by
  fun_induction parseString cs with
  | case1 => exact .cut
  | case2 cs => exact .close cs
  | case3 c cs ih => exact .escape c ih
  | case4 => exact .stray
  | case5 c cs hq hb hs ih =>
    have hb' : c ≠ '\\' := by
      intro h
      cases cs with
      | nil => exact hs h rfl
      | cons e cs => exact hb e cs h rfl
    exact .letter hq hb' ih

theorem Quoted.parseString {cs s rest : List Char} (h : Quoted cs s rest) :
    parseString cs = (s, rest) := by
  induction h with
  | close rest => rfl
  | cut => rfl
  | stray => rfl
  | escape c h ih => rw [Edn.parseString, ih]
  | @letter cs s rest c hq hb h ih =>
    rw [Edn.parseString, ih]
    · exact hq
    · exact fun _ _ h _ => hb h
    · exact fun h _ => hb h

def sign (c : Char) : Bool := c == '-' || c == '+'

/-- a number: a sign or none, and digits, as many as there are -/
inductive Digits : List Char → List Char → Prop
  | plain {ds rest : List Char} (hd : ds ≠ []) (h : Munch Char.isDigit ds rest) : Digits ds rest
  | signed {c : Char} {ds rest : List Char} (hc : sign c) (h : Munch Char.isDigit ds rest) :
      Digits (c :: ds) rest

theorem sign_iff {c : Char} : sign c ↔ c = '-' ∨ c = '+' := by
  simp [sign]

theorem digit_not_sign {c : Char} (h : c.isDigit) : ¬ (c = '-' ∨ c = '+') := by
  rintro (rfl | rfl) <;> exact absurd h (by decide)

theorem Digits.intText {text rest : List Char} (h : Digits text rest) :
    intText (text ++ rest) = (text, rest) := by
  cases h with
  | plain hd h =>
    cases text with
    | nil => exact absurd rfl hd
    | cons c ds =>
      show Edn.intText (c :: (ds ++ rest)) = _
      rw [Edn.intText, if_neg (digit_not_sign (h.1 c List.mem_cons_self)), ← List.cons_append,
        h.takeWhile, h.dropWhile]
  | @signed c ds _ hc h =>
    show Edn.intText (c :: (ds ++ rest)) = _
    rw [Edn.intText, if_pos (sign_iff.mp hc), h.takeWhile, h.dropWhile]

theorem intText_digits {c : Char} (h : c.isDigit ∨ c = '-' ∨ c = '+') (cs : List Char) :
    Digits (intText (c :: cs)).1 (intText (c :: cs)).2
      ∧ (intText (c :: cs)).1 ++ (intText (c :: cs)).2 = c :: cs := by
  by_cases hs : c = '-' ∨ c = '+'
  · rw [intText, if_pos hs]
    exact ⟨.signed (sign_iff.mpr hs) (munch_span _ _),
      congrArg (c :: ·) List.takeWhile_append_dropWhile⟩
  · rw [intText, if_neg hs]
    refine ⟨.plain ?_ (munch_span _ _), List.takeWhile_append_dropWhile⟩
    rw [List.takeWhile_cons_of_pos (h.resolve_right hs)]
    exact List.cons_ne_nil _ _

/-! ## the grammar -/

/-- the entries of a map as they stand in its text -/
def flat (es : List (Value × Value)) : List Value := es.flatMap fun e => [e.1, e.2]

/-- the entries after each key went through `qualify` -/
def Keyed (qualify : Value → Except ParseError Value) : (es fs : List (Value × Value)) → Prop :=
  List.Forall₂ fun e f => qualify e.1 = .ok f.1 ∧ e.2 = f.2

theorem Keyed.eq {es fs : List (Value × Value)} (h : Keyed .ok es fs) : es = fs := by
  induction h with
  | nil => rfl
  | cons he _ ih =>
    obtain ⟨hk, hv⟩ := he
    rw [ih, Prod.ext (Except.ok.inj hk) hv]

/-- values in a row up to a closing bracket, each of them read by `R` -/
inductive Seq (R : List Char → Value → List Char → Prop) (close : Char) :
    List Char → List Value → List Char → Prop
  | closed {gap : List Char} (hg : ∀ c ∈ gap, blank c) (rest : List Char) :
      Seq R close (gap ++ close :: rest) [] rest
  | cons {cs cs' : List Char} {x : Value} {xs : List Value} {rest : List Char} (h : R cs x cs')
      (hs : Seq R close cs' xs rest) : Seq R close cs (x :: xs) rest

inductive Reads (host : Alphabet) : List Char → Value → List Char → Prop
  | gap {c : Char} {cs : List Char} {v : Value} {rest : List Char} (hc : blank c)
      (h : Reads host cs v rest) : Reads host (c :: cs) v rest
  | nil (rest : List Char) : Reads host ('n' :: 'i' :: 'l' :: rest) .nil rest
  | tt (rest : List Char) : Reads host ('t' :: 'r' :: 'u' :: 'e' :: rest) (.bool true) rest
  | ff (rest : List Char) :
      Reads host ('f' :: 'a' :: 'l' :: 's' :: 'e' :: rest) (.bool false) rest
  | int {text rest : List Char} {n : Int64} (h : Digits text rest) (hn : parseI64 text = some n) :
      Reads host (text ++ rest) (.int n) rest
  | str {cs s rest : List Char} (h : Quoted cs s rest) :
      Reads host ('"' :: cs) (.str (String.ofList s)) rest
  | keyword {text rest : List Char} (h : Munch (keywordChar host) text rest) :
      Reads host (':' :: (text ++ rest)) (splitKeyword text) rest
  | vec {cs : List Char} {xs : List Value} {rest : List Char}
      (h : Seq (Reads host) ']' cs xs rest) : Reads host ('[' :: cs) (.vec xs) rest
  | map {cs : List Char} {es : List (Value × Value)} {rest : List Char}
      (h : Seq (Reads host) '}' cs (flat es) rest) : Reads host ('{' :: cs) (.map es) rest
  | nsMap {ns gap cs : List Char} {es fs : List (Value × Value)} {rest : List Char}
      (hn : Munch (symbolChar host) ns (gap ++ '{' :: cs)) (hg : ∀ c ∈ gap, blank c)
      (h : Seq (Reads host) '}' cs (flat es) rest)
      (hk : Keyed (qualifyKey (String.ofList ns)) es fs) :
      Reads host ('#' :: ':' :: (ns ++ (gap ++ '{' :: cs))) (.map fs) rest

section
variable {host : Alphabet} {R : List Char → Value → List Char → Prop}

theorem Seq.length {close : Char} {cs : List Char} {xs : List Value} {rest : List Char}
    (h : Seq R close cs xs rest) (hR : ∀ cs v rest, R cs v rest → rest.length < cs.length) :
    rest.length < cs.length := by
  induction h with
  | @closed gap hg rest =>
    rw [List.length_append, List.length_cons]
    omega
  | cons h hs ih => exact ih.trans (hR _ _ _ h)

/-- induction over a reading: a vector and a map from the readings of their members -/
theorem Reads.induct {P : List Char → Value → List Char → Prop}
    (gap : ∀ c cs v rest, blank c → P cs v rest → P (c :: cs) v rest)
    (nil : ∀ rest, P ('n' :: 'i' :: 'l' :: rest) .nil rest)
    (tt : ∀ rest, P ('t' :: 'r' :: 'u' :: 'e' :: rest) (.bool true) rest)
    (ff : ∀ rest, P ('f' :: 'a' :: 'l' :: 's' :: 'e' :: rest) (.bool false) rest)
    (int : ∀ text rest n, Digits text rest → parseI64 text = some n →
      P (text ++ rest) (.int n) rest)
    (str : ∀ cs s rest, Quoted cs s rest → P ('"' :: cs) (.str (String.ofList s)) rest)
    (keyword : ∀ text rest, Munch (keywordChar host) text rest →
      P (':' :: (text ++ rest)) (splitKeyword text) rest)
    (vec : ∀ cs xs rest, Seq P ']' cs xs rest → P ('[' :: cs) (.vec xs) rest)
    (map : ∀ cs es rest, Seq P '}' cs (flat es) rest → P ('{' :: cs) (.map es) rest)
    (nsMap : ∀ ns gap cs es fs rest, Munch (symbolChar host) ns (gap ++ '{' :: cs) →
      (∀ c ∈ gap, blank c) → Seq P '}' cs (flat es) rest →
      Keyed (qualifyKey (String.ofList ns)) es fs →
      P ('#' :: ':' :: (ns ++ (gap ++ '{' :: cs))) (.map fs) rest)
    {cs : List Char} {v : Value} {rest : List Char} (h : Reads host cs v rest) : P cs v rest :=
  @Reads.rec host (fun cs v rest _ => P cs v rest) (fun cs xs rest _ => Seq P ']' cs xs rest)
    (fun cs xs rest _ => Seq P '}' cs xs rest)
    (fun hc _ => gap _ _ _ _ hc) nil tt ff (fun h hn => int _ _ _ h hn) (fun h => str _ _ _ h)
    (fun h => keyword _ _ h) (fun _ => vec _ _ _) (fun _ => map _ _ _)
    (fun hn hg _ hk h => nsMap _ _ _ _ _ _ hn hg h hk)
    (fun hg rest => .closed hg rest) (fun _ _ h hs => .cons h hs)
    (fun hg rest => .closed hg rest) (fun _ _ h hs => .cons h hs) _ _ _ h

end

end PRF.Edn
