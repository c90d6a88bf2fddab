import Mathlib.Data.List.DropRight
import ProtocolRobustness.Conformance.Grammar

/-!
# The parser decides the grammar

* `sound`, `Sound`      what the parsers give is read so, by induction on the fuel;
* `Reads.parse`         what is read so the parser gives, with two units of fuel for a letter;
* `parse_ne_outOfFuel`  the fuel of `parse` is never used up;
* `parse_ok_iff`, `parse_refuses_iff`   the parser decides the grammar.
-/

namespace PRF.Edn
open Fallible

section
variable {host : Alphabet}

/-! ## literals -/

theorem matchLiteral_append (lit : String) (v : Value) (rest : List Char) :
    matchLiteral lit v (lit.toList ++ rest) = .ok (v, rest) := by
  rw [matchLiteral, if_pos (List.isPrefixOf_iff_prefix.mpr (List.prefix_append _ _)),
    List.drop_left]

theorem matchLiteral_ok {lit : String} {v w : Value} {cs rest : List Char}
    (h : matchLiteral lit v cs = .ok (w, rest)) : v = w ∧ cs = lit.toList ++ rest := by
  obtain ⟨hp, h⟩ := require_eq_ok.mp h
  obtain ⟨t, rfl⟩ := List.isPrefixOf_iff_prefix.mp hp
  rw [List.drop_left] at h
  cases h
  exact ⟨rfl, rfl⟩

/-! ## what the parser gives is read -/

theorem Reads.skipped {cs : List Char} {v : Value} {rest : List Char}
    (h : Reads host (skipWs cs) v rest) : Reads host cs v rest := by
  induction cs with
  | nil => exact h
  | cons c cs ih =>
    by_cases hc : blank c
    · rw [skipWs, List.dropWhile_cons_of_pos hc] at h
      exact .gap hc (ih h)
    · rw [skipWs, List.dropWhile_cons_of_neg hc] at h
      exact h

theorem skipWs_split (cs : List Char) : ∃ gap, (∀ c ∈ gap, blank c) ∧ cs = gap ++ skipWs cs :=
  ⟨cs.takeWhile blank, fun _ hc => List.mem_takeWhile_imp hc,
    List.takeWhile_append_dropWhile.symm⟩

theorem Seq.of_head {R : List Char → Value → List Char → Prop} {close : Char} {cs : List Char}
    (h : (skipWs cs).head? = some close) : Seq R close cs [] (skipWs cs).tail := by
  obtain ⟨gap, hg, he⟩ := skipWs_split cs
  obtain ⟨t, ht⟩ : ∃ t, skipWs cs = close :: t := by
    cases hs : skipWs cs with
    | nil => rw [hs] at h; cases h
    | cons c t => rw [hs] at h; cases h; exact ⟨t, rfl⟩
  rw [ht] at he ⊢
  rw [he]
  exact .closed hg t

theorem parseInt_reads {c : Char} {cs : List Char} {v : Value} {rest : List Char}
    (hc : c.isDigit ∨ c = '-' ∨ c = '+') (h : parseInt (c :: cs) = .ok (v, rest)) :
    Reads host (c :: cs) v rest := by
  obtain ⟨hd, ht⟩ := intText_digits hc cs
  unfold parseInt at h
  split at h
  next n hn =>
    cases h
    have hr : Reads host _ _ _ := .int hd hn
    rw [ht] at hr
    exact hr
  next => cases h

/-- the parsers of one amount of fuel give what is read -/
def Sound (host : Alphabet) (fuel : ℕ) : Prop :=
  (∀ cs v rest, parseValue host fuel cs = .ok (v, rest) → Reads host cs v rest) ∧
  (∀ qualify cs fs rest, parsePairs host qualify fuel cs = .ok (fs, rest) →
    ∃ es, Seq (Reads host) '}' cs (flat es) rest ∧
      Keyed qualify es fs) ∧
  (∀ cs v rest, parseTagged host fuel cs = .ok (v, rest) → Reads host ('#' :: cs) v rest) ∧
  (∀ cs xs rest, parseVec host fuel cs = .ok (xs, rest) → Seq (Reads host) ']' cs xs rest)

theorem sound_value {fuel : ℕ} (ih : Sound host fuel) {cs : List Char} {v : Value}
    {rest : List Char} (h : parseValue host (fuel + 1) cs = .ok (v, rest)) :
    Reads host cs v rest := by
  obtain ⟨-, hpairs, htagged, hvec⟩ := ih
  apply Reads.skipped
  rw [parseValue] at h
  split at h
  next => cases h
  next c t hs =>
    rw [hs]
    split_ifs at h with h1 h2 h3 h4 h5 h6 h7 h8 h9
    · subst h1
      obtain ⟨⟨fs, r⟩, hp, h⟩ := bind_eq_ok.mp h
      cases h
      obtain ⟨es, hes, hk⟩ := hpairs _ _ _ _ hp
      exact .map (hk.eq ▸ hes)
    · subst h2
      obtain ⟨⟨xs, r⟩, hp, h⟩ := bind_eq_ok.mp h
      cases h
      exact .vec (hvec _ _ _ hp)
    · subst h3
      exact htagged _ _ _ h
    · subst h4
      cases h
      exact .str (parseString_quoted t)
    · subst h5
      cases h
      have hm := munch_span (keywordChar host) t
      have hr := Reads.keyword hm
      rw [List.takeWhile_append_dropWhile] at hr
      exact hr
    · obtain ⟨rfl, he⟩ := matchLiteral_ok h
      rw [he]
      exact .tt rest
    · obtain ⟨rfl, he⟩ := matchLiteral_ok h
      rw [he]
      exact .ff rest
    · obtain ⟨rfl, he⟩ := matchLiteral_ok h
      rw [he]
      exact .nil rest
    · exact parseInt_reads h9 h

theorem sound_pairs {fuel : ℕ} (ih : Sound host fuel)
    {qualify : Value → Except ParseError Value} {cs : List Char} {fs : List (Value × Value)}
    {rest : List Char} (h : parsePairs host qualify (fuel + 1) cs = .ok (fs, rest)) :
    ∃ es, Seq (Reads host) '}' cs (flat es) rest ∧
      Keyed qualify es fs := by
  obtain ⟨hvalue, hpairs, -, -⟩ := ih
  rw [parsePairs] at h
  split_ifs at h with hc
  · cases h
    exact ⟨[], .of_head hc, .nil⟩
  · obtain ⟨⟨k, r⟩, hk, h⟩ := bind_eq_ok.mp h
    obtain ⟨k', hq, h⟩ := bind_eq_ok.mp h
    obtain ⟨⟨x, r'⟩, hx, h⟩ := bind_eq_ok.mp h
    obtain ⟨⟨fs', r''⟩, hfs, h⟩ := bind_eq_ok.mp h
    cases h
    obtain ⟨es, hes, hall⟩ := hpairs _ _ _ _ hfs
    exact ⟨(k, x) :: es, .cons (hvalue _ _ _ hk) (.cons (hvalue _ _ _ hx) hes),
      .cons ⟨hq, rfl⟩ hall⟩

theorem sound_tagged {fuel : ℕ} (ih : Sound host fuel) {cs : List Char} {v : Value}
    {rest : List Char} (h : parseTagged host (fuel + 1) cs = .ok (v, rest)) :
    Reads host ('#' :: cs) v rest := by
  obtain ⟨-, hpairs, -, -⟩ := ih
  unfold parseTagged at h
  split at h
  next cs =>
    split at h
    next t ht =>
      obtain ⟨⟨fs, r⟩, hp, h⟩ := bind_eq_ok.mp h
      cases h
      obtain ⟨es, hes, hk⟩ := hpairs _ _ _ _ hp
      obtain ⟨gap, hg, he⟩ := skipWs_split (cs.dropWhile (symbolChar host))
      rw [ht] at he
      have hm := munch_span (symbolChar host) cs
      rw [he] at hm
      have hr := Reads.nsMap hm hg hes hk
      rw [← he, List.takeWhile_append_dropWhile] at hr
      exact hr
    next => cases h
  next => cases h

theorem sound_vec {fuel : ℕ} (ih : Sound host fuel) {cs : List Char} {xs : List Value}
    {rest : List Char} (h : parseVec host (fuel + 1) cs = .ok (xs, rest)) :
    Seq (Reads host) ']' cs xs rest := by
  obtain ⟨hvalue, -, -, hvec⟩ := ih
  rw [parseVec] at h
  split_ifs at h with hc
  · cases h
    exact .of_head hc
  · obtain ⟨⟨x, r⟩, hx, h⟩ := bind_eq_ok.mp h
    obtain ⟨⟨xs', r'⟩, hxs, h⟩ := bind_eq_ok.mp h
    cases h
    exact .cons (hvalue _ _ _ hx) (hvec _ _ _ hxs)

theorem sound (host : Alphabet) (fuel : ℕ) : Sound host fuel := by
  induction fuel with
  | zero => exact ⟨nofun, nofun, nofun, nofun⟩
  | succ fuel ih =>
    exact ⟨fun _ _ _ => sound_value ih, fun _ _ _ _ => sound_pairs ih,
      fun _ _ _ => sound_tagged ih, fun _ _ _ => sound_vec ih⟩

/-! ## what is read the parser gives -/

theorem skipWs_gap {gap : List Char} (hg : ∀ c ∈ gap, blank c) (cs : List Char) :
    skipWs (gap ++ cs) = skipWs cs := List.dropWhile_append_of_pos hg

theorem skipWs_of_not {c : Char} (hc : blank c = false) (cs : List Char) :
    skipWs (c :: cs) = c :: cs := List.dropWhile_cons_of_neg (by simp [hc])

theorem parseValue_gap {c : Char} (hc : blank c) (fuel : ℕ) (cs : List Char) :
    parseValue host (fuel + 1) (c :: cs) = parseValue host (fuel + 1) cs := by
  have hs : skipWs (c :: cs) = skipWs cs := List.dropWhile_cons_of_pos hc
  rw [parseValue, parseValue, hs]

/-- the letters a number starts with -/
def NumberHead (c : Char) : Prop := c.isDigit ∨ c = '-' ∨ c = '+'

instance : DecidablePred NumberHead := fun c =>
  inferInstanceAs (Decidable (c.isDigit ∨ c = '-' ∨ c = '+'))

theorem NumberHead.not_blank {c : Char} (hc : NumberHead c) : blank c = false := by
  rcases hc with h | rfl | rfl
  · rw [← Bool.not_eq_true]
    intro hb
    have hr := alphanum_range (c := c) (by simp [Char.isAlphanum, h])
    simp only [blank, whitespace, Bool.or_eq_true, Bool.and_eq_true, decide_eq_true_eq,
      beq_iff_eq] at hb
    rcases hb with hb | rfl
    · omega
    · exact absurd h (by decide)
  · rfl
  · rfl

theorem Digits.head {text rest : List Char} (h : Digits text rest) :
    ∃ c cs, text = c :: cs ∧ NumberHead c := by
  cases h with
  | plain hd h =>
    cases text with
    | nil => exact absurd rfl hd
    | cons c cs => exact ⟨c, cs, rfl, Or.inl (h.1 c List.mem_cons_self)⟩
  | signed hc h => exact ⟨_, _, rfl, Or.inr (sign_iff.mp hc)⟩

theorem parseValue_number {c : Char} (hc : NumberHead c) (fuel : ℕ) (cs : List Char) :
    parseValue host (fuel + 1) (c :: cs) = parseInt (c :: cs) := by
  have hne : ∀ d : Char, ¬ NumberHead d → c ≠ d := fun d hd h => hd (h ▸ hc)
  rw [parseValue, skipWs_of_not hc.not_blank]
  show (if c = '{' then _ else _) = _
  rw [if_neg (hne '{' (by decide)), if_neg (hne '[' (by decide)), if_neg (hne '#' (by decide)),
    if_neg (hne '"' (by decide)), if_neg (hne ':' (by decide)), if_neg (hne 't' (by decide)),
    if_neg (hne 'f' (by decide)), if_neg (hne 'n' (by decide))]
  exact if_pos hc

/-- a value is read and its parser needs two units of fuel for a letter -/
structure Parsed (host : Alphabet) (cs : List Char) (v : Value) (rest : List Char) : Prop where
  shorter : rest.length < cs.length
  opens : ∀ c ∈ (skipWs cs).head?, c ≠ ']' ∧ c ≠ '}'
  parsed : ∀ fuel, 2 * cs.length ≤ fuel → parseValue host (fuel + 1) cs = .ok (v, rest)

theorem Quoted.length {cs s rest : List Char} (h : Quoted cs s rest) : rest.length ≤ cs.length := by
  induction h with
  | close rest => exact Nat.le_succ _
  | cut => exact le_rfl
  | stray => exact Nat.zero_le _
  | escape c h ih => exact ih.trans (by simp only [List.length_cons]; omega)
  | letter hq hb h ih => exact ih.trans (Nat.le_succ _)

theorem Parsed.vec {cs : List Char} {xs : List Value} {rest : List Char}
    (h : Seq (Parsed host) ']' cs xs rest) (fuel : ℕ) (hf : 2 * cs.length < fuel) :
    parseVec host (fuel + 1) cs = .ok (xs, rest) := by
  induction h generalizing fuel with
  | closed hg rest =>
    have hs : skipWs (_ ++ ']' :: rest) = ']' :: rest := skipWs_gap hg _
    rw [parseVec, hs]
    exact if_pos rfl
  | cons h hs ih =>
    have hne : ¬ (skipWs _).head? = some ']' := fun hc => (h.opens ']' hc).1 rfl
    have hl := h.shorter
    obtain ⟨f, rfl⟩ : ∃ f, fuel = f + 1 := ⟨fuel - 1, by omega⟩
    rw [parseVec, if_neg hne, h.parsed f (by omega)]
    show (parseVec host (f + 1) _ >>= _) = _
    rw [ih f (by omega)]
    rfl

theorem Parsed.pairs {qualify : Value → Except ParseError Value} {es fs : List (Value × Value)}
    (hk : Keyed qualify es fs) {cs rest : List Char} (h : Seq (Parsed host) '}' cs (flat es) rest)
    (fuel : ℕ) (hf : 2 * cs.length < fuel) :
    parsePairs host qualify (fuel + 1) cs = .ok (fs, rest) := by
  induction hk generalizing cs fuel with
  | nil =>
    cases h with
    | closed hg rest =>
      have hs : skipWs (_ ++ '}' :: rest) = '}' :: rest := skipWs_gap hg _
      rw [parsePairs, hs]
      exact if_pos rfl
  | @cons e f es fs he hk ih =>
    cases h with
    | cons h1 h =>
      cases h with
      | cons h2 h =>
        have hne : ¬ (skipWs _).head? = some '}' := fun hc => (h1.opens '}' hc).2 rfl
        have hl1 := h1.shorter
        have hl2 := h2.shorter
        obtain ⟨m, rfl⟩ : ∃ m, fuel = m + 1 := ⟨fuel - 1, by omega⟩
        rw [parsePairs, if_neg hne, h1.parsed m (by omega)]
        show (qualify e.1 >>= _) = _
        rw [he.1]
        show (parseValue host (m + 1) _ >>= _) = _
        rw [h2.parsed m (by omega)]
        show (parsePairs host qualify (m + 1) _ >>= _) = _
        rw [ih h m (by omega), he.2]
        rfl

theorem Reads.parse {cs : List Char} {v : Value} {rest : List Char} (h : Reads host cs v rest) :
    Parsed host cs v rest := by
  refine Reads.induct ?gap ?nil ?tt ?ff ?int ?str ?keyword ?vec ?map ?nsMap h
  case gap =>
    intro c cs v rest hc h
    have hs : skipWs (c :: cs) = skipWs cs := List.dropWhile_cons_of_pos hc
    refine ⟨h.shorter.trans (Nat.lt_succ_self _), by rw [hs]; exact h.opens, fun fuel hf => ?_⟩
    rw [List.length_cons] at hf
    rw [parseValue_gap hc, h.parsed fuel (by omega)]
  case nil =>
    intro rest
    refine ⟨by simp only [List.length_cons]; omega, fun c hc => ?_, fun fuel hf => ?_⟩
    · cases hc
      decide
    · exact matchLiteral_append "nil" .nil rest
  case tt =>
    intro rest
    refine ⟨by simp only [List.length_cons]; omega, fun c hc => ?_, fun fuel hf => ?_⟩
    · cases hc
      decide
    · exact matchLiteral_append "true" (.bool true) rest
  case ff =>
    intro rest
    refine ⟨by simp only [List.length_cons]; omega, fun c hc => ?_, fun fuel hf => ?_⟩
    · cases hc
      decide
    · exact matchLiteral_append "false" (.bool false) rest
  case int =>
    intro text rest n h hn
    obtain ⟨c, cs, rfl, hc⟩ := h.head
    refine ⟨by rw [List.length_append, List.length_cons]; omega, fun d hd => ?_, fun fuel hf => ?_⟩
    · rw [List.cons_append, skipWs_of_not hc.not_blank] at hd
      cases hd
      exact ⟨fun e => absurd (e ▸ hc) (by decide), fun e => absurd (e ▸ hc) (by decide)⟩
    · rw [List.cons_append, parseValue_number hc, ← List.cons_append, parseInt, h.intText, hn]
  case str =>
    intro cs s rest h
    refine ⟨Nat.lt_succ_of_le h.length, fun c hc => ?_, fun fuel hf => ?_⟩
    · cases hc
      decide
    · show Except.ok (Value.str (String.ofList (parseString cs).1), (parseString cs).2) = _
      rw [h.parseString]
  case keyword =>
    intro text rest h
    refine ⟨by rw [List.length_cons, List.length_append]; omega, fun c hc => ?_, fun fuel hf => ?_⟩
    · cases hc
      decide
    · show Except.ok (parseKeyword host (text ++ rest)) = _
      rw [parseKeyword, h.takeWhile, h.dropWhile]
  case vec =>
    intro cs xs rest h
    refine ⟨?_, fun c hc => ?_, fun fuel hf => ?_⟩
    · exact (h.length fun _ _ _ h => h.shorter).trans (Nat.lt_succ_self _)
    · cases hc
      decide
    · rw [List.length_cons] at hf
      obtain ⟨f, rfl⟩ : ∃ f, fuel = f + 1 := ⟨fuel - 1, by omega⟩
      show (parseVec host (f + 1) cs >>= _) = _
      rw [Parsed.vec h f (by omega)]
      rfl
  case map =>
    intro cs es rest h
    refine ⟨?_, fun c hc => ?_, fun fuel hf => ?_⟩
    · exact (h.length fun _ _ _ h => h.shorter).trans (Nat.lt_succ_self _)
    · cases hc
      decide
    · rw [List.length_cons] at hf
      obtain ⟨f, rfl⟩ : ∃ f, fuel = f + 1 := ⟨fuel - 1, by omega⟩
      show (parsePairs host .ok (f + 1) cs >>= _) = _
      have hk : Keyed .ok es es := List.forall₂_same.mpr fun e _ => ⟨rfl, rfl⟩
      rw [Parsed.pairs hk h f (by omega)]
      rfl
  case nsMap =>
    intro ns gap cs es fs rest hn hg h hk
    have hl := h.length fun _ _ _ h => h.shorter
    refine ⟨?_, fun c hc => ?_, fun fuel hf => ?_⟩
    · simp only [List.length_cons, List.length_append]
      omega
    · cases hc
      decide
    · simp only [List.length_cons, List.length_append] at hf
      obtain ⟨f, rfl⟩ : ∃ f, fuel = f + 2 := ⟨fuel - 2, by omega⟩
      have hs : skipWs (gap ++ '{' :: cs) = '{' :: cs := skipWs_gap hg _
      show parseTagged host (f + 2) (':' :: (ns ++ (gap ++ '{' :: cs))) = _
      rw [parseTagged, hn.dropWhile, hn.takeWhile, hs]
      show (parsePairs host _ (f + 1) cs >>= _) = _
      rw [Parsed.pairs hk h f (by omega)]
      rfl
/-! ## the fuel is never used up -/

/-- the parsers of one amount of fuel stay within it -/
def Fueled (host : Alphabet) (fuel : ℕ) : Prop :=
  (∀ cs, 2 * cs.length < fuel → parseValue host fuel cs ≠ .error .outOfFuel) ∧
  (∀ qualify cs, (∀ k, qualify k ≠ .error .outOfFuel) → 2 * cs.length + 1 < fuel →
    parsePairs host qualify fuel cs ≠ .error .outOfFuel) ∧
  (∀ cs, 2 * cs.length + 1 < fuel → parseTagged host fuel cs ≠ .error .outOfFuel) ∧
  (∀ cs, 2 * cs.length + 1 < fuel → parseVec host fuel cs ≠ .error .outOfFuel)

theorem parseValue_shorter {fuel : ℕ} {cs rest : List Char} {v : Value}
    (h : parseValue host fuel cs = .ok (v, rest)) : rest.length < cs.length :=
  ((sound host fuel).1 _ _ _ h).parse.shorter

theorem skipWs_length (cs : List Char) : (skipWs cs).length ≤ cs.length :=
  (List.dropWhile_sublist _).length_le

theorem parseValue_skipWs (fuel : ℕ) (cs : List Char) :
    parseValue host (fuel + 1) (skipWs cs) = parseValue host (fuel + 1) cs := by
  have hs : skipWs (skipWs cs) = skipWs cs := List.dropWhile_idempotent _ _
  rw [parseValue, parseValue, hs]

theorem fueled_value {fuel : ℕ} (ih : Fueled host fuel) {cs : List Char}
    (hf : 2 * cs.length < fuel + 1) : parseValue host (fuel + 1) cs ≠ .error .outOfFuel := by
  obtain ⟨-, hpairs, htagged, hvec⟩ := ih
  have hl := skipWs_length cs
  rw [parseValue]
  split
  next => exact nofun
  next c t hs =>
    rw [hs, List.length_cons] at hl
    split_ifs
    · exact bind_ne_error (hpairs _ _ nofun (by omega)) fun _ _ => nofun
    · exact bind_ne_error (hvec _ (by omega)) fun _ _ => nofun
    · exact htagged _ (by omega)
    · exact nofun
    · exact nofun
    · unfold matchLiteral
      split_ifs <;> exact nofun
    · unfold matchLiteral
      split_ifs <;> exact nofun
    · unfold matchLiteral
      split_ifs <;> exact nofun
    · unfold parseInt
      split <;> exact nofun
    · exact nofun

theorem fueled_pairs {fuel : ℕ} (ih : Fueled host fuel) {qualify : Value → Except ParseError Value}
    (hq : ∀ k, qualify k ≠ .error .outOfFuel) {cs : List Char}
    (hf : 2 * cs.length + 1 < fuel + 1) :
    parsePairs host qualify (fuel + 1) cs ≠ .error .outOfFuel := by
  obtain ⟨hvalue, hpairs, -, -⟩ := ih
  rw [parsePairs]
  split_ifs
  · exact nofun
  · refine bind_ne_error (hvalue cs (by omega)) fun ⟨k, r⟩ hk => ?_
    have hl := parseValue_shorter hk
    refine bind_ne_error (hq k) fun k' _ => ?_
    refine bind_ne_error (hvalue r (by omega)) fun ⟨x, r'⟩ hx => ?_
    have hl' := parseValue_shorter hx
    exact bind_ne_error (hpairs qualify r' hq (by omega)) fun _ _ => nofun

theorem qualifyKey_ne (ns : String) (k : Value) : qualifyKey ns k ≠ .error .outOfFuel := by
  cases k <;> exact nofun

theorem fueled_tagged {fuel : ℕ} (ih : Fueled host fuel) {cs : List Char}
    (hf : 2 * cs.length + 1 < fuel + 1) : parseTagged host (fuel + 1) cs ≠ .error .outOfFuel := by
  obtain ⟨-, hpairs, -, -⟩ := ih
  unfold parseTagged
  split
  next cs =>
    have hd := (List.dropWhile_sublist (symbolChar host) (l := cs)).length_le
    have hs := skipWs_length (cs.dropWhile (symbolChar host))
    split
    next t ht =>
      rw [ht] at hs
      rw [List.length_cons] at hs hf
      exact bind_ne_error (hpairs _ t (qualifyKey_ne _) (by omega)) fun _ _ => nofun
    next => exact nofun
  next => exact nofun

theorem fueled_vec {fuel : ℕ} (ih : Fueled host fuel) {cs : List Char}
    (hf : 2 * cs.length + 1 < fuel + 1) : parseVec host (fuel + 1) cs ≠ .error .outOfFuel := by
  obtain ⟨hvalue, -, -, hvec⟩ := ih
  rw [parseVec]
  split_ifs
  · exact nofun
  · refine bind_ne_error (hvalue cs (by omega)) fun ⟨x, r⟩ hx => ?_
    have hl := parseValue_shorter hx
    exact bind_ne_error (hvec r (by omega)) fun _ _ => nofun

theorem fueled (host : Alphabet) (fuel : ℕ) : Fueled host fuel := by
  induction fuel with
  | zero =>
    exact ⟨fun _ h => absurd h (Nat.not_lt_zero _), fun _ _ _ h => absurd h (Nat.not_lt_zero _),
      fun _ h => absurd h (Nat.not_lt_zero _), fun _ h => absurd h (Nat.not_lt_zero _)⟩
  | succ fuel ih =>
    exact ⟨fun _ => fueled_value ih, fun _ _ hq => fueled_pairs ih hq, fun _ => fueled_tagged ih,
      fun _ => fueled_vec ih⟩

theorem parse_ne_outOfFuel (host : Alphabet) (t : String) : parse host t ≠ .error .outOfFuel := by
  intro h
  have hl := skipWs_length t.toList
  cases hv : parseValue host (2 * t.toList.length + 1) (skipWs t.toList) with
  | error e =>
    rw [parse, hv] at h
    cases h
    exact (fueled host _).1 _ (by omega) hv
  | ok r =>
    rw [parse, hv] at h
    cases h

/-! ## the parser decides the grammar -/

theorem parse_ok_iff {t : String} {v : Value} :
    parse host t = .ok v ↔ ∃ rest, Reads host t.toList v rest := by
  rw [parse, map_eq_ok]
  constructor
  · rintro ⟨⟨w, rest⟩, h, rfl⟩
    exact ⟨rest, .skipped ((sound host _).1 _ _ _ h)⟩
  · rintro ⟨rest, h⟩
    refine ⟨(v, rest), ?_, rfl⟩
    rw [parseValue_skipWs]
    exact h.parse.parsed _ le_rfl

theorem parse_refuses_iff {t : String} :
    (∃ e, e ≠ .outOfFuel ∧ parse host t = .error e) ↔ ¬ ∃ v rest, Reads host t.toList v rest := by
  have hok : (∃ v rest, Reads host t.toList v rest) ↔ ∃ v, parse host t = .ok v :=
    exists_congr fun v => parse_ok_iff.symm
  rw [hok]
  cases h : parse host t with
  | error e =>
    have hne : e ≠ .outOfFuel := fun he => parse_ne_outOfFuel host t (he ▸ h)
    exact iff_of_true ⟨e, hne, rfl⟩ nofun
  | ok v => exact iff_of_false (fun ⟨_, _, h⟩ => nomatch h) fun hn => hn ⟨v, rfl⟩

end

end PRF.Edn
