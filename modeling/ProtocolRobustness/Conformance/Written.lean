import ProtocolRobustness.Conformance.Legible

/-!
# Which values the verifier reads back as Clojure wrote them

* `Reads.clean`     whatever is read from a text without form feed and backspace is spelled so;
* `write_clean`     such a text is what the writer gives;
* `readsBack_iff`   a value is read back exactly when it is tame;
* `verifier_reads_iff`   what the verifier reads back, and what it refuses.
-/

namespace PRF.Edn
open Fallible

section
variable {host : Alphabet}

/-! ## what a text without the two controls is read as -/

/-- neither the form feed nor the backspace -/
def Clean (cs : List Char) : Prop := '\x0c' ∉ cs ∧ '\x08' ∉ cs

instance (cs : List Char) : Decidable (Clean cs) := inferInstanceAs (Decidable (_ ∧ _))

theorem clean_append {cs ds : List Char} : Clean (cs ++ ds) ↔ Clean cs ∧ Clean ds := by
  simp only [Clean, List.mem_append, not_or]
  tauto

theorem clean_cons {c : Char} {cs : List Char} : Clean (c :: cs) ↔ Clean [c] ∧ Clean cs := by
  show Clean ([c] ++ cs) ↔ _
  exact clean_append

theorem clean_of_symbolic {cs : List Char} (h : ∀ c ∈ cs, symbolic host c ∨ c = '/') :
    Clean cs := by
  constructor <;> intro hc
  · rcases h _ hc with hs | hs
    · exact (symbolic_controls hs).1 rfl
    · exact absurd hs (by decide)
  · rcases h _ hc with hs | hs
    · exact (symbolic_controls hs).2 rfl
    · exact absurd hs (by decide)

theorem unescape_clean {c : Char} (h : Clean [c]) : Clean [unescape c] := by
  unfold unescape
  split
  · decide
  · decide
  · decide
  · exact h

theorem Quoted.clean {cs s rest : List Char} (h : Quoted cs s rest) (hc : Clean cs) :
    Clean s ∧ Clean rest := by
  induction h with
  | close rest => exact ⟨⟨nofun, nofun⟩, (clean_cons.mp hc).2⟩
  | cut => exact ⟨hc, hc⟩
  | stray => exact ⟨⟨nofun, nofun⟩, ⟨nofun, nofun⟩⟩
  | escape c h ih =>
    obtain ⟨hl, hcs⟩ := clean_cons.mp (clean_cons.mp hc).2
    obtain ⟨hs, hr⟩ := ih hcs
    exact ⟨clean_cons.mpr ⟨unescape_clean hl, hs⟩, hr⟩
  | letter _ _ h ih =>
    obtain ⟨hl, hcs⟩ := clean_cons.mp hc
    obtain ⟨hs, hr⟩ := ih hcs
    exact ⟨clean_cons.mpr ⟨hl, hs⟩, hr⟩

/-- a value spelled as the reader spells, and what is left of a clean text -/
def SpelledFrom (host : Alphabet) (cs : List Char) (v : Value) (rest : List Char) : Prop :=
  Clean cs → Spelled TameString (Legible host) v ∧ Clean rest

theorem SpelledFrom.seq {close : Char} {cs : List Char} {xs : List Value} {rest : List Char}
    (h : Seq (SpelledFrom host) close cs xs rest) (hc : Clean cs) :
    (∀ x ∈ xs, Spelled TameString (Legible host) x) ∧ Clean rest := by
  induction h with
  | closed hg rest => exact ⟨nofun, (clean_cons.mp (clean_append.mp hc).2).2⟩
  | cons h hs ih =>
    obtain ⟨hx, hcs⟩ := h hc
    obtain ⟨hxs, hr⟩ := ih hcs
    exact ⟨List.forall_mem_cons.mpr ⟨hx, hxs⟩, hr⟩

theorem legible_append {ns name : String} (hns : Legible host ns) (hname : Legible host name) :
    Legible host (ns ++ "/" ++ name) := by
  intro c hc
  rw [Keyword.chars_some] at hc
  rcases List.mem_append.mp hc with hc | hc
  · exact hns c hc
  · rcases List.mem_cons.mp hc with rfl | hc
    · exact keywordChar_iff.mpr (Or.inr rfl)
    · exact hname c hc

theorem legible_ofList {cs : List Char} (h : ∀ c ∈ cs, keywordChar host c) :
    Legible host (String.ofList cs) := by
  intro c hc
  rw [String.toList_ofList] at hc
  exact h c hc

theorem splitKeyword_spelled {text : List Char} (h : ∀ c ∈ text, keywordChar host c) :
    Spelled TameString (Legible host) (splitKeyword text) := by
  unfold splitKeyword
  split_ifs
  · refine .keyword (legible_append (legible_ofList ?_) (legible_ofList ?_))
    · exact fun c hc => h c ((List.takeWhile_sublist _).subset hc)
    · exact fun c hc => h c ((List.dropWhile_sublist _).subset (List.mem_of_mem_tail hc))
  · exact .keyword (legible_ofList h)

theorem qualifyKey_spelled {ns : String} (hns : Legible host ns) {k k' : Value}
    (h : qualifyKey ns k = .ok k') (hk : Spelled TameString (Legible host) k) :
    Spelled TameString (Legible host) k' := by
  cases k with
  | keyword own name =>
    cases h
    cases own with
    | none => exact .keyword (legible_append hns (spelled_keyword_iff.mp hk))
    | some s => exact hk
  | str s => cases h; exact hk
  | nil | bool _ | int _ | vec _ | map _ => cases h

theorem keyed_spelled {ns : String} (hns : Legible host ns) {es fs : List (Value × Value)}
    (hk : Keyed (qualifyKey ns) es fs)
    (h : ∀ x ∈ flat es, Spelled TameString (Legible host) x) :
    Spelled TameString (Legible host) (.map fs) := by
  rw [spelled_map_iff]
  intro f hf
  obtain ⟨e, he, hkey, hval⟩ := exists_of_mem_right hk hf
  have hmem : ∀ x ∈ [e.1, e.2], x ∈ flat es := fun x hx => List.mem_flatMap.mpr ⟨e, he, hx⟩
  refine ⟨qualifyKey_spelled hns hkey (h _ (hmem _ (by simp))), ?_⟩
  rw [← hval]
  exact h _ (hmem _ (by simp))

/-- **Whatever is read from a clean text has clean strings and legible keywords.** -/
theorem Reads.clean {cs : List Char} {v : Value} {rest : List Char} (h : Reads host cs v rest) :
    SpelledFrom host cs v rest := by
  refine Reads.induct ?gap ?nil ?tt ?ff ?int ?str ?keyword ?vec ?map ?nsMap h
  case gap => exact fun c cs v rest _ h hc => h (clean_cons.mp hc).2
  case nil =>
    exact fun rest hc => ⟨.nil, ((@clean_append ['n', 'i', 'l'] rest).mp hc).2⟩
  case tt =>
    exact fun rest hc => ⟨.bool true, ((@clean_append ['t', 'r', 'u', 'e'] rest).mp hc).2⟩
  case ff =>
    exact fun rest hc => ⟨.bool false, ((@clean_append ['f', 'a', 'l', 's', 'e'] rest).mp hc).2⟩
  case int => exact fun text rest n _ _ hc => ⟨.int n, (clean_append.mp hc).2⟩
  case str =>
    intro cs s rest h hc
    obtain ⟨hs, hr⟩ := h.clean (clean_cons.mp hc).2
    refine ⟨.str ?_, hr⟩
    show Clean (String.ofList s).toList
    rw [String.toList_ofList]
    exact hs
  case keyword =>
    exact fun text rest h hc =>
      ⟨splitKeyword_spelled h.1, (clean_append.mp (clean_cons.mp hc).2).2⟩
  case vec =>
    intro cs xs rest h hc
    obtain ⟨hxs, hr⟩ := SpelledFrom.seq h (clean_cons.mp hc).2
    exact ⟨.vec hxs, hr⟩
  case map =>
    intro cs es rest h hc
    obtain ⟨hxs, hr⟩ := SpelledFrom.seq h (clean_cons.mp hc).2
    have hm : ∀ e ∈ es, ∀ x ∈ [e.1, e.2], x ∈ flat es :=
      fun e he x hx => List.mem_flatMap.mpr ⟨e, he, hx⟩
    refine ⟨.map (fun e he => hxs _ (hm e he _ (by simp))) fun e he => ?_, hr⟩
    exact hxs _ (hm e he _ (by simp))
  case nsMap =>
    intro ns gap cs es fs rest hn hg h hk hc
    have hcs := (clean_append.mp (clean_append.mp (clean_cons.mp (clean_cons.mp hc).2).2).2).2
    obtain ⟨hxs, hr⟩ := SpelledFrom.seq h (clean_cons.mp hcs).2
    have hns : Legible host (String.ofList ns) :=
      legible_ofList fun c hc => keywordChar_iff.mpr (Or.inl (hn.1 c hc))
    exact ⟨keyed_spelled hns hk hxs, hr⟩

/-! ## what is written is clean -/

theorem escape_clean (cs : List Char) : Clean (cs.flatMap escape) := by
  have hall : escapes.all fun p => Clean ['\\', p.1] := by decide
  induction cs with
  | nil => exact ⟨nofun, nofun⟩
  | cons c cs ih =>
    rw [List.flatMap_cons]
    refine clean_append.mpr ⟨?_, ih⟩
    rcases escape_cases c with ⟨e, he, hc⟩ | ⟨hn, hc⟩
    · rw [hc]
      exact of_decide_eq_true (List.all_eq_true.mp hall _ he)
    · rw [hc]
      constructor <;> intro hm <;> rw [List.mem_singleton] at hm
      · exact hn 'f' (by rw [← hm]; decide)
      · exact hn 'b' (by rw [← hm]; decide)

theorem writeString_clean (s : String) : Clean (writeString s) :=
  clean_cons.mpr ⟨by decide, clean_append.mpr ⟨escape_clean _, by decide⟩⟩

theorem writeInt_clean (n : ℤ) : Clean (writeInt n) := by
  have hd : Clean (Nat.toDigits 10 n.natAbs) := by
    constructor <;> intro hm <;> exact absurd (toDigits_isDigit _ _ hm) (by decide)
  unfold writeInt
  split_ifs
  · exact clean_cons.mpr ⟨by decide, hd⟩
  · exact hd

theorem intercalate_clean {sep : List Char} (hs : Clean sep) {ws : List (List Char)}
    (h : ∀ w ∈ ws, Clean w) : Clean (sep.intercalate ws) := by
  have hrow : List.Forall₂ (fun w (_ : List Unit) => ∀ (_ : List Unit) u, True → Clean u →
      Clean (w ++ u)) ws (ws.map fun _ => []) := by
    rw [List.forall₂_map_right_iff, List.forall₂_same]
    exact fun w hw _ u _ hu => clean_append.mpr ⟨h w hw, hu⟩
  have hr := intercalate_rule (Q := fun _ u => Clean u) (T := fun _ => True) []
    ⟨⟨nofun, nofun⟩, trivial⟩ (fun _ u hu => ⟨clean_append.mpr ⟨hs, hu⟩, trivial⟩) hrow
  rw [List.append_nil] at hr
  exact hr

theorem writeKey_clean {lifted : Bool} {k : Key} (h : LegalKey host k) :
    Clean (writeKey lifted k) := by
  cases k with
  | str s => exact writeString_clean s
  | kw k =>
    have hk : LegalKeyword host k := h
    refine clean_cons.mpr ⟨by decide, ?_⟩
    cases lifted with
    | true => exact clean_of_symbolic fun c hc => Or.inl (hk.name.letters c hc)
    | false => exact clean_of_symbolic hk.letters

theorem write_clean {nsMaps : Bool} {v : PRF.Value} (h : Portable host v) :
    Clean (write nsMaps v) := by
  induction h with
  | null => rw [write]; decide
  | bool b => cases b <;> rw [write] <;> decide
  | int h => rw [write]; exact writeInt_clean _
  | str s => rw [write]; exact writeString_clean s
  | kw h => rw [write]; exact clean_cons.mpr ⟨by decide, clean_of_symbolic h.letters⟩
  | @vec xs h ih =>
    rw [write, writeItems_eq]
    refine clean_cons.mpr ⟨by decide, clean_append.mpr ⟨?_, by decide⟩⟩
    exact intercalate_clean (by decide) (List.forall_mem_map.mpr ih)
  | @map es distinct hk h ih =>
    have hws : ∀ lifted, Clean ([',', ' '].intercalate
        (es.map fun e => writeKey lifted e.1 ++ ' ' :: write nsMaps e.2)) := by
      refine fun lifted => intercalate_clean (by decide) (List.forall_mem_map.mpr fun e he => ?_)
      exact clean_append.mpr ⟨writeKey_clean (hk e he), clean_cons.mpr ⟨by decide, ih e he⟩⟩
    rcases write_map nsMaps es with ⟨ns, hl, he⟩ | he
    · obtain ⟨e, hmem⟩ : ∃ e, e ∈ es := by
        cases es with
        | nil => cases hl
        | cons e es => exact ⟨e, List.mem_cons_self⟩
      obtain ⟨k, hke, hns⟩ := liftNs_key hl e.1 (List.mem_map_of_mem hmem)
      have hlegal := hk e hmem
      rw [hke] at hlegal
      have hn : Clean ns.toList :=
        clean_of_symbolic fun c hc => Or.inl ((hlegal.ns ns hns).letters c hc)
      rw [he]
      refine clean_cons.mpr ⟨by decide, clean_cons.mpr ⟨by decide, clean_append.mpr ⟨hn, ?_⟩⟩⟩
      exact clean_cons.mpr ⟨by decide, clean_append.mpr ⟨hws true, by decide⟩⟩
    · rw [he]
      exact clean_cons.mpr ⟨by decide, clean_append.mpr ⟨hws false, by decide⟩⟩

/-! ## values that are read back -/

/-- what is written is read, and encoded to the bytes of the value -/
def ReadsBack (host : Alphabet) (nsMaps : Bool) (v : PRF.Value) : Prop :=
  ∃ w, parse host (String.ofList (write nsMaps v)) = .ok w ∧ canonicalBytes w = PRF.canonicalBytes v

theorem parse_write_append {nsMaps : Bool} {v : PRF.Value} (h : Portable host v) (ht : Tame v)
    {trail : List Char} (hr : Terminated host trail) :
    parse host (String.ofList (write nsMaps v ++ trail)) = .ok (ofValue v) := by
  refine parse_ok_iff.mpr ⟨trail, ?_⟩
  rw [String.toList_ofList]
  exact reads_write h ht hr

theorem readsBack_iff {nsMaps : Bool} {v : PRF.Value} (h : Portable host v) :
    ReadsBack host nsMaps v ↔ Tame v := by
  have hbytes := canonicalBytes_ofValue h.within64
  constructor
  · rintro ⟨w, hw, hb⟩
    obtain ⟨rest, hr⟩ := parse_ok_iff.mp hw
    rw [String.toList_ofList] at hr
    have hs := (hr.clean (write_clean h)).1
    rw [tame_iff h]
    exact (spelled_iff_of_canonicalBytes (hb.trans hbytes.symm)).mp hs
  · intro ht
    have hp := @parse_write_append host nsMaps v h ht [] nofun
    rw [List.append_nil] at hp
    exact ⟨ofValue v, hp, hbytes⟩

/-! ## texts that are refused -/

/-- the parser returns an error -/
def Refused (host : Alphabet) (t : String) : Prop :=
  ∃ e, e ≠ .outOfFuel ∧ parse host t = .error e

/-- a value as the reader takes it stands at the head of the text -/
def Lenient (host : Alphabet) (cs : List Char) : Prop := ∃ v rest, Reads host cs v rest

theorem refused_iff {t : String} : Refused host t ↔ ¬ Lenient host t.toList := parse_refuses_iff

end

/-- **What the verifier reads back, and what it refuses.**  A value of the domain comes back with
its bytes exactly when it is tame; a text that is not one EDN value is refused exactly when no
value as the reader takes it stands at its head. -/
theorem verifier_reads_iff (host : Alphabet) :
    (∀ nsMaps v, Portable host v → (ReadsBack host nsMaps v ↔ Tame v)) ∧
    (∀ t : String, (¬ IsEdn host t.toList → Refused host t)
      ↔ IsEdn host t.toList ∨ ¬ Lenient host t.toList) := by
  refine ⟨fun nsMaps v h => readsBack_iff h, fun t => ?_⟩
  rw [refused_iff]
  tauto

/-- `{:n/a [-5 "x\ny"]}` -/
def sampleMap : PRF.Value :=
  .map [(.kw ⟨some "n", "a", by decide⟩, .vec [.int (-5), .str "x\ny"])]

theorem sampleMap_portable : Portable .plain sampleMap := by
  refine .map (by decide) (List.forall_mem_singleton.mpr ⟨?_, ?_⟩)
    (List.forall_mem_singleton.mpr (.vec ?_))
  · intro s hs
    cases hs
    exact ⟨by decide, by decide, by decide, by decide⟩
  · exact ⟨by decide, by decide, by decide, by decide⟩
  · exact List.forall_mem_cons.mpr ⟨.int (by decide), List.forall_mem_singleton.mpr (.str _)⟩

theorem sampleMap_tame : Tame sampleMap := by
  refine .map (List.forall_mem_singleton.mpr ?_) (List.forall_mem_singleton.mpr (.vec ?_))
  · have hall : "n/a".toList.all fun c => !outside.contains c := by decide
    intro c hc
    have hn := List.all_eq_true.mp hall c hc
    rw [Bool.not_eq_true', List.contains_eq_mem, decide_eq_false_iff_not] at hn
    exact hn
  · have hs : TameString "x\ny" := ⟨by decide, by decide⟩
    exact List.forall_mem_cons.mpr ⟨.int _, List.forall_mem_singleton.mpr (.str hs)⟩

theorem verifier_reads_iff_sample : ReadsBack .plain true sampleMap ∧
    (¬ IsEdn .plain "[1".toList → Refused .plain "[1") := by
  have hrefused : Refused .plain "[1" := ⟨.unexpectedEnd, nofun, rfl⟩
  exact ⟨((verifier_reads_iff .plain).1 true _ sampleMap_portable).mpr sampleMap_tame,
    ((verifier_reads_iff .plain).2 "[1").mpr (Or.inr (refused_iff.mp hrefused))⟩

theorem Gap.head {host : Alphabet} {c : Char} {cs : List Char} (h : Gap host (c :: cs)) :
    Edn.blank c ∨ c = ';' ∨ c = '#' := by
  cases h with
  | blank hc h => exact Or.inl hc
  | comment hb h => exact Or.inr (Or.inl rfl)
  | discard hg hu he h => exact Or.inr (Or.inr rfl)

theorem Numeral.head {n : ℤ} {u : List Char} (h : Numeral n u) :
    ∃ c cs, u = c :: cs ∧ NumberHead c := by
  cases h with
  | plain n hm =>
    obtain ⟨c, cs, hd⟩ := List.exists_cons_of_ne_nil (Nat.toDigits_ne_nil (n := n) (b := 10))
    have hc : c.isDigit := toDigits_isDigit n c (hd ▸ List.mem_cons_self)
    exact ⟨c, cs ++ _, by rw [hd]; rfl, Or.inl hc⟩
  | plus n hm => exact ⟨_, _, rfl, Or.inr (Or.inr rfl)⟩
  | minus n hm => exact ⟨_, _, rfl, Or.inr (Or.inl rfl)⟩

/-- a text that starts with a quote has another one -/
theorem IsEdn.closed {host : Alphabet} {cs : List Char} (h : IsEdn host ('"' :: cs)) :
    '"' ∈ cs := by
  obtain ⟨v, gap, u, gap', last, hg, hu, -, -, -, he⟩ := h
  cases gap with
  | cons c gap =>
    have hc := hg.head
    rw [← List.head_eq_of_cons_eq he] at hc
    exact absurd hc (by decide)
  | nil =>
    have he' : '"' :: cs = u ++ (gap' ++ last) := he
    cases hu with
    | str hs =>
      rw [List.tail_eq_of_cons_eq he']
      exact List.mem_append_left _ (List.mem_append_right _ List.mem_cons_self)
    | int hn _ =>
      obtain ⟨c, ds, rfl, hc⟩ := hn.head
      rw [← List.head_eq_of_cons_eq he'] at hc
      exact absurd hc (by decide)
    | null | tt | ff | kw _ | vec _ | map _ _ | nsMap _ _ _ _ =>
      exact absurd (List.head_eq_of_cons_eq he') (by decide)

/-- `:a*` -/
def starred : PRF.Value := .kw ⟨none, "a*", by decide⟩

/-- a legal keyword does not come back, and a string without its closing quote is read -/
theorem starred_lost_and_open_string_read : Portable .plain starred ∧
    ¬ ReadsBack .plain false starred ∧ ¬ IsEdn .plain "\"abc".toList ∧
    parse .plain "\"abc" = .ok (.str "abc") := by
  have hp : Portable .plain starred :=
    .kw ⟨nofun, ⟨by decide, by decide, by decide, by decide⟩⟩
  refine ⟨hp, ?_, ?_, rfl⟩
  · rw [readsBack_iff hp]
    intro h
    cases h with
    | kw h => exact h '*' (by decide) (by decide)
  · exact fun h => absurd h.closed (by decide)

end PRF.Edn
