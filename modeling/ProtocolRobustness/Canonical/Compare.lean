import Mathlib.Data.Prod.Lex
import Mathlib.Order.WithBot
import ProtocolRobustness.Canonical.Value
import ProtocolRobustness.Library.SelfDelimiting

/-!
# The order of strings and keywords

`compare` of the host: strings by their UTF-16 code units, keywords by namespace and then by name.

* `utf16`             the code units of a string, which determine it;
* `notAfter`          `(compare a b)` of strings is not positive;
* `keywordNotAfter`   the same of keywords.
-/

namespace PRF
open Code

/-! ## strings -/

def codeUnits (c : Char) : List ℕ :=
  if c.toNat < 0x10000 then [c.toNat]
  else [0xd800 + (c.toNat - 0x10000) / 0x400, 0xdc00 + (c.toNat - 0x10000) % 0x400]

/-- the UTF-16 code units of a string -/
def utf16 (s : String) : List ℕ := s.toList.flatMap codeUnits

theorem toNat_injective {c d : Char} (h : c.toNat = d.toNat) : c = d :=
  Char.ext (UInt32.toNat_inj.mp h)

theorem scalar_range (c : Char) : c.toNat < 0xd800 ∨ 0xdfff < c.toNat ∧ c.toNat < 0x110000 :=
  c.valid

theorem codeUnits_ne_nil (c : Char) : codeUnits c ≠ [] := by
  unfold codeUnits
  split <;> exact List.cons_ne_nil _ _

theorem codeUnits_delimits (c : Char) : Delimits (fun _ => True) codeUnits c := by
  intro d _ s t h
  have hc := scalar_range c
  have hd := scalar_range d
  unfold codeUnits at h
  by_cases h1 : c.toNat < 0x10000 <;> by_cases h2 : d.toNat < 0x10000
  · rw [if_pos h1, if_pos h2] at h
    obtain ⟨hn, hs⟩ := List.cons.inj h
    exact ⟨toNat_injective hn, hs⟩
  · rw [if_pos h1, if_neg h2] at h
    have hn := (List.cons.inj h).1
    omega
  · rw [if_neg h1, if_pos h2] at h
    have hn := (List.cons.inj h).1
    omega
  · rw [if_neg h1, if_neg h2] at h
    obtain ⟨hn, hs⟩ := List.cons.inj h
    obtain ⟨hm, hs⟩ := List.cons.inj hs
    exact ⟨toNat_injective (by omega), hs⟩

theorem utf16_injective : Function.Injective utf16 := fun _ _ h =>
  String.toList_inj.mp (Delimits.flatMap_injective codeUnits_delimits codeUnits_ne_nil h)

def notAfter (a b : String) : Prop := utf16 a ≤ utf16 b

instance : DecidableRel notAfter := fun a b => inferInstanceAs (Decidable (utf16 a ≤ utf16 b))

instance : Std.Total notAfter where
  total a b := le_total (utf16 a) (utf16 b)

instance : IsTrans String notAfter where
  trans _ _ _ h h' := le_trans (α := List ℕ) h h'

/-! ## keywords -/

/-- a keyword without a namespace is before all others -/
def keywordRank (k : Keyword) : Lex (WithBot (List ℕ) × List ℕ) :=
  toLex (k.ns.map utf16, utf16 k.name)

theorem keywordRank_injective : Function.Injective keywordRank := by
  rintro ⟨ns, n, hn⟩ ⟨ms, m, hm⟩ h
  obtain ⟨h1, h2⟩ := Prod.mk.inj (toLex.injective h)
  obtain rfl := utf16_injective h2
  obtain rfl := Option.map_injective utf16_injective h1
  rfl

def keywordNotAfter (a b : Keyword) : Prop := keywordRank a ≤ keywordRank b

instance : DecidableRel keywordNotAfter := fun a b =>
  inferInstanceAs (Decidable (keywordRank a ≤ keywordRank b))

instance : Std.Total keywordNotAfter where
  total a b := le_total (keywordRank a) (keywordRank b)

instance : IsTrans Keyword keywordNotAfter where
  trans _ _ _ h h' := le_trans (α := Lex (WithBot (List ℕ) × List ℕ)) h h'

theorem keywordNotAfter_antisymm {a b : Keyword} (h : keywordNotAfter a b)
    (h' : keywordNotAfter b a) : a = b :=
  keywordRank_injective (le_antisymm h h')

end PRF
