import ProtocolRobustness.Canonical.Encoding
import ProtocolRobustness.Library.SelfDelimiting

/-!
# The canonical bytes determine the value

The encoder is a self-delimiting code on normal values: whatever follows, a reader finds the end
of the word and the value in it.  Numbers, lengths and frames are read first (`varuint_delimits`,
`stringBytes_delimits`, `keyBytes_delimits`); a vector reads as many words as its length says; the
entries of a normal map are already in the order the encoder puts them in.

* `canonicalBytes_delimits`   the code property, by induction on the value;
* `canonicalBytes_injective`  normal values with the same bytes are equal;
* `canonicalBytes_map_perm`   the bytes of a map do not depend on its iteration order.
-/

namespace PRF
open Bytes Code

/-! ## numbers -/

theorem varuint_small {n : ℕ} (h : n / 128 = 0) : varuint n = [UInt8.ofNat (n % 128)] := by
  rw [varuint, if_pos h]

theorem varuint_big {n : ℕ} (h : n / 128 ≠ 0) :
    varuint n = UInt8.ofNat (n % 128 + 128) :: varuint (n / 128) := by
  rw [varuint, if_neg h]

theorem ofNat_inj {a b : ℕ} (ha : a < 256) (hb : b < 256) (h : UInt8.ofNat a = UInt8.ofNat b) :
    a = b := by
  have h' := congrArg UInt8.toNat h
  rw [UInt8.toNat_ofNat', UInt8.toNat_ofNat'] at h'
  omega

theorem varuint_delimits (n : ℕ) : Delimits (fun _ => True) varuint n := by
  induction n using Nat.strongRecOn with
  | ind n ih =>
    intro m _ s t h
    by_cases hn : n / 128 = 0 <;> by_cases hm : m / 128 = 0
    · rw [varuint_small hn, varuint_small hm] at h
      have e := ofNat_inj (by omega) (by omega) (List.head_eq_of_cons_eq h)
      exact ⟨by omega, List.tail_eq_of_cons_eq h⟩
    · rw [varuint_small hn, varuint_big hm] at h
      have e := ofNat_inj (by omega) (by omega) (List.head_eq_of_cons_eq h)
      omega
    · rw [varuint_big hn, varuint_small hm] at h
      have e := ofNat_inj (by omega) (by omega) (List.head_eq_of_cons_eq h)
      omega
    · rw [varuint_big hn, varuint_big hm] at h
      have e := ofNat_inj (by omega) (by omega) (List.head_eq_of_cons_eq h)
      obtain ⟨e1, e2⟩ := ih (n / 128) (by omega) (m / 128) trivial s t (List.tail_eq_of_cons_eq h)
      exact ⟨by omega, e2⟩

theorem zigzag_injective : Function.Injective zigzag := by
  intro a b h
  unfold zigzag at h
  split at h <;> split at h <;> omega

/-! ## strings and keys -/

theorem utf8_injective : Function.Injective utf8 := by
  intro a b h
  have h1 : a.toUTF8.data = b.toUTF8.data := Array.toList_inj.mp h
  exact String.toByteArray_inj.mp (ByteArray.ext h1)

theorem stringBytes_delimits {a b : String} {s t : ByteString}
    (h : stringBytes a ++ s = stringBytes b ++ t) : a = b ∧ s = t := by
  obtain ⟨e, e'⟩ := framed varuint_delimits (utf8 a) (utf8 b) trivial s t
    (List.tail_eq_of_cons_eq h)
  exact ⟨utf8_injective e, e'⟩

theorem keywordBytes_delimits {a b : Keyword} {s t : ByteString}
    (h : keywordBytes a ++ s = keywordBytes b ++ t) : a = b ∧ s = t := by
  obtain ⟨e, e'⟩ := framed varuint_delimits (utf8 a.spelling) (utf8 b.spelling) trivial s t
    (List.tail_eq_of_cons_eq h)
  exact ⟨Keyword.spelling_injective (utf8_injective e), e'⟩

theorem keyBytes_delimits (k : Key) : Delimits (fun _ => True) keyBytes k := by
  intro l _ s t h
  cases k with
  | str a =>
    cases l with
    | str b =>
      obtain ⟨e, e'⟩ := stringBytes_delimits h
      exact ⟨by rw [e], e'⟩
    | kw b => exact absurd (List.head_eq_of_cons_eq h) (by decide)
  | kw a =>
    cases l with
    | str b => exact absurd (List.head_eq_of_cons_eq h) (by decide)
    | kw b =>
      obtain ⟨e, e'⟩ := keywordBytes_delimits h
      exact ⟨by rw [e], e'⟩

theorem keyBytes_injective : Function.Injective keyBytes := fun k _ h =>
  (keyBytes_delimits k).eq trivial h

/-! ## maps -/

def entryWord (e : Key × Value) : ByteString := keyBytes e.1 ++ canonicalBytes e.2

theorem sortEntries_normal {es : List (Key × Value)}
    (h : es.Pairwise fun e f => compareBytes (keyBytes e.1) (keyBytes f.1) = .lt) :
    sortEntries (entryBytes es) = entryBytes es := by
  apply List.Pairwise.insertionSort_eq
  rw [entryBytes_eq]
  refine List.Pairwise.map _ (fun e f hef => ?_) h
  show compareBytes (keyBytes e.1) (keyBytes f.1) ≠ .gt
  rw [hef]
  decide

theorem mapBytes_normal {es : List (Key × Value)}
    (h : es.Pairwise fun e f => compareBytes (keyBytes e.1) (keyBytes f.1) = .lt) :
    canonicalBytes (.map es) = 0x31 :: (varuint es.length ++ es.flatMap entryWord) := by
  rw [canonicalBytes, sortEntries_normal h, entryBytes_eq, List.flatMap_map]
  rfl

/-- **The bytes of a map do not depend on its iteration order.** -/
theorem canonicalBytes_map_perm {es fs : List (Key × Value)} (hp : es.Perm fs)
    (hk : (es.map Prod.fst).Nodup) : canonicalBytes (.map es) = canonicalBytes (.map fs) := by
  have hs : sortEntries (entryBytes es) = sortEntries (entryBytes fs) := by
    rw [entryBytes_eq, entryBytes_eq]
    refine sort_unique _ (hp.map _) ?_
    intro a ha b hb hab
    obtain ⟨e, he, rfl⟩ := List.mem_map.mp ha
    obtain ⟨f, hf, rfl⟩ := List.mem_map.mp hb
    have hef : e = f := List.inj_on_of_nodup_map hk he hf (keyBytes_injective hab)
    rw [hef]
  rw [canonicalBytes, canonicalBytes, hs, hp.length_eq]

/-! ## values -/

def tagByte : Value → UInt8
  | .null => 0x00
  | .bool false => 0x01
  | .bool true => 0x02
  | .int _ => 0x10
  | .str _ => 0x20
  | .kw _ => 0x22
  | .vec _ => 0x30
  | .map _ => 0x31

theorem canonicalBytes_tag (v : Value) : ∃ w, canonicalBytes v = tagByte v :: w := by
  cases v with
  | bool b => cases b <;> exact ⟨[], by rw [canonicalBytes]; rfl⟩
  | null => exact ⟨[], by rw [canonicalBytes]; rfl⟩
  | int n => exact ⟨_, by rw [canonicalBytes]; rfl⟩
  | str s => exact ⟨_, by rw [canonicalBytes]; rfl⟩
  | kw k => exact ⟨_, by rw [canonicalBytes]; rfl⟩
  | vec xs => exact ⟨_, by rw [canonicalBytes]; rfl⟩
  | map es => exact ⟨_, by rw [canonicalBytes]; rfl⟩

theorem tag_eq {a b : Value} {s t : ByteString}
    (h : canonicalBytes a ++ s = canonicalBytes b ++ t) : tagByte a = tagByte b := by
  obtain ⟨w, hw⟩ := canonicalBytes_tag a
  obtain ⟨w', hw'⟩ := canonicalBytes_tag b
  rw [hw, hw'] at h
  exact List.head_eq_of_cons_eq h

/-- **The encoder is a self-delimiting code on normal values.** -/
theorem canonicalBytes_delimits (v : Value) (hv : Normal v) :
    Delimits Normal canonicalBytes v := by
  induction v using Value.induct with
  | null =>
    intro b _ s t h
    have ht := tag_eq h
    cases b with
    | null => exact ⟨rfl, List.append_cancel_left h⟩
    | bool b => cases b <;> exact absurd ht (by simp [tagByte])
    | int _ | str _ | kw _ | vec _ | map _ => exact absurd ht (by simp [tagByte])
  | bool x =>
    intro b _ s t h
    have ht := tag_eq h
    cases b with
    | bool y =>
      cases x <;> cases y
      · exact ⟨rfl, List.append_cancel_left h⟩
      · exact absurd ht (by decide)
      · exact absurd ht (by decide)
      · exact ⟨rfl, List.append_cancel_left h⟩
    | null | int _ | str _ | kw _ | vec _ | map _ =>
      cases x <;> exact absurd ht (by simp [tagByte])
  | int n =>
    intro b _ s t h
    have ht := tag_eq h
    cases b with
    | int m =>
      rw [canonicalBytes, canonicalBytes] at h
      obtain ⟨e, e'⟩ := varuint_delimits (zigzag n) (zigzag m) trivial s t
        (List.tail_eq_of_cons_eq h)
      exact ⟨by rw [zigzag_injective e], e'⟩
    | bool b => cases b <;> exact absurd ht (by simp [tagByte])
    | null | str _ | kw _ | vec _ | map _ => exact absurd ht (by simp [tagByte])
  | str x =>
    intro b _ s t h
    have ht := tag_eq h
    cases b with
    | str y =>
      rw [canonicalBytes, canonicalBytes] at h
      obtain ⟨e, e'⟩ := stringBytes_delimits h
      exact ⟨by rw [e], e'⟩
    | bool b => cases b <;> exact absurd ht (by simp [tagByte])
    | null | int _ | kw _ | vec _ | map _ => exact absurd ht (by simp [tagByte])
  | kw x =>
    intro b _ s t h
    have ht := tag_eq h
    cases b with
    | kw y =>
      rw [canonicalBytes, canonicalBytes] at h
      obtain ⟨e, e'⟩ := keywordBytes_delimits h
      exact ⟨by rw [e], e'⟩
    | bool b => cases b <;> exact absurd ht (by simp [tagByte])
    | null | int _ | str _ | vec _ | map _ => exact absurd ht (by simp [tagByte])
  | vec xs ih =>
    intro b hb s t h
    have ht := tag_eq h
    cases b with
    | vec ys =>
      cases hv with
      | vec hx =>
        cases hb with
        | vec hy =>
          rw [canonicalBytes, canonicalBytes, itemBytes_eq, itemBytes_eq, List.cons_append,
            List.cons_append, List.append_assoc, List.append_assoc] at h
          have h0 := List.tail_eq_of_cons_eq h
          obtain ⟨el, h1⟩ := varuint_delimits _ _ trivial _ _ h0
          obtain ⟨e, e'⟩ := Delimits.flatMap xs (fun x hx' => ih x hx' (hx x hx')) ys hy el _ _ h1
          exact ⟨by rw [e], e'⟩
    | bool b => cases b <;> exact absurd ht (by simp [tagByte])
    | null | int _ | str _ | kw _ | map _ => exact absurd ht (by simp [tagByte])
  | map es ih =>
    intro b hb s t h
    have ht := tag_eq h
    cases b with
    | map fs =>
      cases hv with
      | map hk hx =>
        cases hb with
        | map hk' hy =>
          rw [mapBytes_normal hk, mapBytes_normal hk', List.cons_append, List.cons_append,
            List.append_assoc, List.append_assoc] at h
          have h0 := List.tail_eq_of_cons_eq h
          obtain ⟨el, h1⟩ := varuint_delimits _ _ trivial _ _ h0
          obtain ⟨e, e'⟩ := Delimits.flatMap es
            (fun e he => (keyBytes_delimits e.1).pair (ih e he (hx e he))) fs
            (fun f hf => ⟨trivial, hy f hf⟩) el _ _ h1
          exact ⟨by rw [e], e'⟩
    | bool b => cases b <;> exact absurd ht (by simp [tagByte])
    | null | int _ | str _ | kw _ | vec _ => exact absurd ht (by simp [tagByte])

theorem canonicalBytes_injective {a b : Value} (ha : Normal a) (hb : Normal b)
    (h : canonicalBytes a = canonicalBytes b) : a = b :=
  (canonicalBytes_delimits a ha).eq hb h

/-! ## maps in any order -/

theorem exists_normal {es : List (Key × Value)} (hk : (es.map Prod.fst).Nodup)
    (h : ∀ e ∈ es, Normal e.2) : ∃ fs, es.Perm fs ∧ Normal (.map fs) := by
  have hp := (List.perm_insertionSort (byKey fun e : Key × Value => keyBytes e.1) es).symm
  refine ⟨_, hp, Normal.map ?_ fun e he => h e (hp.mem_iff.mpr he)⟩
  have hs := List.pairwise_insertionSort (byKey fun e : Key × Value => keyBytes e.1) es
  have hn : ((es.insertionSort (byKey fun e : Key × Value => keyBytes e.1)).map Prod.fst).Nodup :=
    (hp.map Prod.fst).nodup_iff.mp hk
  rw [List.Nodup, List.pairwise_map] at hn
  refine (hs.and hn).imp fun {e f} hef => ?_
  have hle : compareBytes (keyBytes e.1) (keyBytes f.1) ≠ .gt := hef.1
  have hne : compareBytes (keyBytes e.1) (keyBytes f.1) ≠ .eq := fun he =>
    hef.2 (keyBytes_injective ((compareBytes_eq_iff _ _).mp he))
  cases hc : compareBytes (keyBytes e.1) (keyBytes f.1) with
  | lt => rfl
  | eq => exact absurd hc hne
  | gt => exact absurd hc hle

end PRF
