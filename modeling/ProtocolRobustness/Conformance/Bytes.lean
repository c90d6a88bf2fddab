import Mathlib.Data.List.Sort
import ProtocolRobustness.Canonical.Injective
import ProtocolRobustness.Conformance.Edn

/-!
# The canonical bytes of the conformance verifier

`etc/conformance/rust/verify/src/canonical.rs`.  A value of `edn.rs` may hold more than a canonical
value: any key, a key twice, an empty keyword.

* `encodeVaruint`, `zigzag`   the numbers, with shifts and masks on 64 bits;
* `canonicalBytes`            the encoder;
* `ofValue`                   a canonical value as the verifier holds it;
* `canonicalBytes_ofValue`    both encoders agree on it;
* `Spelled`, `canonicalBytes_spelled`   what is asked of every string and keyword of a value is decided
                              by the bytes.
-/

namespace PRF.Edn
open Bytes Code

/-! ## numbers -/

/-- `encode_varuint`: a `u64` as a natural number, which shifts to the right and masks -/
def encodeVaruint (n : ℕ) : ByteString :=
  let b := UInt8.ofNat (n &&& 0x7f)
  if n >>> 7 ≠ 0 then (b ||| 0x80) :: encodeVaruint (n >>> 7) else [b]
termination_by n
decreasing_by
  rw [Nat.shiftRight_eq_div_pow] at *
  omega

def zigzag (n : Int64) : UInt64 := ((n <<< 1) ^^^ (n >>> 63)).toUInt64

theorem or_0x80 {n : ℕ} (h : n < 128) : UInt8.ofNat n ||| 0x80 = UInt8.ofNat (n + 128) := by
  apply UInt8.toNat_inj.mp
  have h80 : (0x80 : UInt8).toNat = 2 ^ 7 * 1 := rfl
  rw [UInt8.toNat_or, UInt8.toNat_ofNat', UInt8.toNat_ofNat', h80, Nat.mod_eq_of_lt (by omega),
    Nat.or_comm, ← Nat.two_pow_add_eq_or_of_lt h]
  omega

theorem encodeVaruint_eq (n : ℕ) : encodeVaruint n = varuint n := by
  induction n using Nat.strongRecOn with
  | ind n ih =>
    have hs : n >>> 7 = n / 128 := Nat.shiftRight_eq_div_pow n 7
    have hm : n &&& 0x7f = n % 128 := Nat.and_two_pow_sub_one_eq_mod n 7
    rw [encodeVaruint, hs, hm]
    by_cases h : n / 128 = 0
    · rw [varuint_small h]
      exact if_neg fun hne => hne h
    · rw [varuint_big h, ← ih (n / 128) (by omega), ← or_0x80 (Nat.mod_lt _ (by decide))]
      exact if_pos h

theorem sshiftRight_all (b : BitVec 64) :
    b.sshiftRight 63 = if b.msb then BitVec.allOnes 64 else 0#64 := by
  have hsmall : ∀ c : BitVec 64, c.msb = false → c >>> 63 = 0#64 := by
    intro c hc
    have hlt : c.toNat < 2 ^ 63 := by
      rw [BitVec.msb_eq_decide, decide_eq_false_iff_not] at hc
      omega
    apply BitVec.eq_of_toNat_eq
    rw [BitVec.toNat_ushiftRight, Nat.shiftRight_eq_div_pow, Nat.div_eq_of_lt hlt]
    rfl
  by_cases hb : b.msb
  · rw [if_pos hb, BitVec.sshiftRight_eq_of_msb_true hb, hsmall _ (by simp [hb])]
    rfl
  · rw [if_neg hb, BitVec.sshiftRight_eq_of_msb_false (by simpa using hb),
      hsmall _ (by simpa using hb)]

theorem zigzag_toNat (n : Int64) : (zigzag n).toNat = PRF.zigzag n.toInt := by
  have hz : (zigzag n).toBitVec = (n.toBitVec <<< 1) ^^^ (n.toBitVec.sshiftRight 63) := rfl
  have hi : n.toInt = n.toBitVec.toInt := rfl
  show (zigzag n).toBitVec.toNat = _
  rw [hz, hi, sshiftRight_all, BitVec.toInt_eq_msb_cond]
  have hlt := n.toBitVec.isLt
  by_cases hb : n.toBitVec.msb
  · have hge : 2 ^ 63 ≤ n.toBitVec.toNat := by
      have h := hb
      rw [BitVec.msb_eq_decide, decide_eq_true_eq] at h
      omega
    rw [if_pos hb, if_pos hb, BitVec.xor_allOnes, BitVec.toNat_not, BitVec.toNat_shiftLeft,
      Nat.shiftLeft_eq, PRF.zigzag, if_pos (by omega)]
    omega
  · have hlt' : n.toBitVec.toNat < 2 ^ 63 := by
      have h : n.toBitVec.msb = false := by simpa using hb
      rw [BitVec.msb_eq_decide, decide_eq_false_iff_not] at h
      omega
    rw [if_neg hb, if_neg hb, BitVec.xor_zero, BitVec.toNat_shiftLeft, Nat.shiftLeft_eq,
      PRF.zigzag, if_neg (by omega)]
    omega

/-! ## the encoder -/

/-- `canonical_keyword_string` -/
def keywordString (ns : Option String) (name : String) : String :=
  match ns with
  | some ns => ns ++ "/" ++ name
  | none => name

/-- a length and that many bytes -/
def framedBytes (bs : ByteString) : ByteString := encodeVaruint bs.length ++ bs

/-- `Vec<u8>::cmp` -/
def cmpBytes : ByteString → ByteString → Ordering
  | [], [] => .eq
  | [], _ :: _ => .lt
  | _ :: _, [] => .gt
  | x :: xs, y :: ys => (compare x.toNat y.toNat).then (cmpBytes xs ys)

/-- `sort_by(|a, b| a.0.cmp(&b.0))` -/
def keyOrder (a b : ByteString × ByteString) : Prop := cmpBytes a.1 b.1 ≠ .gt

instance : DecidableRel keyOrder := fun _ _ => inferInstanceAs (Decidable (_ ≠ _))

mutual

def canonicalBytes : Value → ByteString
  | .nil => [0x00]
  | .bool b => [if b then 0x02 else 0x01]
  | .int n => 0x10 :: encodeVaruint (zigzag n).toNat
  | .str s => 0x20 :: framedBytes (utf8 s)
  | .keyword ns name => 0x22 :: framedBytes (utf8 (keywordString ns name))
  | .vec xs => 0x30 :: (encodeVaruint xs.length ++ itemBytes xs)
  | .map es =>
    0x31 :: (encodeVaruint es.length
      ++ ((pairBytes es).insertionSort keyOrder).flatMap fun e => e.1 ++ e.2)

def itemBytes : List Value → ByteString
  | [] => []
  | x :: xs => canonicalBytes x ++ itemBytes xs

def pairBytes : List (Value × Value) → List (ByteString × ByteString)
  | [] => []
  | (k, x) :: es => (canonicalBytes k, canonicalBytes x) :: pairBytes es

end

theorem itemBytes_eq (xs : List Value) : itemBytes xs = xs.flatMap canonicalBytes := by
  induction xs with
  | nil => simp [itemBytes]
  | cons x xs ih => rw [itemBytes, ih, List.flatMap_cons]

theorem pairBytes_eq (es : List (Value × Value)) :
    pairBytes es = es.map fun e => (canonicalBytes e.1, canonicalBytes e.2) := by
  induction es with
  | nil => simp [pairBytes]
  | cons e es ih => rw [pairBytes, ih, List.map_cons]

theorem cmpBytes_eq (xs ys : ByteString) : cmpBytes xs ys = compareBytes xs ys := by
  induction xs generalizing ys with
  | nil =>
    cases ys with
    | nil => rfl
    | cons y ys => exact (Nat.compare_eq_lt.mpr (Nat.succ_pos _)).symm
  | cons x xs ih =>
    cases ys with
    | nil => exact (Nat.compare_eq_gt.mpr (Nat.succ_pos _)).symm
    | cons y ys =>
      show (compare x.toNat y.toNat).then (cmpBytes xs ys)
        = if x = y then compareBytes xs ys else compare x.toNat y.toNat
      by_cases e : x = y
      · subst e
        rw [if_pos rfl, Nat.compare_eq_eq.mpr rfl, ih]
        rfl
      · have hne : compare x.toNat y.toNat ≠ .eq := fun h =>
          e (UInt8.toNat_inj.mp (Nat.compare_eq_eq.mp h))
        rw [if_neg e]
        cases hc : compare x.toNat y.toNat with
        | lt => rfl
        | gt => rfl
        | eq => exact absurd hc hne

theorem keyOrder_iff (a b : ByteString × ByteString) :
    keyOrder a b ↔ byKey Prod.fst a b := by
  show cmpBytes a.1 b.1 ≠ .gt ↔ compareBytes a.1 b.1 ≠ .gt
  rw [cmpBytes_eq]

theorem sort_keyOrder (es : List (ByteString × ByteString)) :
    es.insertionSort keyOrder = sortEntries es := by
  have h := List.map_insertionSort keyOrder (byKey Prod.fst) id es
    fun a _ b _ => keyOrder_iff a b
  rw [List.map_id, List.map_id] at h
  exact h

/-- the entries in the order of the encoder -/
def sorted (es : List (Value × Value)) : List (Value × Value) :=
  es.insertionSort (byKey fun e => canonicalBytes e.1)

def entryWord (e : Value × Value) : ByteString := canonicalBytes e.1 ++ canonicalBytes e.2

theorem sorted_perm (es : List (Value × Value)) : (sorted es).Perm es :=
  List.perm_insertionSort _ es

theorem canonicalBytes_map (es : List (Value × Value)) : canonicalBytes (.map es)
    = 0x31 :: (encodeVaruint (sorted es).length ++ (sorted es).flatMap entryWord) := by
  have h := List.map_insertionSort (byKey fun e : Value × Value => canonicalBytes e.1) keyOrder
    (fun e => (canonicalBytes e.1, canonicalBytes e.2)) es fun a _ b _ =>
      (keyOrder_iff (canonicalBytes a.1, canonicalBytes a.2)
        (canonicalBytes b.1, canonicalBytes b.2)).symm
  rw [canonicalBytes, pairBytes_eq, ← h, List.flatMap_map, (sorted_perm es).length_eq]
  rfl

/-! ## canonical values -/

mutual

/-- a canonical value as the verifier holds it -/
def ofValue : PRF.Value → Value
  | .null => .nil
  | .bool b => .bool b
  | .int n => .int (Int64.ofInt n)
  | .str s => .str s
  | .kw k => .keyword k.ns k.name
  | .vec xs => .vec (ofItems xs)
  | .map es => .map (ofEntries es)

def ofItems : List PRF.Value → List Value
  | [] => []
  | x :: xs => ofValue x :: ofItems xs

def ofEntries : List (Key × PRF.Value) → List (Value × Value)
  | [] => []
  | (.str s, x) :: es => (.str s, ofValue x) :: ofEntries es
  | (.kw k, x) :: es => (.keyword k.ns k.name, ofValue x) :: ofEntries es

end

def ofKey : Key → Value
  | .str s => .str s
  | .kw k => .keyword k.ns k.name

theorem ofItems_eq (xs : List PRF.Value) : ofItems xs = xs.map ofValue := by
  induction xs with
  | nil => simp [ofItems]
  | cons x xs ih => rw [ofItems, ih, List.map_cons]

theorem ofEntries_eq (es : List (Key × PRF.Value)) :
    ofEntries es = es.map fun e => (ofKey e.1, ofValue e.2) := by
  induction es with
  | nil => simp [ofEntries]
  | cons e es ih =>
    obtain ⟨k, x⟩ := e
    cases k with
    | str s => rw [ofEntries, ih, List.map_cons]; rfl
    | kw k => rw [ofEntries, ih, List.map_cons]; rfl

/-- every integer of the value has 64 bits -/
inductive Within64 : PRF.Value → Prop
  | null : Within64 .null
  | bool (b : Bool) : Within64 (.bool b)
  | int {n : ℤ} (h : fits n) : Within64 (.int n)
  | str (s : String) : Within64 (.str s)
  | kw (k : Keyword) : Within64 (.kw k)
  | vec {xs : List PRF.Value} (h : ∀ x ∈ xs, Within64 x) : Within64 (.vec xs)
  | map {es : List (Key × PRF.Value)} (h : ∀ e ∈ es, Within64 e.2) : Within64 (.map es)

theorem toInt_ofInt {n : ℤ} (h : fits n) : (Int64.ofInt n).toInt = n := by
  simp only [fits, Bool.and_eq_true, decide_eq_true_eq] at h
  exact Int64.toInt_ofInt_of_le h.1 h.2

theorem stringBytes_ofValue (s : String) : canonicalBytes (.str s) = stringBytes s := by
  rw [canonicalBytes, framedBytes, encodeVaruint_eq]
  rfl

theorem keywordBytes_ofValue (k : Keyword) :
    canonicalBytes (.keyword k.ns k.name) = keywordBytes k := by
  have hs : keywordString k.ns k.name = k.spelling := rfl
  rw [canonicalBytes, framedBytes, encodeVaruint_eq, hs]
  rfl

theorem keyBytes_ofKey (k : Key) : canonicalBytes (ofKey k) = keyBytes k := by
  cases k with
  | str s => exact stringBytes_ofValue s
  | kw k => exact keywordBytes_ofValue k

/-- **Both encoders give a canonical value the same bytes.** -/
theorem canonicalBytes_ofValue {v : PRF.Value} (h : Within64 v) :
    canonicalBytes (ofValue v) = PRF.canonicalBytes v := by
  induction v using PRF.Value.induct with
  | null => rw [ofValue, canonicalBytes, PRF.canonicalBytes]
  | bool b => cases b <;> rw [ofValue, canonicalBytes, PRF.canonicalBytes] <;> rfl
  | int n =>
    cases h with
    | int h =>
      rw [ofValue, canonicalBytes, encodeVaruint_eq, zigzag_toNat, toInt_ofInt h,
        PRF.canonicalBytes]
  | str s => rw [ofValue, stringBytes_ofValue, PRF.canonicalBytes]
  | kw k => rw [ofValue, keywordBytes_ofValue, PRF.canonicalBytes]
  | vec xs ih =>
    cases h with
    | vec h =>
      have hx : (xs.map ofValue).flatMap canonicalBytes = xs.flatMap PRF.canonicalBytes := by
        rw [List.flatMap_map]
        exact List.flatMap_congr fun x hx => ih x hx (h x hx)
      rw [ofValue, canonicalBytes, encodeVaruint_eq, itemBytes_eq, ofItems_eq, hx,
        List.length_map, PRF.canonicalBytes, PRF.itemBytes_eq]
  | map es ih =>
    cases h with
    | map h =>
      have he : pairBytes (ofEntries es) = entryBytes es := by
        rw [pairBytes_eq, ofEntries_eq, entryBytes_eq, List.map_map]
        refine List.map_congr_left fun e he => ?_
        exact Prod.ext (keyBytes_ofKey e.1) (ih e he (h e he))
      rw [ofValue, canonicalBytes, encodeVaruint_eq, he, sort_keyOrder, ofEntries_eq,
        List.length_map, PRF.canonicalBytes]

/-! ## what the bytes tell of a value -/

/-- induction over a value of the verifier -/
theorem Value.induct {P : Value → Prop} (nil : P .nil) (bool : ∀ b, P (.bool b))
    (int : ∀ n, P (.int n)) (str : ∀ s, P (.str s)) (keyword : ∀ ns name, P (.keyword ns name))
    (vec : ∀ xs, (∀ x ∈ xs, P x) → P (.vec xs))
    (map : ∀ es, (∀ e ∈ es, P e.1 ∧ P e.2) → P (.map es)) (v : Value) : P v := by
  refine @Value.rec P (fun xs => ∀ x ∈ xs, P x) (fun es => ∀ e ∈ es, P e.1 ∧ P e.2)
    (fun e => P e.1 ∧ P e.2) nil bool int str keyword vec map ?_ ?_ ?_ ?_ ?_ v
  · intro x hx; cases hx
  · intro x xs hx hxs
    exact List.forall_mem_cons.mpr ⟨hx, hxs⟩
  · intro e he; cases he
  · intro e es he hes
    exact List.forall_mem_cons.mpr ⟨he, hes⟩
  · intro k x hk hx
    exact ⟨hk, hx⟩

section
variable (string keyword : String → Prop)

/-- every string and the spelling of every keyword in the value have a property -/
inductive Spelled : Value → Prop
  | nil : Spelled .nil
  | bool (b : Bool) : Spelled (.bool b)
  | int (n : Int64) : Spelled (.int n)
  | str {s : String} (h : string s) : Spelled (.str s)
  | keyword {ns : Option String} {name : String} (h : keyword (keywordString ns name)) :
      Spelled (.keyword ns name)
  | vec {xs : List Value} (h : ∀ x ∈ xs, Spelled x) : Spelled (.vec xs)
  | map {es : List (Value × Value)} (hk : ∀ e ∈ es, Spelled e.1) (hx : ∀ e ∈ es, Spelled e.2) :
      Spelled (.map es)

variable {string keyword}

theorem spelled_str_iff {s : String} : Spelled string keyword (.str s) ↔ string s :=
  ⟨fun h => by cases h; assumption, .str⟩

theorem spelled_keyword_iff {ns : Option String} {name : String} :
    Spelled string keyword (.keyword ns name) ↔ keyword (keywordString ns name) :=
  ⟨fun h => by cases h; assumption, .keyword⟩

theorem spelled_vec_iff {xs : List Value} :
    Spelled string keyword (.vec xs) ↔ ∀ x ∈ xs, Spelled string keyword x :=
  ⟨fun h => by cases h; assumption, .vec⟩

theorem spelled_map_iff {es : List (Value × Value)} : Spelled string keyword (.map es)
    ↔ ∀ e ∈ es, Spelled string keyword e.1 ∧ Spelled string keyword e.2 := by
  constructor
  · intro h e he
    cases h with
    | map hk hx => exact ⟨hk e he, hx e he⟩
  · exact fun h => .map (fun e he => (h e he).1) fun e he => (h e he).2

def tagByte : Value → UInt8
  | .nil => 0x00
  | .bool b => if b then 0x02 else 0x01
  | .int _ => 0x10
  | .str _ => 0x20
  | .keyword _ _ => 0x22
  | .vec _ => 0x30
  | .map _ => 0x31

theorem canonicalBytes_tag (v : Value) : ∃ w, canonicalBytes v = tagByte v :: w := by
  cases v with
  | nil => exact ⟨[], by rw [canonicalBytes]; rfl⟩
  | bool b => exact ⟨[], by rw [canonicalBytes]; rfl⟩
  | int n => exact ⟨_, by rw [canonicalBytes]; rfl⟩
  | str s => exact ⟨_, by rw [canonicalBytes]; rfl⟩
  | keyword ns name => exact ⟨_, by rw [canonicalBytes]; rfl⟩
  | vec xs => exact ⟨_, by rw [canonicalBytes]; rfl⟩
  | map es => exact ⟨_, by rw [canonicalBytes]; rfl⟩

theorem tag_eq {a b : Value} {s t : ByteString}
    (h : canonicalBytes a ++ s = canonicalBytes b ++ t) : tagByte a = tagByte b := by
  obtain ⟨w, hw⟩ := canonicalBytes_tag a
  obtain ⟨w', hw'⟩ := canonicalBytes_tag b
  rw [hw, hw'] at h
  exact List.head_eq_of_cons_eq h

theorem framedBytes_delimits {a b : String} {s t : ByteString}
    (h : framedBytes (utf8 a) ++ s = framedBytes (utf8 b) ++ t) : a = b ∧ s = t := by
  rw [framedBytes, framedBytes, encodeVaruint_eq, encodeVaruint_eq] at h
  obtain ⟨e, e'⟩ := framed varuint_delimits (utf8 a) (utf8 b) trivial s t h
  exact ⟨utf8_injective e, e'⟩

theorem tag_bool {b : Value} {x : Bool} (h : tagByte (.bool x) = tagByte b) : b = .bool x := by
  cases b with
  | bool y => cases x <;> cases y <;> first | rfl | exact absurd h (by decide)
  | nil | int _ | str _ | keyword _ _ | vec _ | map _ =>
    cases x <;> exact absurd h (by simp [tagByte])

/-- **The bytes of a value decide what is asked of its strings and its keywords.** -/
theorem canonicalBytes_spelled (v : Value) : DelimitsUpTo
    (fun a b => Spelled string keyword a ↔ Spelled string keyword b) canonicalBytes v := by
  induction v using Value.induct with
  | nil =>
    intro b s t h
    have ht := tag_eq h
    cases b with
    | nil => exact ⟨Iff.rfl, List.append_cancel_left h⟩
    | bool y => cases y <;> exact absurd ht (by decide)
    | int _ | str _ | keyword _ _ | vec _ | map _ => exact absurd ht (by simp [tagByte])
  | bool x =>
    intro b s t h
    obtain rfl := tag_bool (tag_eq h)
    exact ⟨Iff.rfl, List.append_cancel_left h⟩
  | int n =>
    intro b s t h
    have ht := tag_eq h
    cases b with
    | int m =>
      rw [canonicalBytes, canonicalBytes, encodeVaruint_eq, encodeVaruint_eq] at h
      obtain ⟨-, e⟩ := varuint_delimits _ _ trivial s t (List.tail_eq_of_cons_eq h)
      exact ⟨iff_of_true (.int n) (.int m), e⟩
    | bool y => cases y <;> exact absurd ht (by simp [tagByte])
    | nil | str _ | keyword _ _ | vec _ | map _ => exact absurd ht (by simp [tagByte])
  | str x =>
    intro b s t h
    have ht := tag_eq h
    cases b with
    | str y =>
      rw [canonicalBytes, canonicalBytes] at h
      obtain ⟨rfl, e⟩ := framedBytes_delimits (List.tail_eq_of_cons_eq h)
      exact ⟨Iff.rfl, e⟩
    | bool y => cases y <;> exact absurd ht (by simp [tagByte])
    | nil | int _ | keyword _ _ | vec _ | map _ => exact absurd ht (by simp [tagByte])
  | keyword ns name =>
    intro b s t h
    have ht := tag_eq h
    cases b with
    | keyword ns' name' =>
      rw [canonicalBytes, canonicalBytes] at h
      obtain ⟨e, e'⟩ := framedBytes_delimits (List.tail_eq_of_cons_eq h)
      refine ⟨?_, e'⟩
      show Spelled string keyword _ ↔ Spelled string keyword _
      rw [spelled_keyword_iff, spelled_keyword_iff, e]
    | bool y => cases y <;> exact absurd ht (by simp [tagByte])
    | nil | int _ | str _ | vec _ | map _ => exact absurd ht (by simp [tagByte])
  | vec xs ih =>
    intro b s t h
    have ht := tag_eq h
    cases b with
    | vec ys =>
      rw [canonicalBytes, canonicalBytes, itemBytes_eq, itemBytes_eq, encodeVaruint_eq,
        encodeVaruint_eq, List.cons_append, List.cons_append, List.append_assoc,
        List.append_assoc] at h
      obtain ⟨el, h1⟩ := varuint_delimits _ _ trivial _ _ (List.tail_eq_of_cons_eq h)
      obtain ⟨hr, e⟩ := DelimitsUpTo.flatMap xs ih ys el _ _ h1
      refine ⟨?_, e⟩
      show Spelled string keyword _ ↔ Spelled string keyword _
      rw [spelled_vec_iff, spelled_vec_iff]
      exact forall_iff_of_forall₂ hr
    | bool y => cases y <;> exact absurd ht (by simp [tagByte])
    | nil | int _ | str _ | keyword _ _ | map _ => exact absurd ht (by simp [tagByte])
  | map es ih =>
    intro b s t h
    have ht := tag_eq h
    cases b with
    | map fs =>
      rw [canonicalBytes_map, canonicalBytes_map, encodeVaruint_eq, encodeVaruint_eq,
        List.cons_append, List.cons_append, List.append_assoc, List.append_assoc] at h
      obtain ⟨el, h1⟩ := varuint_delimits _ _ trivial _ _ (List.tail_eq_of_cons_eq h)
      have hd : ∀ e ∈ sorted es, DelimitsUpTo _ entryWord e := fun e he =>
        have hm := ih e ((sorted_perm es).mem_iff.mp he)
        hm.1.pair hm.2
      obtain ⟨hr, e⟩ := DelimitsUpTo.flatMap _ hd _ el _ _ h1
      have hall := forall_iff_of_forall₂
        (P := fun e : Value × Value => Spelled string keyword e.1 ∧ Spelled string keyword e.2)
        (hr.imp fun a b hab => and_congr hab.1 hab.2)
      simp only [(sorted_perm es).mem_iff, (sorted_perm fs).mem_iff] at hall
      refine ⟨?_, e⟩
      show Spelled string keyword _ ↔ Spelled string keyword _
      rw [spelled_map_iff, spelled_map_iff]
      exact hall
    | bool y => cases y <;> exact absurd ht (by simp [tagByte])
    | nil | int _ | str _ | keyword _ _ | vec _ => exact absurd ht (by simp [tagByte])

theorem spelled_iff_of_canonicalBytes {v w : Value} (h : canonicalBytes v = canonicalBytes w) :
    Spelled string keyword v ↔ Spelled string keyword w :=
  (canonicalBytes_spelled v w [] [] (congrArg (· ++ []) h)).1

end

end PRF.Edn
