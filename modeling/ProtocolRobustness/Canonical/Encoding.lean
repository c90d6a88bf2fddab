import ProtocolRobustness.Canonical.Value
import ProtocolRobustness.Library.ByteOrder

/-!
# The canonical bytes of a value

`pro_rata_contract/canonical.clj`: a type tag, then a minimal LEB128 length or number, then the
contents.  A map is encoded as a set of entries: they are put in the unsigned byte order of their
encoded keys, whatever order they come in.

* `varuint`, `zigzag`   unsigned LEB128 and the folding of signed integers into it;
* `keyBytes`, `canonicalBytes`   the encoder on keys and on values;
* `Normal`   the entries of every map are listed in increasing byte order of their keys.  A Clojure
             map has no order of its own, so each has exactly one such listing, and equality of
             normal values is Clojure's `=`;
* `domainHash`   the digest of a domain tag and the bytes of a value, for a hash function `sha256`.
-/

namespace PRF
open Bytes

/-! ## numbers and strings -/

/-- seven bits a byte, low bits first, the high bit on every byte but the last -/
def varuint (n : ℕ) : ByteString :=
  if n / 128 = 0 then [UInt8.ofNat (n % 128)]
  else UInt8.ofNat (n % 128 + 128) :: varuint (n / 128)
termination_by n
decreasing_by omega

def zigzag (n : ℤ) : ℕ := if n < 0 then (-2 * n - 1).toNat else (2 * n).toNat

/-- `(.getBytes s "UTF-8")` -/
def utf8 (s : String) : ByteString := s.toUTF8.data.toList

def stringBytes (s : String) : ByteString := 0x20 :: (varuint (utf8 s).length ++ utf8 s)

def keywordBytes (k : Keyword) : ByteString :=
  0x22 :: (varuint (utf8 k.spelling).length ++ utf8 k.spelling)

/-! ## values -/

def keyBytes : Key → ByteString
  | .str s => stringBytes s
  | .kw k => keywordBytes k

/-- entries, already encoded, in increasing byte order of the key -/
def sortEntries (es : List (ByteString × ByteString)) : List (ByteString × ByteString) :=
  es.insertionSort (byKey Prod.fst)

mutual

def canonicalBytes : Value → ByteString
  | .null => [0x00]
  | .bool false => [0x01]
  | .bool true => [0x02]
  | .int n => 0x10 :: varuint (zigzag n)
  | .str s => stringBytes s
  | .kw k => keywordBytes k
  | .vec xs => 0x30 :: (varuint xs.length ++ itemBytes xs)
  | .map es =>
    0x31 :: (varuint es.length ++ (sortEntries (entryBytes es)).flatMap fun e => e.1 ++ e.2)

def itemBytes : List Value → ByteString
  | [] => []
  | x :: xs => canonicalBytes x ++ itemBytes xs

def entryBytes : List (Key × Value) → List (ByteString × ByteString)
  | [] => []
  | (k, x) :: es => (keyBytes k, canonicalBytes x) :: entryBytes es

end

theorem itemBytes_eq (xs : List Value) : itemBytes xs = xs.flatMap canonicalBytes := by
  induction xs with
  | nil => simp [itemBytes]
  | cons x xs ih => rw [itemBytes, ih, List.flatMap_cons]

theorem entryBytes_eq (es : List (Key × Value)) :
    entryBytes es = es.map fun e => (keyBytes e.1, canonicalBytes e.2) := by
  induction es with
  | nil => simp [entryBytes]
  | cons e es ih => rw [entryBytes, ih, List.map_cons]

/-- the listing of a map without an order of its own -/
inductive Normal : Value → Prop
  | null : Normal .null
  | bool (b : Bool) : Normal (.bool b)
  | int (n : ℤ) : Normal (.int n)
  | str (s : String) : Normal (.str s)
  | kw (k : Keyword) : Normal (.kw k)
  | vec {xs : List Value} (h : ∀ x ∈ xs, Normal x) : Normal (.vec xs)
  | map {es : List (Key × Value)}
      (keys : es.Pairwise fun e f => compareBytes (keyBytes e.1) (keyBytes f.1) = .lt)
      (h : ∀ e ∈ es, Normal e.2) : Normal (.map es)

/-- `(domain-hash domain value)` -/
def domainHash (sha256 : ByteString → String) (domain : String) (value : Value) : String :=
  sha256 (utf8 domain ++ canonicalBytes value)

example : canonicalBytes (.vec [.int 300, .int (-1), .null]) = [0x30, 3, 0x10, 0xd8, 4, 0x10, 1, 0] := by
  decide +kernel

/-- a digest that keeps everything: each byte as a letter -/
def letters (bytes : ByteString) : String :=
  String.ofList (bytes.map fun b => Char.ofNat b.toNat)

theorem letters_injective : Function.Injective letters := by
  intro a b h
  refine List.map_injective_iff.mpr (fun x y hxy => ?_) (String.ofList_injective h)
  have hvalid : ∀ z : UInt8, (Char.ofNat z.toNat).toNat = z.toNat := by
    intro z
    have hz : z.toNat < 256 := z.toNat_lt
    rw [Char.ofNat, dif_pos (Or.inl (by omega))]
    rfl
  have hn := congrArg Char.toNat hxy
  rw [hvalid, hvalid] at hn
  exact UInt8.toNat_inj.mp hn

def lettersOf (domain : String) (value : Value) : String := domain ++ letters (canonicalBytes value)

/-- a digest of the usual length -/
def fingerprint (bytes : ByteString) : String :=
  let n := bytes.foldl (fun h b => (h * 263 + b.toNat + 1) % 2 ^ 256) 7
  "sha256:" ++ String.ofList ((List.range 64).map fun i => Nat.digitChar (n / 16 ^ i % 16))

end PRF
