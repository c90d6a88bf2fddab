import Mathlib.Data.List.Forall2
import Mathlib.Data.List.TakeWhile
import Mathlib.Tactic
import ProtocolRobustness.Library.Fallible

/-!
# The EDN reader of the conformance verifier

`etc/conformance/rust/verify/src/edn.rs`.  The state of the parser is what is left of the input; a
parser gives the value and what it leaves.

* `Alphabet`      what `char::is_alphanumeric` knows, with the facts about it that are used;
* `parseValue`, `parsePairs`, `parseVec`   the recursive parser, with one unit of fuel a call;
* `parse`         the whole text, with more fuel than it can use.
-/

namespace PRF.Edn

/-! ## characters -/

/-- `char::is_whitespace` -/
def whitespace (c : Char) : Bool :=
  let n := c.toNat
  (9 ≤ n && n ≤ 13) || n == 32 || n == 0x85 || n == 0xa0 || n == 0x1680 ||
    (0x2000 ≤ n && n ≤ 0x200a) || n == 0x2028 || n == 0x2029 || n == 0x202f || n == 0x205f ||
    n == 0x3000

/-- the letters and digits of Unicode: those of ASCII are known, and no blank is one -/
structure Alphabet where
  alphanumeric : Char → Bool
  ascii : ∀ c, c.toNat < 128 → alphanumeric c = c.isAlphanum
  spaced : ∀ c, whitespace c → alphanumeric c = false

theorem alphanum_range {c : Char} (h : c.isAlphanum) : 48 ≤ c.toNat ∧ c.toNat ≤ 122 := by
  have hc : c.isAlphanum = (decide (c.val ≥ 'A'.val ∧ c.val ≤ 'Z'.val)
      || decide (c.val ≥ 'a'.val) && decide (c.val ≤ 'z'.val)
      || decide (c.val ≥ '0'.val) && decide (c.val ≤ '9'.val)) := rfl
  rw [hc] at h
  simp only [Bool.or_eq_true, Bool.and_eq_true, decide_eq_true_eq, UInt32.le_iff_toNat_le,
    ge_iff_le] at h
  have hv : c.toNat = c.val.toNat := rfl
  have hA : 'A'.val.toNat = 65 := rfl
  have hZ : 'Z'.val.toNat = 90 := rfl
  have ha : 'a'.val.toNat = 97 := rfl
  have hz : 'z'.val.toNat = 122 := rfl
  have h0 : '0'.val.toNat = 48 := rfl
  have h9 : '9'.val.toNat = 57 := rfl
  omega

/-- only the letters and digits of ASCII -/
def Alphabet.plain : Alphabet where
  alphanumeric := Char.isAlphanum
  ascii := fun _ _ => rfl
  spaced := by
    intro c hc
    rw [← Bool.not_eq_true]
    intro ha
    have hr := alphanum_range ha
    simp only [whitespace, Bool.or_eq_true, Bool.and_eq_true, decide_eq_true_eq, beq_iff_eq] at hc
    omega

def blank (c : Char) : Bool := whitespace c || c == ','

/-- what is left after the blanks -/
def skipWs (cs : List Char) : List Char := cs.dropWhile blank

section
variable (host : Alphabet)

def keywordChar (c : Char) : Bool :=
  host.alphanumeric c || c == '-' || c == '_' || c == '?' || c == '.' || c == '/'

def symbolChar (c : Char) : Bool :=
  host.alphanumeric c || c == '-' || c == '_' || c == '?' || c == '.'

end

/-! ## values and errors -/

/-- `edn::Value`; any value can be the key of a map, and a key can come twice -/
inductive Value where
  | nil
  | bool (b : Bool)
  | int (n : Int64)
  | str (s : String)
  | keyword (ns : Option String) (name : String)
  | vec (xs : List Value)
  | map (es : List (Value × Value))

inductive ParseError where
  /-- unexpected end of input -/
  | unexpectedEnd
  /-- expected 'true', 'false' or 'nil' -/
  | expected (lit : String)
  /-- unexpected character -/
  | unexpectedCharacter (c : Char)
  /-- invalid integer, with the text `str::parse` refused -/
  | invalidInteger (text : String)
  /-- only namespaced maps are supported as tags -/
  | unsupportedTag
  /-- expected an opening brace after a namespaced map tag -/
  | expectedBrace
  /-- only keyword and string keys are allowed in a namespaced map -/
  | unsupportedKey (key : Value)
  /-- not of the source: the recursion went deeper than the fuel -/
  | outOfFuel

/-! ## tokens -/

def unescape : Char → Char
  | 'n' => '\n'
  | 't' => '\t'
  | 'r' => '\r'
  | other => other

/-- the letters of a string after its opening quote, up to the closing quote or the end -/
def parseString : List Char → List Char × List Char
  | [] => ([], [])
  | '"' :: cs => ([], cs)
  | '\\' :: escaped :: cs => (unescape escaped :: (parseString cs).1, (parseString cs).2)
  | ['\\'] => ([], [])
  | c :: cs => (c :: (parseString cs).1, (parseString cs).2)

/-- one or more ASCII digits -/
def decimal (ds : List Char) : Option ℤ :=
  if ds ≠ [] ∧ ds.all Char.isDigit then some (Nat.ofDigitChars 10 ds 0 : ℕ) else none

def fits (n : ℤ) : Bool := -2 ^ 63 ≤ n && n < 2 ^ 63

/-- `text.parse::<i64>()` -/
def parseI64 (text : List Char) : Option Int64 :=
  let number :=
    match text with
    | '-' :: ds => (decimal ds).map fun n => -n
    | '+' :: ds => decimal ds
    | ds => decimal ds
  (number.filter fits).map Int64.ofInt

/-- the sign and the digits at the head, and what is left -/
def intText : List Char → List Char × List Char
  | [] => ([], [])
  | c :: cs =>
    if c = '-' ∨ c = '+' then (c :: cs.takeWhile Char.isDigit, cs.dropWhile Char.isDigit)
    else ((c :: cs).takeWhile Char.isDigit, (c :: cs).dropWhile Char.isDigit)

def parseInt (cs : List Char) : Except ParseError (Value × List Char) :=
  match parseI64 (intText cs).1 with
  | some n => .ok (.int n, (intText cs).2)
  | none => .error (.invalidInteger (String.ofList (intText cs).1))

/-- namespace and name: the text is cut at its first slash -/
def splitKeyword (text : List Char) : Value :=
  if '/' ∈ text then
    .keyword (some (String.ofList (text.takeWhile (· ≠ '/'))))
      (String.ofList (text.dropWhile (· ≠ '/')).tail)
  else .keyword none (String.ofList text)

/-- a keyword after its colon -/
def parseKeyword (host : Alphabet) (cs : List Char) : Value × List Char :=
  (splitKeyword (cs.takeWhile (keywordChar host)), cs.dropWhile (keywordChar host))

def matchLiteral (lit : String) (v : Value) (cs : List Char) :
    Except ParseError (Value × List Char) :=
  if lit.toList.isPrefixOf cs then .ok (v, cs.drop lit.toList.length) else .error (.expected lit)

/-- a key of a namespaced map with the default namespace filled in -/
def qualifyKey (defaultNs : String) : Value → Except ParseError Value
  | .keyword ns name => .ok (.keyword (some (ns.getD defaultNs)) name)
  | .str s => .ok (.str s)
  | key => .error (.unsupportedKey key)

/-! ## the parser -/

section
variable (host : Alphabet)

mutual

def parseValue : ℕ → List Char → Except ParseError (Value × List Char)
  | 0, _ => .error .outOfFuel
  | fuel + 1, cs =>
    match skipWs cs with
    | [] => .error .unexpectedEnd
    | c :: rest =>
      if c = '{' then do
        let (es, rest) ← parsePairs .ok fuel rest
        return (.map es, rest)
      else if c = '[' then do
        let (xs, rest) ← parseVec fuel rest
        return (.vec xs, rest)
      else if c = '#' then parseTagged fuel rest
      else if c = '"' then .ok (.str (String.ofList (parseString rest).1), (parseString rest).2)
      else if c = ':' then .ok (parseKeyword host rest)
      else if c = 't' then matchLiteral "true" (.bool true) (c :: rest)
      else if c = 'f' then matchLiteral "false" (.bool false) (c :: rest)
      else if c = 'n' then matchLiteral "nil" .nil (c :: rest)
      else if c.isDigit ∨ c = '-' ∨ c = '+' then parseInt (c :: rest)
      else .error (.unexpectedCharacter c)

/-- the entries of a map up to its closing brace: `parse_map` takes every key as it is,
`parse_namespaced_map_body` puts `qualifyKey` before the value is read -/
def parsePairs (qualify : Value → Except ParseError Value) :
    ℕ → List Char → Except ParseError (List (Value × Value) × List Char)
  | 0, _ => .error .outOfFuel
  | fuel + 1, cs =>
    if (skipWs cs).head? = some '}' then .ok ([], (skipWs cs).tail)
    else do
      let (key, rest) ← parseValue fuel cs
      let key ← qualify key
      let (val, rest) ← parseValue fuel rest
      let (es, rest) ← parsePairs qualify fuel rest
      return ((key, val) :: es, rest)

def parseTagged : ℕ → List Char → Except ParseError (Value × List Char)
  | 0, _ => .error .outOfFuel
  | fuel + 1, cs =>
    match cs with
    | ':' :: cs =>
      match skipWs (cs.dropWhile (symbolChar host)) with
      | '{' :: rest => do
        let defaultNs := String.ofList (cs.takeWhile (symbolChar host))
        let (es, rest) ← parsePairs (qualifyKey defaultNs) fuel rest
        return (.map es, rest)
      | _ => .error .expectedBrace
    | _ => .error .unsupportedTag

def parseVec : ℕ → List Char → Except ParseError (List Value × List Char)
  | 0, _ => .error .outOfFuel
  | fuel + 1, cs =>
    if (skipWs cs).head? = some ']' then .ok ([], (skipWs cs).tail)
    else do
      let (x, rest) ← parseValue fuel cs
      let (xs, rest) ← parseVec fuel rest
      return (x :: xs, rest)

end

/-- nothing looks at what is left after the value -/
def parse (input : String) : Except ParseError Value :=
  (parseValue host (2 * input.toList.length + 1) (skipWs input.toList)).map Prod.fst

end

end PRF.Edn
