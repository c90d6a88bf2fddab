import ProtocolRobustness.Lifecycle.Clojure
import ProtocolRobustness.Lifecycle.Rust

/-!
# Fields both kernels read alike

The formats in which a field means the same to the Rust and to the Clojure kernel, and for each of
the readers that it does.

* `Flag`     a boolean, `null` or nothing;
* `Amount`   an integer below `2 ^ 64`, or a string in which both parsers see the same;
* `Time`     an integer of 64 bits without sign, or nothing;
* `Count`    not between the signed and the unsigned 64-bit limit;
* `Plain`    no integer beyond the 64-bit ranges anywhere inside.
-/

namespace PRF.Lifecycle

def Flag : Option Json → Prop
  | none | some .null | some (.bool _) => True
  | _ => False

def Time : Option Json → Prop
  | none => True
  | some (.int n) => 0 ≤ n ∧ n < 2 ^ 64
  | _ => False

def Count : Option Json → Prop
  | some (.int n) => ¬ (2 ^ 63 ≤ n ∧ n < 2 ^ 64)
  | _ => True

section
variable (parseBigInt : String → Option ℤ) (digit : Char → Option ℕ)

def Amount : Option Json → Prop
  | some (.int n) => n < 2 ^ 64
  | some (.str s) => ∀ n > 0, parseBigInt s = some n ↔ Clojure.bigInteger digit s = some n
  | _ => True

end

/-- unless it is an object, a reference is rejected -/
def Plain (toDouble : ℤ → ℚ) (x : Option Json) : Prop :=
  ∀ v, x = some v → v.nonEmptyObject = true → v.serde toDouble = v

/-! ## the Rust readers see through `serde_json` -/

section
variable {toDouble : ℤ → ℚ} {v : Json} {k : String}

variable {parseBigInt : String → Option ℤ} {default : Option ℤ}

end

/-! ## strings and references -/

section
variable {toDouble : ℤ → ℚ} {v : Json} {k : String}

end

/-! ## the readers side by side -/

section
variable {v : Json} {k : String}

variable {parseBigInt : String → Option ℤ} {digit : Char → Option ℕ}

end

end PRF.Lifecycle
