import ProtocolRobustness.Canonical.Compare
import ProtocolRobustness.Contract.Request
import ProtocolRobustness.Library.GroupSum

/-!
# Canonical effects

The effect kernel of `pro_rata_contract/contract.clj` and the checks `canonical_effects.clj` puts in
front of it.

* `Quantities`        the state, a map from quantity roots to integers: a quantity that is not
                      there counts as zero, but is not hashed as one;
* `normalizeEffects`  one net delta for each target, without zeros, in the order of the targets;
* `applyEffects`      the deltas one after the other, none of which may go below zero;
* `transition`        the atomic transition with its roots, for a hash function `sha256`.
-/

namespace PRF
open Bytes

/-! ## states -/

structure Quantities where
  entries : List (String × ℤ)
  nodup : (entries.map Prod.fst).Nodup

namespace Quantities

def empty : Quantities := ⟨[], List.nodup_nil⟩

def find (s : Quantities) (root : String) : Option ℤ := Table.find s.entries root

/-- `(get state root 0N)` -/
def amount (s : Quantities) (root : String) : ℤ := (s.find root).getD 0

def assoc (s : Quantities) (root : String) (n : ℤ) : Quantities :=
  ⟨Table.put s.entries root n, Table.nodup_put s.nodup root n⟩

def keys (s : Quantities) : List String := s.entries.map Prod.fst

/-- the map `state-root` hashes; the encoder puts its entries in order -/
def value (s : Quantities) : Value :=
  .map [(key "schema-version", .str "canonical-effect-state.v1"),
    (key "quantities", .map (s.entries.map fun e => (.str e.1, .int e.2)))]

end Quantities

structure Effect where
  schemaVersion : String
  quantityRoot : String
  delta : ℤ
deriving DecidableEq

def effectSchema : String := "canonical-delta-effect.v1"

/-- `(delta quantity-root amount)` -/
def delta (quantityRoot : String) (amount : ℤ) : Effect := ⟨effectSchema, quantityRoot, amount⟩

def Effect.value (e : Effect) : Value :=
  .map [(key "schema-version", .str e.schemaVersion),
    (nsKey "quantity" "root", .str e.quantityRoot), (key "delta", .int e.delta)]

/-! ## roots -/

section
variable (sha256 : ByteString → String)

def effectSemantics : Value :=
  .map [(key "schema-version", .str "canonical-effects-v1"),
    (key "integer-domain", (key "signed-arbitrary-precision").value),
    (key "quantity-domain", (key "non-negative-integer").value),
    (key "underflow", (key "forbidden").value),
    (key "overflow", (key "impossible").value),
    (key "ordering", (key "canonical-target-order").value),
    (key "emission-order", (key "irrelevant").value),
    (key "duplicate-targets", (key "compose").value),
    (key "composition", (key "atomic-net-delta").value),
    (key "failure", (key "reject-entire-transition").value)]

def effectSemanticsRoot : String := domainHash sha256 "CANONICAL_EFFECTS_V1" effectSemantics

/-- what the root of a state is the digest of -/
def stateBytes (s : Quantities) : ByteString :=
  utf8 "CANONICAL_EFFECT_STATE_V1" ++ canonicalBytes s.value

def stateRoot (s : Quantities) : Except Thrown String := do
  whenNot (s.entries.all fun e => 0 ≤ e.2) arithmeticDomainViolation []
  return domainHash sha256 "CANONICAL_EFFECT_STATE_V1" s.value

end

/-! ## effects -/

/-- the totals by target, one effect after the other -/
def totals (effects : List Effect) : Except Thrown (List (String × ℤ)) :=
  effects.foldlM (fun totals effect => do
    whenNot (effect.schemaVersion = effectSchema) unknownVersion []
    return GroupSum.add totals (effect.quantityRoot, effect.delta)) []

def normalizeEffects (effects : List Effect) : Except Thrown (List Effect) := do
  let totals ← totals effects
  return ((totals.filter fun e => e.2 ≠ 0).insertionSort fun e f => notAfter e.1 f.1).map
    fun e => delta e.1 e.2

def effectsRoot (sha256 : ByteString → String) (effects : List Effect) : Except Thrown String := do
  let normalized ← normalizeEffects effects
  return domainHash sha256 "CANONICAL_EFFECT_SET_V1"
    (.map [(key "schema-version", .str effectSchema),
      (nsKey "effect-semantics" "root", .str (effectSemanticsRoot sha256)),
      (key "effects", .vec (normalized.map Effect.value))])

def underflow : Key := nsKey "portable-contract" "underflow"

def applyEffect (state : Quantities) (effect : Effect) : Except Thrown Quantities := do
  let after := state.amount effect.quantityRoot + effect.delta
  whenNot (0 ≤ after) underflow [(nsKey "quantity" "root", .str effect.quantityRoot)]
  return state.assoc effect.quantityRoot after

def applyEffects (state : Quantities) (effects : List Effect) : Except Thrown Quantities := do
  let normalized ← normalizeEffects effects
  normalized.foldlM applyEffect state

/-! ## transitions -/

structure Transition where
  effectSemanticsRoot : String
  stateBeforeRoot : String
  effectsRoot : String
  stateAfterRoot : String
  effects : List Effect
  stateAfter : Quantities
  canonicalEffectTransitionRoot : String

def transitionRoot (sha256 : ByteString → String)
    (semanticsRoot beforeRoot effectsRoot afterRoot : String) : String :=
  domainHash sha256 "CANONICAL_EFFECT_TRANSITION_V1"
    (.map [(key "schema-version", .str "canonical-effect-transition.v1"),
      (nsKey "effect-semantics" "root", .str semanticsRoot),
      (nsKey "state-before" "root", .str beforeRoot),
      (nsKey "effects" "root", .str effectsRoot),
      (nsKey "state-after" "root", .str afterRoot)])

def transition (sha256 : ByteString → String) (stateBefore : Quantities) (effects : List Effect) :
    Except Thrown Transition := do
  let normalized ← normalizeEffects effects
  let stateAfter ← applyEffects stateBefore normalized
  let beforeRoot ← stateRoot sha256 stateBefore
  let effectsRoot ← effectsRoot sha256 normalized
  let afterRoot ← stateRoot sha256 stateAfter
  return {
    effectSemanticsRoot := effectSemanticsRoot sha256
    stateBeforeRoot := beforeRoot
    effectsRoot := effectsRoot
    stateAfterRoot := afterRoot
    effects := normalized
    stateAfter := stateAfter
    canonicalEffectTransitionRoot :=
      transitionRoot sha256 (effectSemanticsRoot sha256) beforeRoot effectsRoot afterRoot }

/-! ## the checks of `canonical_effects.clj` -/

namespace CanonicalEffects

def hexDigit (c : Char) : Bool := ('0' ≤ c && c ≤ '9') || ('a' ≤ c && c ≤ 'f')

def hex64 (cs : List Char) : Bool := cs.length = 64 && cs.all hexDigit

/-- `#"(?:sha256:)?[0-9a-f]{64}"` -/
def isRoot (s : String) : Bool :=
  hex64 s.toList || ("sha256:".toList.isPrefixOf s.toList && hex64 (s.toList.drop 7))

def delta (quantityRoot : String) (signedDelta : ℤ) : Except Thrown Effect := do
  whenNot (isRoot quantityRoot) noncanonicalInput [(nsKey "quantity" "root", .str quantityRoot)]
  return PRF.delta quantityRoot signedDelta

def normalizeEffects (effects : List Effect) : Except Thrown (List Effect) := do
  effects.forM fun e =>
    whenNot (isRoot e.quantityRoot) noncanonicalInput [(nsKey "quantity" "root", .str e.quantityRoot)]
  PRF.normalizeEffects effects

end CanonicalEffects

end PRF
