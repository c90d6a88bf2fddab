import ProtocolRobustness.Effects.Transition
import ProtocolRobustness.Library.CheckedSum

/-!
# Ordered execution of an atomic transition

`pro_rata/transact.clj`: a transaction is run operation by operation, and its trace is bound to the
canonical transition it realizes.

* `buildTransaction`   operations with their roots;
* `execute`            the run, with the root of every state on the way;
* `bindTransition`     the comparison of a trace with a transition, in one of two modes.

`sha256` is the digest of the effect kernel, `hash` is `resolver-sim.hash.canonical/domain-hash`,
which takes the tag of a domain.
-/

namespace PRF.Transact
open Bytes LongArith

/-! ## failures -/

inductive Failure where
  | effects (e : Thrown)
  | stateMismatch
  | boundExceeded
  | overflow
  | semanticsMismatch (mode : Keyword)
  | notRealized (mode : Keyword) (operationTargets canonicalTargets : List String)
deriving DecidableEq

/-- the messages of this namespace; the others are not its own -/
def Failure.message : Failure → Option String
  | .effects _ | .overflow => none
  | .stateMismatch => some "transaction state does not match canonical transition before-state"
  | .boundExceeded => some "transaction exceeds derived trace bound"
  | .semanticsMismatch _ => some "binding semantics root does not match binding mode"
  | .notRealized _ _ _ => some "transaction trace does not realize canonical transition"

/-- a call of the effect kernel -/
def effects {α : Type} (x : Except Thrown α) : Except Failure α :=
  match x with
  | .ok a => .ok a
  | .error e => .error (.effects e)

def whenNot (test : Bool) (failure : Failure) : Except Failure Unit :=
  if test then .ok () else .error failure

/-! ## transactions -/

structure Operation where
  quantityRoot : String
  delta : ℤ
  operationRoot : String

structure Transaction where
  operationsRoot : String
  operationSemanticsRoot : Value
  tracePolicyRoot : Value
  operations : List Operation
  transactRoot : String

def operationEntries (quantityRoot : String) (delta : ℤ) : List (Key × Value) :=
  [(key "schema-version", .str "transact-operation.v1"),
    (nsKey "operation" "type", (key "delta").value),
    (nsKey "quantity" "root", .str quantityRoot), (key "delta", .int delta)]

def Operation.value (o : Operation) : Value :=
  .map (operationEntries o.quantityRoot o.delta
    ++ [(nsKey "operation" "root", .str o.operationRoot)])

section
variable (hash : String → Value → String)

def operation (quantityRoot : String) (delta : ℤ) : Except Thrown Operation := do
  let effect ← CanonicalEffects.delta quantityRoot delta
  return {
    quantityRoot := effect.quantityRoot
    delta := delta
    operationRoot :=
      hash "TRANSACT_OPERATION_V1" (.map (operationEntries effect.quantityRoot delta)) }

def transactionRoot (operationsRoot : String) (operationSemanticsRoot tracePolicyRoot : Value) :
    String :=
  hash "TRANSACT_V1" (.map
    [(key "schema-version", .str "transact.v1"),
      (nsKey "operations" "root", .str operationsRoot),
      (nsKey "operation-semantics" "root", operationSemanticsRoot),
      (nsKey "trace-policy" "root", tracePolicyRoot)])

def buildTransaction (operations : List (String × ℤ))
    (operationSemanticsRoot tracePolicyRoot : Value) : Except Thrown Transaction := do
  let ops ← operations.mapM fun o => operation hash o.1 o.2
  let operationsRoot := hash "TRANSACT_OPERATIONS_V1" (.vec (ops.map Operation.value))
  return {
    operationsRoot := operationsRoot
    operationSemanticsRoot := operationSemanticsRoot
    tracePolicyRoot := tracePolicyRoot
    operations := ops
    transactRoot := transactionRoot hash operationsRoot operationSemanticsRoot tracePolicyRoot }

end

/-! ## execution -/

structure TracePolicy where
  maxFixedSteps : HostInt
  maxStepsPerEffect : HostInt

/-- fixed overhead plus operations per canonical effect -/
def deriveBound (policy : TracePolicy) (canonical : Transition) : Option HostInt := do
  let steps ← policy.maxStepsPerEffect.mul? (HostInt.ofInt canonical.effects.length)
  policy.maxFixedSteps.add? steps

structure Step where
  index : ℕ
  operationRoot : String
  stateAfterRoot : String
deriving DecidableEq

def Step.value (s : Step) : Value :=
  .map [(nsKey "step" "index", .int s.index), (nsKey "operation" "root", .str s.operationRoot),
    (nsKey "state-after" "root", .str s.stateAfterRoot)]

structure Trace where
  transactRoot : String
  inputRoot : String
  outputRoot : String
  steps : List Step
  traceRoot : String
  length : ℕ
  maxLength : ℤ
  operationSemanticsRoot : Value
  tracePolicyRoot : Value
  boundedRoot : String

section
variable (sha256 : ByteString → String) (hash : String → Value → String)

/-- one operation, and the root of the state it leaves -/
def executeStep (run : Quantities × List Step) (op : Operation) :
    Except Thrown (Quantities × List Step) := do
  let effect ← CanonicalEffects.delta op.quantityRoot op.delta
  let after ← applyEffects run.1 [effect]
  let afterRoot ← stateRoot sha256 after
  return (after, run.2 ++ [⟨run.2.length, op.operationRoot, afterRoot⟩])

def traceBody (transactRoot inputRoot outputRoot : String) (steps : List Step) : Value :=
  .map [(key "schema-version", .str "trace-bounded-transition.v1"),
    (nsKey "transact" "root", .str transactRoot),
    (nsKey "transition" "input-root", .str inputRoot),
    (nsKey "transition" "output-root", .str outputRoot),
    (nsKey "trace" "steps", .vec (steps.map Step.value))]

/-- `(trace-root trace)` -/
def boundedRoot (transactRoot inputRoot outputRoot traceRoot : String) (length : ℕ)
    (maxLength : ℤ) (operationSemanticsRoot tracePolicyRoot : Value) : String :=
  hash "TRACE_BOUNDED_TRANSITION_V1" (.map
    [(key "schema-version", .str "trace-bounded-transition.v1"),
      (nsKey "transact" "root", .str transactRoot),
      (nsKey "transition" "input-root", .str inputRoot),
      (nsKey "transition" "output-root", .str outputRoot),
      (nsKey "trace" "root", .str traceRoot), (nsKey "trace" "length", .int length),
      (nsKey "trace" "max-length", .int maxLength),
      (nsKey "operation-semantics" "root", operationSemanticsRoot),
      (nsKey "trace-policy" "root", tracePolicyRoot)])

def execute (stateBefore : Quantities) (transaction : Transaction) (canonical : Transition)
    (policy : TracePolicy) : Except Failure Trace := do
  let maxLength ← match deriveBound policy canonical with
    | some n => Except.ok n.value
    | none => Except.error Failure.overflow
  let beforeRoot ← effects (stateRoot sha256 stateBefore)
  whenNot (beforeRoot = canonical.stateBeforeRoot) .stateMismatch
  whenNot (transaction.operations.length ≤ maxLength) .boundExceeded
  let (state, steps) ← effects (transaction.operations.foldlM (executeStep sha256) (stateBefore, []))
  let inputRoot ← effects (stateRoot sha256 stateBefore)
  let outputRoot ← effects (stateRoot sha256 state)
  let traceRoot := hash "TRANSACT_TRACE_V1"
    (traceBody transaction.transactRoot inputRoot outputRoot steps)
  return {
    transactRoot := transaction.transactRoot
    inputRoot := inputRoot
    outputRoot := outputRoot
    steps := steps
    traceRoot := traceRoot
    length := steps.length
    maxLength := maxLength
    operationSemanticsRoot := transaction.operationSemanticsRoot
    tracePolicyRoot := transaction.tracePolicyRoot
    boundedRoot := boundedRoot hash transaction.transactRoot inputRoot outputRoot traceRoot
      steps.length maxLength transaction.operationSemanticsRoot transaction.tracePolicyRoot }

end

/-! ## bindings -/

def effectExact : Keyword := ⟨none, "effect-exact", by decide⟩
def netEquivalent : Keyword := ⟨none, "net-equivalent", by decide⟩

structure Binding where
  mode : Keyword
  canonicalRoot : String
  boundedRoot : String
  operationFootprintRoot : String
  projectedBeforeRoot : String
  projectedAfterRoot : String
  semanticsRoot : String
  bindingRoot : String

section
variable (hash : String → Value → String)

def operationFootprintRoot (operations : List Operation) : String :=
  hash "TRANSACT_OPERATION_FOOTPRINT_V1" (.map
    [(key "schema-version", .str "transact-operation-footprint.v1"),
      (key "quantities", .vec
        (((operations.map Operation.quantityRoot).dedup.insertionSort notAfter).map .str))])

/-- the root of `(build-binding-semantics mode)` -/
def bindingSemanticsRoot (mode : Keyword) : String :=
  hash "TRANSITION_BINDING_SEMANTICS_V1" (.map
    [(key "schema-version", .str "transition-binding-semantics.v1"),
      (nsKey "binding" "mode", .kw mode), (key "endpoint-equality", (key "required").value),
      (key "normalized-effect-equality", (key "required").value),
      (key "footprint-rule",
        if mode = effectExact then (key "equal").value else (key "unconstrained").value),
      (key "sequence-rule", (key "not-exact").value)])

def bindingRoot (mode : Keyword)
    (canonicalRoot boundedRoot footprintRoot beforeRoot afterRoot semanticsRoot : String) :
    String :=
  hash "TRANSITION_BINDING_V1" (.map
    [(key "schema-version", .str "transition-binding.v1"), (nsKey "binding" "mode", .kw mode),
      (nsKey "canonical-transition" "root", .str canonicalRoot),
      (nsKey "trace-bounded-transition" "root", .str boundedRoot),
      (nsKey "operation-footprint" "root", .str footprintRoot),
      (nsKey "projected-trace-before" "root", .str beforeRoot),
      (nsKey "projected-trace-after" "root", .str afterRoot),
      (nsKey "binding-semantics" "root", .str semanticsRoot)])

/-- equality of two sets -/
def sameSet (xs ys : List String) : Bool := xs.all (· ∈ ys) && ys.all (· ∈ xs)

def bindTransition (canonical : Transition) (transaction : Transaction) (trace : Trace)
    (semanticsRoot : String) (mode : Keyword) : Except Failure Binding := do
  whenNot (semanticsRoot = bindingSemanticsRoot hash mode) (.semanticsMismatch mode)
  let deltas ← effects (transaction.operations.mapM fun o =>
    CanonicalEffects.delta o.quantityRoot o.delta)
  let normalized ← effects (CanonicalEffects.normalizeEffects deltas)
  let operationTargets := transaction.operations.map Operation.quantityRoot
  let canonicalTargets := canonical.effects.map Effect.quantityRoot
  whenNot ((mode = netEquivalent || mode = effectExact)
      && canonical.stateBeforeRoot = trace.inputRoot && canonical.stateAfterRoot = trace.outputRoot
      && canonical.effects = normalized
      && (mode = netEquivalent || sameSet operationTargets canonicalTargets))
    (.notRealized mode operationTargets canonicalTargets)
  let footprintRoot := operationFootprintRoot hash transaction.operations
  return {
    mode := mode
    canonicalRoot := canonical.canonicalEffectTransitionRoot
    boundedRoot := trace.boundedRoot
    operationFootprintRoot := footprintRoot
    projectedBeforeRoot := trace.inputRoot
    projectedAfterRoot := trace.outputRoot
    semanticsRoot := bindingSemanticsRoot hash mode
    bindingRoot := bindingRoot hash mode canonical.canonicalEffectTransitionRoot trace.boundedRoot
      footprintRoot trace.inputRoot trace.outputRoot (bindingSemanticsRoot hash mode) }

end

end PRF.Transact
