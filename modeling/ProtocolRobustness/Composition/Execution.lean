import ProtocolRobustness.Composition.Compiler
import ProtocolRobustness.Library.HostInt
import ProtocolRobustness.Library.Pipeline

/-!
# Execution of compiled plans

A plan is executed only as the compiler makes it: its root, the roots of its capabilities and of their
contracts are checked, and what it was compiled from is compiled once more.  Then a value runs through
its nodes; what they answer counts only if all of them succeed.

* `checkResult`           what an entrypoint answers, or what is wrong with it;
* `mergeNodeEffects`      the effects of a node go to those before it;
* `runNode`, `runNodes`   a value runs through the nodes of a plan;
* `executeCompiledPlan`   the executor.
-/

namespace PRF.Composition
open Table
open Extensions (ExtensionMap Entry Capability CapabilityKey)

/-! ## what entrypoints answer -/

structure Effect (σ : Type) where
  contract : Option Keyword
  partitionKey : Option Keyword
  payload : σ
  deriving DecidableEq

inductive RawEffect (σ : Type)
  | notMap (x : σ)
  | map (e : Effect σ)
  deriving DecidableEq

/-- the effects of a result: none, a vector, or something else -/
inductive RawEffects (σ : Type)
  | absent
  | notVector (x : σ)
  | vector (effects : List (RawEffect σ))
  deriving DecidableEq

/-- what should be a number: it is one, or it is nil or something else -/
abbrev Reading (ν σ : Type) := Except (Option σ) ν

/-- a result that is a map; `failure` and `value` are `none` where the key is absent -/
structure Result (ν σ : Type) where
  failure : Option σ
  amount : Reading ν σ
  value : Option (Reading ν σ)
  effects : RawEffects σ
  shortCircuit : Bool

inductive Returned (ν σ : Type)
  | threw (exceptionClass : Keyword)
  | nil
  | notMap (resultType : Keyword)
  | map (r : Result ν σ)

structure Invocation (ν σ π : Type) where
  value : ν
  spec : σ
  params : π
  addresses : Option Addresses
  nodeId : Option Keyword

inductive Resolved (ν σ π : Type)
  | missing
  | threw (exceptionClass : Keyword)
  | found (f : Invocation ν σ π → Returned ν σ)

inductive MergeViolation (σ : Type)
  | missingEffectPartitionKey (node : Option Keyword) (effect : Effect σ)
  | duplicateEffectPartitionKey (node : Option Keyword) (key : Keyword)
  | unsupportedEffectMergeStrategy (strategy : MergeStrategy)
  deriving DecidableEq

inductive Failure (σ : Type)
  | nilResult
  | resultNotMap (resultType : Keyword)
  | preconditionFailed (evidence : σ)
  | missingOrNonnumericAmount (amount : Option σ)
  | terminalValueNotNumeric (value : Option σ)
  | effectsNotVector (effects : σ)
  | undeclaredEffect (declared : List Keyword) (effects : List (RawEffect σ))
  | missingEntrypoint (entrypoint : Option Keyword)
  | invocationException (exceptionClass : Keyword)
  | evaluationException (exceptionClass : Keyword)
  | invalidEffects (v : MergeViolation σ)
  | pipelineInputNotNumeric (inputType : Option Keyword)
  deriving DecidableEq

/-- why a plan is not executed -/
inductive Rejection (ρ : Type)
  | compile (v : Violation)
  | unauthenticatedPlan
  | unsupportedEffectMergeStrategy (strategy : MergeStrategy)
  | effectMergeStrategyMismatch (strategy : MergeStrategy) (strategies : List MergeStrategy)
  | unsafeEntrypoint (nodes : List (Option Keyword))
  | unsupportedFailureMode (nodes : List (Option Keyword))
  | descriptorRootMismatch (mismatches : List (Option Keyword × ρ × Option ρ))
  | compilerReplayMismatch (compiled : Bool)
  | unauthorizedShortCircuit (node : Option Keyword)
  deriving DecidableEq

abbrev NodeEvidence (ν σ : Type) := Pipeline.Evidence (Option Keyword) ν (Effect σ)

/-- how an execution ends; `observations` are diagnostic, a failed execution has no value or effects -/
inductive Execution (ν σ ρ : Type)
  | rejected (violations : List (Rejection ρ))
  | failed (planRoot : ρ) (node : Option Keyword) (failure : Failure σ)
      (observations : List (NodeEvidence ν σ))
  | ended (shortCircuited : Bool) (planRoot : ρ) (value : ν) (effects : List (Effect σ))
      (nodes : List (NodeEvidence ν σ))
  deriving DecidableEq

section
variable {ν σ π ρ : Type} [DecidableEq σ] [DecidableEq ρ]

/-- an effect whose contract is declared -/
def declared (emits : List Keyword) : RawEffect σ → Option (Effect σ)
  | .notMap _ => none
  | .map e => if ∃ k ∈ emits, e.contract = some k then some e else none

/-- the effects of a result, which are to be a vector -/
def RawEffects.list : RawEffects σ → Except σ (List (RawEffect σ))
  | .absent => .ok []
  | .notVector x => .error x
  | .vector effects => .ok effects

/-- the value that a terminal node leaves: the one it gives is to be a number -/
def terminalValue (terminal : Bool) : Option (Reading ν σ) → Except (Option σ) (Option ν)
  | none => .ok none
  | some (.ok v) => .ok (some v)
  | some (.error x) => if terminal then .error x else .ok none

/-- `result-failure`, and what is read off a result without one -/
def checkResult (terminal : Bool) (emits : List Keyword) :
    Returned ν σ → Except (Failure σ) (Pipeline.Answer ν (Effect σ))
  | .threw cls => .error (.invocationException cls)
  | .nil => .error .nilResult
  | .notMap resultType => .error (.resultNotMap resultType)
  | .map r =>
    match r.failure with
    | some evidence => .error (.preconditionFailed evidence)
    | none =>
      match r.amount with
      | .error x => .error (.missingOrNonnumericAmount x)
      | .ok amount =>
        match terminalValue terminal r.value with
        | .error x => .error (.terminalValueNotNumeric x)
        | .ok value =>
          match r.effects.list with
          | .error x => .error (.effectsNotVector x)
          | .ok raw =>
            match raw.mapM (declared emits) with
            | none => .error (.undeclaredEffect emits raw)
            | some effects => .ok ⟨amount, value, effects, r.shortCircuit⟩

/-- the effects of a node beside those under other keys -/
def mergePartition (node : Option Keyword) : List (Effect σ) → List (Effect σ) → List Keyword →
    Except (MergeViolation σ) (List (Effect σ))
  | [], current, _ => .ok current
  | e :: remaining, current, seen =>
    match e.partitionKey with
    | none => .error (.missingEffectPartitionKey node e)
    | some key =>
      if key ∈ seen then .error (.duplicateEffectPartitionKey node key)
      else mergePartition node remaining (current ++ [e]) (key :: seen)

def mergeNodeEffects (strategy : MergeStrategy) (node : Option Keyword)
    (accumulated nodeEffects : List (Effect σ)) : Except (MergeViolation σ) (List (Effect σ)) :=
  match strategy with
  | .accumulate => .ok (accumulated ++ nodeEffects)
  | .replace => .ok nodeEffects
  | .partition => mergePartition node nodeEffects accumulated
      (accumulated.filterMap Effect.partitionKey)
  | .other name => .error (.unsupportedEffectMergeStrategy (.other name))

/-! ## running the nodes -/

inductive Stop (σ : Type)
  | failure (node : Option Keyword) (f : Failure σ)
  | rejection (node : Option Keyword)
  | shortCircuited

structure Acc (ν σ : Type) where
  value : ν
  effects : List (Effect σ)
  nodes : List (NodeEvidence ν σ)
  stop : Option (Stop σ)

def resolveEntrypoint (resolve : Keyword → Resolved ν σ π) (e : Option (Entry ρ)) :
    Resolved ν σ π :=
  match e.bind fun e => e.capability.entrypoint with
  | none => .missing
  | some symbol => resolve symbol

/-- `-` on the integers of the host, with the class of what it throws -/
def minusIntegers (a b : LongArith.HostInt) : Except Keyword LongArith.HostInt :=
  (a.sub? b).elim (.error "java.lang.ArithmeticException") .ok

variable (minus : ν → ν → Except Keyword ν) (resolve : Keyword → Resolved ν σ π)

/-- `minus` is `-` on the numbers of the host; the value is computed before the merge is looked at -/
def runNode (strategy : MergeStrategy) (emap : ExtensionMap ρ) (params : π) (acc : Acc ν σ)
    (n : PlanNode σ ρ) : Acc ν σ :=
  let e := find emap n.capabilityKey
  match resolveEntrypoint resolve e with
  | .missing => { acc with stop := some (.failure n.id
      (.missingEntrypoint (e.bind fun e => e.capability.entrypoint))) }
  | .threw cls => { acc with stop := some (.failure n.id (.invocationException cls)) }
  | .found f =>
    match checkResult n.terminal n.emits (f ⟨acc.value, n.spec, params, n.addresses, n.id⟩) with
    | .error failure => { acc with stop := some (.failure n.id failure) }
    | .ok result =>
      match if n.terminal then .ok (result.value.getD result.amount)
        else minus acc.value result.amount with
      | .error cls => { acc with stop := some (.failure n.id (.evaluationException cls)) }
      | .ok valueOut =>
        match mergeNodeEffects strategy n.id acc.effects result.effects with
        | .error v => { acc with stop := some (.failure n.id (.invalidEffects v)) }
        | .ok effects =>
          let evidence := ⟨n.id, acc.value, result.amount, valueOut, result.effects⟩
          let acc' := { acc with
            value := valueOut, effects := effects, nodes := acc.nodes ++ [evidence] }
          if result.shortCircuit && n.mayShortCircuit then
            { acc' with stop := some .shortCircuited }
          else if result.shortCircuit then { acc' with stop := some (.rejection n.id) }
          else acc'

/-- nothing runs after a stop -/
def runNodes (strategy : MergeStrategy) (emap : ExtensionMap ρ) (params : π) :
    Acc ν σ → List (PlanNode σ ρ) → Acc ν σ
  | acc, [] => acc
  | acc, n :: nodes =>
    if acc.stop.isSome then acc
    else runNodes strategy emap params (runNode minus resolve strategy emap params acc n) nodes

/-! ## the executor -/

/-- an edge has the keys of an edge, and no others -/
def Edge.closed (e : Edge) : Bool :=
  e.id.isSome && e.valueSemantic.isSome && decide (e.extra = [])

def authenticatedPlan (H : Roots σ ρ) (p : Plan σ ρ) : Bool :=
  decide (p.schemaVersion = planSchemaVersion)
  && decide (p.compilerId = Composition.compilerId)
  && decide (p.compilerVersion = Composition.compilerVersion)
  && H.wellFormed p.root
  && p.edges.all Edge.closed
  && p.inputContract.isSome
  && p.outputContract.isSome
  && decide (p.root = planRoot H p.toPlanBody)

def mergePlanViolation (p : Plan σ ρ) : Option (Rejection ρ) :=
  if p.effectMergeStrategy ∉ supportedMergeStrategies then
    some (.unsupportedEffectMergeStrategy p.effectMergeStrategy)
  else if nodeStrategies p.nodes ≠ [p.effectMergeStrategy] then
    some (.effectMergeStrategyMismatch p.effectMergeStrategy (nodeStrategies p.nodes))
  else none

/-- the contract of a capability is valid and has the root the plan commits to -/
def contractMatches (H : Roots σ ρ) (n : PlanNode σ ρ) (cap : Capability) : Bool :=
  match cap.compositionContract with
  | none => false
  | some raw => decide (validateContract raw = [])
      && decide (n.contractRoot = H.contract (normalizeContract raw))

/-- a node whose capability is not the one the plan commits to -/
def mismatched (H : Roots σ ρ) (emap : ExtensionMap ρ) (n : PlanNode σ ρ) : Bool :=
  match find emap n.capabilityKey with
  | none => true
  | some e =>
    decide (e.descriptorRoot ≠ n.capabilityRoot)
    || decide (executionSafety e.capability ≠ some .pureCalculation)
    || decide (n.entrypointSafety ≠ executionSafety e.capability)
    || decide (e.descriptorRoot ≠ H.manifests.descriptorRoot e.capability)
    || !contractMatches H n e.capability

/-- what is left of a run: nothing but a diagnosis where it failed or was rejected -/
def outcome (root : ρ) (acc : Acc ν σ) : Execution ν σ ρ :=
  match acc.stop with
  | some (.rejection node) => .rejected [.unauthorizedShortCircuit node]
  | some (.failure node f) => .failed root node f acc.nodes
  | some .shortCircuited => .ended true root acc.value acc.effects acc.nodes
  | none => .ended false root acc.value acc.effects acc.nodes

/-- the root a node was compiled with, and the one its capability has -/
def mismatch (emap : ExtensionMap ρ) (n : PlanNode σ ρ) : Option Keyword × ρ × Option ρ :=
  (n.id, n.capabilityRoot, (find emap n.capabilityKey).map Entry.descriptorRoot)

/-- the input is a number, or it has the type of something else -/
def executeCompiledPlan (H : Roots σ ρ) (p : Plan σ ρ) (emap : ExtensionMap ρ) (params : π)
    (input : Except (Option Keyword) ν) : Execution ν σ ρ :=
  if !authenticatedPlan H p then .rejected [.unauthenticatedPlan]
  else
    let inputs := p.compilerInputs
    let replay := compileCombination H ⟨emap, inputs.evidenceContracts, inputs.obligations⟩
      inputs.combination
    let unsafeNodes := p.nodes.filter fun n => n.entrypointSafety ≠ some .pureCalculation
    let unsupported := p.nodes.filter fun n => n.failureMode ≠ .abort
    let mismatches := p.nodes.filter (mismatched H emap)
    match mergePlanViolation p with
    | some v => .rejected [v]
    | none =>
      if unsafeNodes ≠ [] then .rejected [.unsafeEntrypoint (unsafeNodes.map PlanNode.id)]
      else if unsupported ≠ [] then
        .rejected [.unsupportedFailureMode (unsupported.map PlanNode.id)]
      else if mismatches ≠ [] then
        .rejected [.descriptorRootMismatch (mismatches.map (mismatch emap))]
      else
        match replay with
        | .error _ => .rejected [.compilerReplayMismatch false]
        | .ok replayed =>
          if replayed ≠ p then .rejected [.compilerReplayMismatch true]
          else
            match input with
            | .error inputType =>
              .failed p.root (p.nodes.head?.bind PlanNode.id) (.pipelineInputNotNumeric inputType) []
            | .ok v => outcome p.root
                (runNodes minus resolve p.effectMergeStrategy emap params ⟨v, [], [], none⟩ p.nodes)

def executeCombination (H : Roots σ ρ) (ctx : Context ρ) (c : Combination σ) (params : π)
    (input : Except (Option Keyword) ν) : Execution ν σ ρ :=
  match compileCombination H ctx c with
  | .error violations => .rejected (violations.map .compile)
  | .ok plan => executeCompiledPlan minus resolve H plan ctx.extensions params input

end

end PRF.Composition
