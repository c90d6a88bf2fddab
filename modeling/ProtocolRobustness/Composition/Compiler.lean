import ProtocolRobustness.Composition.Combination
import ProtocolRobustness.Extensions.Registry

/-!
# The composition compiler

A requested combination is resolved against a registry and compiled into a plan, or refused with what
is wrong with it.  Plans are ordered pipelines.  The compiler looks for cycles with Kahn's algorithm,
whatever the edges are.

* `graphHasCycle`        the search for a cycle;
* `compileNode`          a node against the registry;
* `Plan`, `buildPlan`    a compiled plan and its root;
* `compileCombination`   the compiler.
-/

namespace PRF.Composition
open Table
open Extensions (ExtensionMap Entry Capability CapabilityKey)

section
variable {ι : Type} [DecidableEq ι]

/-- the count of a node, zero where there is none -/
def degree (m : List (ι × ℤ)) (y : ι) : ℤ := (find m y).getD 0

/-- how many edges lead to each node -/
def inDegrees (edges : List (ι × ι)) : List (ι × ℤ) :=
  edges.foldl (fun m e => put m e.2 (degree m e.2 + 1)) []

def adjacent (edges : List (ι × ι)) : List (ι × List ι) :=
  edges.foldl (fun m e => put m e.1 ((find m e.1).getD [] ++ [e.2])) []

/-- the edges to the nodes `next` are taken away; nodes without further edges are ready -/
def relax (inDegree : List (ι × ℤ)) (queue next : List ι) : List (ι × ℤ) × List ι :=
  next.foldl (fun s m =>
    let newIn := degree s.1 m - 1
    (put s.1 m newIn, if newIn = 0 then s.2 ++ [m] else s.2)) (inDegree, queue)

/-- the loop of Kahn's algorithm, with the last node of the queue taken first -/
def kahnLoop (adj : List (ι × List ι)) : ℕ → List ι → ℕ → List (ι × ℤ) → Option ℕ
  | 0, _, _, _ => none
  | fuel + 1, queue, processed, inDegree =>
    match queue.getLast? with
    | none => some processed
    | some n =>
      let next := relax inDegree queue.dropLast ((find adj n).getD [])
      kahnLoop adj fuel next.2 (processed + 1) next.1

/-- `none` where the loop is not done within as many turns as there are nodes and edges -/
def graphHasCycle (nodeIds : List ι) (edges : List (ι × ι)) : Option Bool :=
  let inDegree := inDegrees edges
  let queue := nodeIds.filter fun n => ¬ 0 < degree inDegree n
  (kahnLoop (adjacent edges) (nodeIds.length + edges.length + 1) queue 0 inDegree).map
    fun processed => decide (processed < nodeIds.length)

/-- `unreachable-node-ids`: nodes after the first that no edge leads to -/
def unreachableNodeIds (nodeIds : List ι) (edges : List (ι × ι)) : List ι :=
  nodeIds.tail.filter fun n => n ∉ edges.map Prod.snd

end

def compilerId : Keyword := "resolver-sim.composition.compiler/sequential-v1"
def compilerVersion : ℤ := 3
def planSchemaVersion : ℤ := 2

/-! ## nodes of a plan -/

structure PlanNode (σ ρ : Type) where
  id : Option Keyword
  capabilityKey : CapabilityKey
  capabilityVersion : Option ℤ
  capabilityRoot : ρ
  entrypointSafety : Option ExecutionSafety
  contractRoot : ρ
  inputSemantic : Option Keyword
  outputSemantic : Option Keyword
  terminal : Bool
  mayShortCircuit : Bool
  failureMode : FailureMode
  mergeStrategy : MergeStrategy
  emits : List Keyword
  exclusiveEffects : List Keyword
  intermediateOutputCommitted : Bool
  spec : σ
  basis : Option Basis
  addresses : Option Addresses
  custody : Custody
  deriving DecidableEq

structure PlanVerification (σ : Type) where
  intermediateOutputCommitted : Bool
  evidenceContract : Option CommittedEvidence
  obligations : List (ResolvedObligation σ)
  deriving DecidableEq

/-- what the compiler was given, as far as the plan depends on it -/
structure CompilerInputs (σ : Type) where
  combination : Combination σ
  evidenceContracts : List (Keyword × EvidenceContract)
  obligations : List (Keyword × Definition)
  deriving DecidableEq

/-- the fields of a plan that its root commits to -/
structure PlanBody (σ ρ : Type) where
  schemaVersion : ℤ
  combinationRoot : ρ
  compilerId : Keyword
  compilerVersion : ℤ
  nodes : List (PlanNode σ ρ)
  edges : List Edge
  addresses : Option Addresses
  inputContract : Option GraphContract
  outputContract : Option GraphContract
  effectMergeStrategy : MergeStrategy
  verification : PlanVerification σ
  compilerInputs : CompilerInputs σ
  deriving DecidableEq

structure Plan (σ ρ : Type) extends PlanBody σ ρ where
  root : ρ
  deriving DecidableEq

/-- the hashes of contracts, combinations and plans, and which roots are well formed -/
structure Roots (σ ρ : Type) where
  manifests : Extensions.Manifests ρ
  contract : Contract → ρ
  combination : Combination σ → ρ
  plan : PlanBody σ ρ → ρ
  wellFormed : ρ → Bool

/-- the registries a combination is compiled against -/
structure Context (ρ : Type) where
  extensions : ExtensionMap ρ
  evidenceContracts : List (Keyword × EvidenceContract)
  obligations : List (Keyword × Definition)

inductive ConflictReason
  | multipleExclusiveClaimants
  | crossNodeExclusiveEmission
  deriving DecidableEq

inductive CustodyConflict
  | exclusiveCustodyAccount (accounts : List Keyword)
  | custodyDirection (accounts : List Keyword) (first second : Direction)
  deriving DecidableEq

inductive Violation
  | combination (v : CombinationViolation)
  | unresolvedCapability (node : Option Keyword)
  | capabilityVersionMismatch (node : Option Keyword) (requested : Option RequestedVersion)
      (resolved : Option ℤ)
  | missingCompositionContract (node : Option Keyword)
  | invalidCompositionContract (node : Option Keyword) (violations : List ContractViolation)
  | unsupportedCompositionMode (node : Option Keyword) (modes : List Mode)
  | nondeterministicCapabilityForbidden (node : Option Keyword)
  | unsafeEntrypoint (node : Option Keyword) (safety : Option ExecutionSafety)
  | inputOutputSemanticMismatch (fromId toId sourceOutput targetInput : Option Keyword)
  | graphInputNotSatisfied (expected firstNodeInput : Option Keyword)
  | graphOutputNotSatisfied (expected lastNodeOutput : Option Keyword)
  | illegalTerminalPlacement (node : Option Keyword)
  | undeclaredDependency (node references : Option Keyword)
  | effectConflict (effect : Keyword) (owners producers : List (Option Keyword))
      (reason : ConflictReason)
  | custodyEffectConflict (first second : Option Keyword) (conflict : CustodyConflict)
  | failureModeConflict (first second : Option Keyword) (modes : FailureMode × FailureMode)
  | unsupportedFailureMode (node : Option Keyword)
  | mergeConflict (declared : Option MergeStrategy) (strategies : List MergeStrategy)
  | unsupportedAdapters (adapters : List Keyword)
  | verificationContractNotPreserved
  | evidence (ref : Keyword) (v : EvidenceViolation)
  | obligation (ref : Option Keyword) (v : ObligationViolation)
  | cycleDetected (nodes : List (Option Keyword))
  | unreachableNode (nodes : List (Option Keyword))
  deriving DecidableEq

/-- why a step is refused -/
def refusal {ε α : Type} : Except ε α → Option ε
  | .error e => some e
  | .ok _ => none

section
variable {σ ρ : Type} [DecidableEq σ] [DecidableEq ρ]

/-- `execution-safety`: what the contract of a capability declares -/
def executionSafety (cap : Capability) : Option ExecutionSafety :=
  cap.compositionContract.bind Authored.executionSafety

/-- a node whose capability and contract are there -/
def planNode (H : Roots σ ρ) (n : Node σ) (ref : CapabilityKey) (e : Entry ρ) (c : Contract) :
    PlanNode σ ρ where
  id := n.id
  capabilityKey := ref
  capabilityVersion := e.capability.version
  capabilityRoot := e.descriptorRoot
  entrypointSafety := executionSafety e.capability
  contractRoot := H.contract c
  inputSemantic := c.input.semanticType
  outputSemantic := c.output.semanticType
  terminal := c.control.terminal
  mayShortCircuit := c.control.mayShortCircuit
  failureMode := c.control.failureMode
  mergeStrategy := c.effects.mergeStrategy
  emits := c.effects.emits
  exclusiveEffects := c.effects.exclusiveEffects
  intermediateOutputCommitted := c.verification.intermediateOutputCommitted
  spec := n.spec
  basis := n.basis
  addresses := n.addresses
  custody := c.custody

/-- a node whose capability is in the registry -/
def compileEntry (H : Roots σ ρ) (n : Node σ) (ref : CapabilityKey) (e : Entry ρ) :
    Except Violation (PlanNode σ ρ) :=
  if n.capabilityVersion ≠ some .any ∧ n.capabilityVersion ≠ e.capability.version.map .exactly then
    .error (.capabilityVersionMismatch n.id n.capabilityVersion e.capability.version)
  else
    match e.capability.compositionContract with
    | none => .error (.missingCompositionContract n.id)
    | some raw =>
      if validateContract raw ≠ [] then
        .error (.invalidCompositionContract n.id (validateContract raw))
      else
        let c := normalizeContract raw
        if .sequential ∉ c.modes then .error (.unsupportedCompositionMode n.id c.modes)
        else if c.determinism.required = false then
          .error (.nondeterministicCapabilityForbidden n.id)
        else if executionSafety e.capability ≠ some .pureCalculation then
          .error (.unsafeEntrypoint n.id (executionSafety e.capability))
        else .ok (planNode H n ref e c)

def compileNode (H : Roots σ ρ) (emap : ExtensionMap ρ) (n : Node σ) :
    Except Violation (PlanNode σ ρ) :=
  match n.capabilityRef with
  | none => .error (.unresolvedCapability n.id)
  | some ref =>
    match find emap ref with
    | none => .error (.unresolvedCapability n.id)
    | some e => compileEntry H n ref e

/-! ## checks of a pipeline -/

section
variable (nodes : List (PlanNode σ ρ)) (edges : List Edge)

def byId (id : Option Keyword) : Option (PlanNode σ ρ) := find (nodes.map fun n => (n.id, n)) id

def edgeViolations : List Violation :=
  edges.filterMap fun e =>
    let source := (byId nodes e.fromId).bind PlanNode.outputSemantic
    let target := (byId nodes e.toId).bind PlanNode.inputSemantic
    if source = target then none
    else some (.inputOutputSemanticMismatch e.fromId e.toId source target)

/-- terminal nodes have no successors -/
def terminalViolations : List Violation :=
  nodes.dropLast.filterMap fun n =>
    if n.terminal = true ∧ n.id ∈ edges.map Edge.fromId then some (.illegalTerminalPlacement n.id)
    else none

def Basis.stepOutput : Option Basis → Option Keyword
  | some (.map source stepId) => if source = some "step/output" then stepId else none
  | _ => none

/-- the output of a step is a basis for later ones only -/
def basisViolations (nodeIds : List (Option Keyword)) : List Violation :=
  nodes.zipIdx.filterMap fun p =>
    match Basis.stepOutput p.1.basis with
    | none => none
    | some step =>
      if some step ∈ nodeIds.take p.2 then none
      else some (.undeclaredDependency p.1.id (some step))

/-- the nodes that declare each effect exclusive -/
def exclusiveOwners : List (Keyword × List (Option Keyword)) :=
  nodes.foldl (fun owners n => n.exclusiveEffects.foldl (fun owners effect =>
    let before := (find owners effect).getD []
    put owners effect (if n.id ∈ before then before else before ++ [n.id])) owners) []

def effectConflicts : List Violation :=
  (exclusiveOwners nodes).filterMap fun e =>
    let producers := (nodes.filter fun n => e.1 ∈ n.emits ∧ n.id ∉ e.2).map PlanNode.id
    if 1 < e.2.length ∨ producers ≠ [] then
      some (.effectConflict e.1 e.2 producers
        (if 1 < e.2.length then .multipleExclusiveClaimants else .crossNodeExclusiveEmission))
    else none

def inter (a b : List Keyword) : List Keyword := a.filter (· ∈ b)

/-- the conflicts over custody between two nodes -/
def custodyConflicts (a b : PlanNode σ ρ) : List Violation :=
  let exclusiveA := inter a.custody.exclusiveAccounts (b.custody.exclusiveAccounts ++ b.custody.accounts)
  let exclusiveB := inter b.custody.exclusiveAccounts (a.custody.exclusiveAccounts ++ a.custody.accounts)
  let shared := inter a.custody.accounts b.custody.accounts
  (if exclusiveA ≠ [] then
    [.custodyEffectConflict a.id b.id (.exclusiveCustodyAccount exclusiveA)] else [])
  ++ (if exclusiveB ≠ [] then
    [.custodyEffectConflict b.id a.id (.exclusiveCustodyAccount exclusiveB)] else [])
  ++ (if shared ≠ [] ∧ a.custody.direction ≠ .either ∧ b.custody.direction ≠ .either
      ∧ a.custody.direction ≠ b.custody.direction then
    [.custodyEffectConflict a.id b.id
      (.custodyDirection shared a.custody.direction b.custody.direction)] else [])

/-- every two nodes, the earlier one first -/
def pairs {α : Type} : List α → List (α × α)
  | [] => []
  | a :: l => l.map (fun b => (a, b)) ++ pairs l

def custodyConflictViolations : List Violation :=
  (pairs nodes).flatMap fun p => custodyConflicts p.1 p.2

def failureModeConflicts : List Violation :=
  (nodes.zip nodes.tail).filterMap fun p =>
    if p.1.failureMode ≠ p.2.failureMode then
      some (.failureModeConflict p.1.id p.2.id (p.1.failureMode, p.2.failureMode))
    else none

def unsupportedFailureModes : List Violation :=
  nodes.filterMap fun n =>
    if n.failureMode = .«continue» then some (.unsupportedFailureMode n.id) else none

/-- the strategies of the nodes, each once -/
def nodeStrategies : List MergeStrategy := (nodes.map PlanNode.mergeStrategy).dedup

def mergeConflicts (declared : Option MergeStrategy) : List Violation :=
  match declared with
  | some d => if (nodeStrategies nodes).any (· ≠ d) then
      [.mergeConflict (some d) (nodeStrategies nodes)] else []
  | none => if 1 < (nodeStrategies nodes).length then
      [.mergeConflict none (nodeStrategies nodes)] else []

def requiresIntermediate : Bool := nodes.any PlanNode.intermediateOutputCommitted

def verificationConflicts (declared : Option (CombinationVerification σ)) : List Violation :=
  if declared.bind CombinationVerification.intermediateOutputCommitted = some false
      ∧ requiresIntermediate nodes = true then [.verificationContractNotPreserved] else []

end

def evidenceRef (declared : Option (CombinationVerification σ)) : Option Keyword :=
  declared.bind CombinationVerification.evidenceContractRef

def evidenceViolations (registry : List (Keyword × EvidenceContract))
    (declared : Option (CombinationVerification σ)) : List Violation :=
  match evidenceRef declared with
  | none => []
  | some ref => ((refusal (resolveRef registry ref)).map (Violation.evidence ref)).toList

def sourceObligations (declared : Option (CombinationVerification σ)) : List (Obligation σ) :=
  (declared.bind CombinationVerification.obligations).getD []

def obligationViolations (registry : List (Keyword × Definition))
    (declared : Option (CombinationVerification σ)) : List Violation :=
  (sourceObligations declared).filterMap fun o =>
    (refusal (resolveObligation registry o)).map (Violation.obligation o.ref)

def cycleViolations (nodeIds : List (Option Keyword)) (edges : List Edge) : List Violation :=
  if graphHasCycle nodeIds (edges.map endpoints) = some true then [.cycleDetected nodeIds] else []

def unreachableViolations (nodeIds : List (Option Keyword)) (edges : List Edge) :
    List Violation :=
  let unreachable := unreachableNodeIds nodeIds (edges.map endpoints)
  if unreachable ≠ [] then [.unreachableNode unreachable] else []

def inputViolations (c : Combination σ) (nodes : List (PlanNode σ ρ)) : List Violation :=
  let expected := c.input.bind GraphContract.semanticType
  let first := nodes.head?.bind PlanNode.inputSemantic
  if expected ≠ first then [.graphInputNotSatisfied expected first] else []

def outputViolations (c : Combination σ) (nodes : List (PlanNode σ ρ)) : List Violation :=
  let expected := c.expectedOutput.bind GraphContract.semanticType
  let last := nodes.getLast?.bind PlanNode.outputSemantic
  if expected ≠ last then [.graphOutputNotSatisfied expected last] else []

def adapterViolations (c : Combination σ) : List Violation :=
  if c.adapters ≠ [] then [.unsupportedAdapters c.adapters] else []

/-! ## plans -/

def planRoot (H : Roots σ ρ) (body : PlanBody σ ρ) : ρ := H.plan body

def buildPlan (H : Roots σ ρ) (body : PlanBody σ ρ) : Plan σ ρ := ⟨body, planRoot H body⟩

/-- what is wrong with the nodes that are not compiled -/
def nodeViolations (H : Roots σ ρ) (emap : ExtensionMap ρ) (nodes : List (Node σ)) :
    List Violation :=
  nodes.filterMap fun n => refusal (compileNode H emap n)

def compileNodes (H : Roots σ ρ) (emap : ExtensionMap ρ) (nodes : List (Node σ)) :
    List (PlanNode σ ρ) :=
  nodes.filterMap fun n => (compileNode H emap n).toOption

/-- all the checks of the pipeline -/
def allViolations (ctx : Context ρ) (c : Combination σ) (nodes : List (PlanNode σ ρ)) :
    List Violation :=
  let edges := effectiveEdges c
  edgeViolations nodes edges
  ++ inputViolations c nodes
  ++ outputViolations c nodes
  ++ terminalViolations nodes edges
  ++ basisViolations nodes c.nodeIds
  ++ effectConflicts nodes
  ++ custodyConflictViolations nodes
  ++ failureModeConflicts nodes
  ++ unsupportedFailureModes nodes
  ++ mergeConflicts nodes c.effectMergeStrategy
  ++ adapterViolations c
  ++ verificationConflicts nodes c.verification
  ++ evidenceViolations ctx.evidenceContracts c.verification
  ++ obligationViolations ctx.obligations c.verification
  ++ cycleViolations c.nodeIds edges
  ++ unreachableViolations c.nodeIds edges

/-- the addresses of the combination where a node has none of its own -/
def addressed (c : Combination σ) (n : PlanNode σ ρ) : PlanNode σ ρ :=
  { n with addresses := n.addresses.or c.addresses }

def planNodes (H : Roots σ ρ) (ctx : Context ρ) (c : Combination σ) : List (PlanNode σ ρ) :=
  (compileNodes H ctx.extensions c.nodes).map (addressed c)

def planVerification (ctx : Context ρ) (c : Combination σ) (nodes : List (PlanNode σ ρ)) :
    PlanVerification σ where
  intermediateOutputCommitted := requiresIntermediate nodes
    || (c.verification.bind CombinationVerification.intermediateOutputCommitted).getD false
  evidenceContract := (evidenceRef c.verification).bind fun ref =>
    (resolveRef ctx.evidenceContracts ref).toOption.map (committedIdentity ref)
  obligations := (sourceObligations c.verification).filterMap fun o =>
    (resolveObligation ctx.obligations o).toOption

def compilerInputs (ctx : Context ρ) (c : Combination σ) : CompilerInputs σ where
  combination := combinationProjection c
  evidenceContracts := (evidenceRef c.verification).elim []
    fun ref => selectKeys ctx.evidenceContracts [ref]
  obligations := selectKeys ctx.obligations ((sourceObligations c.verification).filterMap Obligation.ref)

def planBody (H : Roots σ ρ) (ctx : Context ρ) (c : Combination σ) (nodes : List (PlanNode σ ρ)) :
    PlanBody σ ρ where
  schemaVersion := planSchemaVersion
  combinationRoot := H.combination (combinationProjection c)
  compilerId := Composition.compilerId
  compilerVersion := Composition.compilerVersion
  nodes := nodes
  edges := effectiveEdges c
  addresses := c.addresses
  inputContract := c.input
  outputContract := c.expectedOutput
  effectMergeStrategy := (c.effectMergeStrategy.or (nodeStrategies nodes).head?).getD .accumulate
  verification := planVerification ctx c nodes
  compilerInputs := compilerInputs ctx c

def compileCombination (H : Roots σ ρ) (ctx : Context ρ) (c : Combination σ) :
    Except (List Violation) (Plan σ ρ) :=
  if validateCombination c ≠ [] then .error ((validateCombination c).map .combination)
  else
    let violations := nodeViolations H ctx.extensions c.nodes
    if violations ≠ [] then .error violations
    else
      let nodes := planNodes H ctx c
      if allViolations ctx c nodes ≠ [] then .error (allViolations ctx c nodes)
      else .ok (buildPlan H (planBody H ctx c nodes))

end

end PRF.Composition
