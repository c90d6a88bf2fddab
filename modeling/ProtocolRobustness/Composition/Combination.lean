import ProtocolRobustness.Composition.Contract

/-!
# Requested combinations

A combination lists the capabilities of a pipeline in their order, and may give the edges between
them.  It is what the compiler is given, and may be invalid.

* `Combination`, `Node`, `Edge`    a request;
* `consecutiveEdges`               the edges of a pipeline;
* `combinationProjection`          what a combination commits to;
* `validateCombination`            what is wrong with a request;
* `validate_projection`            the committed part of a valid request is valid.
-/

namespace PRF.Composition

def combinationVersion : ℤ := 1

inductive RequestedVersion
  | any
  | exactly (n : ℤ)
  deriving DecidableEq

/-- the custody addresses effects must carry; `unknown` are keys beyond those -/
structure Addresses where
  owner : Option Keyword
  parameter : Option Keyword
  context : Option Keyword
  unknown : List Keyword
  deriving DecidableEq

/-- what the amount of a step is based on: a keyword, or a map -/
inductive Basis
  | plain (name : Keyword)
  | map (source : Option Keyword) (stepId : Option Keyword)
  deriving DecidableEq

/-- an edge; `id` and `valueSemantic` are `none` where the key is absent, `extra` are other keys -/
structure Edge where
  id : Option Keyword
  fromId : Option Keyword
  toId : Option Keyword
  valueSemantic : Option (Option Keyword)
  extra : List Keyword
  deriving DecidableEq

/-- a capability of the pipeline; `metadata` is what the projection leaves out -/
structure Node (σ : Type) where
  id : Option Keyword
  capabilityRef : Option (Keyword × Keyword)
  capabilityVersion : Option RequestedVersion
  spec : σ
  basis : Option Basis
  addresses : Option Addresses
  metadata : Option σ
  deriving DecidableEq

/-- what goes into a pipeline, or comes out of it -/
structure GraphContract where
  schemaRef : Option Keyword
  semanticType : Option Keyword
  deriving DecidableEq

structure CombinationVerification (σ : Type) where
  intermediateOutputCommitted : Option Bool
  evidenceContractRef : Option Keyword
  obligations : Option (List (Obligation σ))
  deriving DecidableEq

structure Combination (σ : Type) where
  id : Option Keyword
  version : Option ℤ
  nodes : List (Node σ)
  edges : Option (List Edge)
  input : Option GraphContract
  expectedOutput : Option GraphContract
  effectMergeStrategy : Option MergeStrategy
  verification : Option (CombinationVerification σ)
  addresses : Option Addresses
  adapters : List Keyword
  deriving DecidableEq

section
variable {σ : Type}

/-- the edge from the node at `i` to the next one -/
def consecutiveEdge (nodeIds : List (Option Keyword)) (i : ℕ) : Edge where
  id := some s!"edge-{i}"
  fromId := (nodeIds[i]?).join
  toId := (nodeIds[i + 1]?).join
  valueSemantic := some none
  extra := []

def consecutiveEdges (nodeIds : List (Option Keyword)) : List Edge :=
  (List.range (nodeIds.length - 1)).map (consecutiveEdge nodeIds)

def Combination.nodeIds (c : Combination σ) : List (Option Keyword) := c.nodes.map Node.id

def effectiveEdges (c : Combination σ) : List Edge := c.edges.getD (consecutiveEdges c.nodeIds)

def projectNode (n : Node σ) : Node σ := { n with metadata := none }

def combinationProjection (c : Combination σ) : Combination σ :=
  { c with
    nodes := c.nodes.map projectNode
    edges := some (effectiveEdges c)
    adapters := [] }

/-! ## validation -/

inductive CombinationViolation
  | missingCombinationId
  | invalidCombinationVersion
  | emptyCombination
  | missingNodeId
  | duplicateNodeId
  | invalidCapabilityReference
  | invalidCapabilityVersion
  | missingCombinationInput
  | invalidCombinationInputContract
  | missingCombinationExpectedOutput
  | invalidCombinationOutputContract
  | invalidCombinationEdges
  | missingOrInvalidCombinationAddress
  | unknownCombinationAddressKey (unknown : List Keyword)
  deriving DecidableEq

def addressViolations (a : Addresses) : List CombinationViolation :=
  (if a.owner.isNone || a.parameter.isNone then [.missingOrInvalidCombinationAddress] else [])
  ++ (if a.unknown ≠ [] then [.unknownCombinationAddressKey a.unknown] else [])

def GraphContract.valid (g : GraphContract) : Bool := g.schemaRef.isSome && g.semanticType.isSome

def RequestedVersion.invalid : Option RequestedVersion → Bool
  | some .any => false
  | some (.exactly n) => decide (¬ 0 < n)
  | none => true

def endpoints (e : Edge) : Option Keyword × Option Keyword := (e.fromId, e.toId)

open CombinationViolation in
def validateCombination (c : Combination σ) : List CombinationViolation :=
  (if c.id.isNone then [missingCombinationId] else [])
  ++ (if c.version ≠ some combinationVersion then [invalidCombinationVersion] else [])
  ++ (if c.nodes = [] then [emptyCombination] else [])
  ++ (if ¬ c.nodes.all (fun n => n.id.isSome) then [missingNodeId] else [])
  ++ (if ¬ c.nodeIds.Nodup then [duplicateNodeId] else [])
  ++ (if ¬ c.nodes.all (fun n => n.capabilityRef.isSome) then [invalidCapabilityReference] else [])
  ++ (if c.nodes.any (fun n => RequestedVersion.invalid n.capabilityVersion) then
      [invalidCapabilityVersion] else [])
  ++ (match c.input with
    | none => [missingCombinationInput]
    | some g => if g.valid then [] else [invalidCombinationInputContract])
  ++ (match c.expectedOutput with
    | none => [missingCombinationExpectedOutput]
    | some g => if g.valid then [] else [invalidCombinationOutputContract])
  ++ (match c.edges with
    | none => []
    | some edges => if (consecutiveEdges c.nodeIds).map endpoints ≠ edges.map endpoints then
        [invalidCombinationEdges] else [])
  ++ (match c.addresses with
    | none => []
    | some a => addressViolations a)
  ++ c.nodes.flatMap fun n => match n.addresses with
    | none => []
    | some a => addressViolations a

/-! ## what is committed -/

variable {c : Combination σ}

theorem nodeIds_projection (c : Combination σ) : (combinationProjection c).nodeIds = c.nodeIds := by
  show (c.nodes.map projectNode).map Node.id = c.nodes.map Node.id
  rw [List.map_map]
  rfl

/-- **Committing twice commits to the same.** -/
theorem combinationProjection_twice (c : Combination σ) :
    combinationProjection (combinationProjection c) = combinationProjection c := by
  unfold combinationProjection
  simp only [List.map_map]
  congr 1

/-- A combination that nothing is wrong with. -/
structure WellFormed (c : Combination σ) : Prop where
  nonempty : c.nodes ≠ []
  named : ∀ n ∈ c.nodes, n.id.isSome
  distinct : c.nodeIds.Nodup
  refs : ∀ n ∈ c.nodes, n.capabilityRef.isSome
  input : c.input.isSome
  output : c.expectedOutput.isSome
  chain : (effectiveEdges c).map endpoints = (consecutiveEdges c.nodeIds).map endpoints

theorem wellFormed_of_valid (h : validateCombination c = []) : WellFormed c := by
  simp only [validateCombination, List.append_eq_nil_iff, found_nothing] at h
  obtain ⟨⟨⟨⟨⟨⟨⟨⟨⟨⟨⟨-, -⟩, hnonempty⟩, hnamed⟩, hdistinct⟩, hrefs⟩, -⟩, hinput⟩, houtput⟩, hedges⟩, -⟩,
    -⟩ := h
  refine ⟨hnonempty, ?_, not_not.mp hdistinct, ?_, ?_, ?_, ?_⟩
  · exact List.all_eq_true.mp (not_not.mp hnamed)
  · exact List.all_eq_true.mp (not_not.mp hrefs)
  · cases hi : c.input with
    | none => simp [hi] at hinput
    | some g => rfl
  · cases ho : c.expectedOutput with
    | none => simp [ho] at houtput
    | some g => rfl
  · unfold effectiveEdges
    cases he : c.edges with
    | none => rfl
    | some edges =>
      rw [he] at hedges
      exact (not_not.mp (found_nothing.mp hedges)).symm

/-- **The committed part of a valid combination is valid.** -/
theorem validate_projection (h : validateCombination c = []) :
    validateCombination (combinationProjection c) = [] := by
  have hchain := (wellFormed_of_valid h).chain
  have hids := nodeIds_projection c
  simp only [validateCombination, List.append_eq_nil_iff, found_nothing] at h ⊢
  obtain ⟨⟨⟨⟨⟨⟨⟨⟨⟨⟨⟨hid, hversion⟩, hnonempty⟩, hnamed⟩, hdistinct⟩, hrefs⟩, hversions⟩, hinput⟩,
    houtput⟩, -⟩, haddresses⟩, hnodes⟩ := h
  refine ⟨⟨⟨⟨⟨⟨⟨⟨⟨⟨⟨hid, hversion⟩, ?_⟩, ?_⟩, ?_⟩, ?_⟩, ?_⟩, hinput⟩, houtput⟩, ?_⟩, haddresses⟩, ?_⟩
  · exact fun hnil => hnonempty (List.map_eq_nil_iff.mp hnil)
  · show ¬ ¬ (c.nodes.map projectNode).all _ = true
    rwa [List.all_map]
  · rwa [hids]
  · show ¬ ¬ (c.nodes.map projectNode).all _ = true
    rwa [List.all_map]
  · show ¬ (c.nodes.map projectNode).any _ = true
    rwa [List.any_map]
  · show (if (consecutiveEdges (combinationProjection c).nodeIds).map endpoints
      ≠ (effectiveEdges c).map endpoints then _ else _) = []
    rw [hids]
    exact found_nothing.mpr (not_not.mpr hchain.symm)
  · show (c.nodes.map projectNode).flatMap _ = []
    rwa [List.flatMap_map]

end

end PRF.Composition
