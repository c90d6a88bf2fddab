import ProtocolRobustness.Library.Table

/-!
# Reachability in execution DAGs

`evidence/reachability.clj`: the edges of a DAG that count, its structural errors with the search for
a cycle, and the breadth-first searches.

* `edgesForTraversal`, `buildAdjacency`   the edges that are followed;
* `dagCyclePath`          a cycle, by a depth-first search that marks the nodes;
* `dagStructuralErrors`   what is wrong with a declared DAG;
* `dagReachable`, `dagAncestors`, `dagDescendants`   by `bfsReachable`;
* `dagShortestPath`       by a search with a queue of paths.

A set or a map is a list of its elements; `walk` is the order in which one is walked.  The loops have
a bound on their turns, and say so when it is reached.
-/

namespace PRF.Evidence
open Table

section
variable {ι : Type*}

/-! ## DAGs as they are supplied -/

/-- an id, or one of the two values that are not true -/
inductive NodeId (ι : Type*)
  | nil
  | false
  | id (x : ι)
deriving DecidableEq

def NodeId.truthy : NodeId ι → Bool
  | .id _ => true
  | _ => Bool.false

/-- an entry of `:dag/nodes`, a map with a `:node/id` or something else -/
inductive NodeEntry (ι : Type*)
  | map (id : NodeId ι)
  | other
deriving DecidableEq

/-- an entry of `:dag/edges` -/
inductive EdgeEntry (ι : Type*)
  | map (fromId toId : NodeId ι)
  | other
deriving DecidableEq

def NodeEntry.nodeId : NodeEntry ι → NodeId ι
  | .map id => id
  | .other => .nil

def EdgeEntry.fromId : EdgeEntry ι → NodeId ι
  | .map fromId _ => fromId
  | .other => .nil

def EdgeEntry.toId : EdgeEntry ι → NodeId ι
  | .map _ toId => toId
  | .other => .nil

/-- a collection, which should be a vector -/
structure Entries (α : Type*) where
  items : List α
  isVector : Bool

/-- a map with `:dag/nodes` and `:dag/edges`, where it has these keys -/
structure Dag (ι : Type*) where
  nodes : Option (Entries (NodeEntry ι))
  edges : Option (Entries (EdgeEntry ι))

/-- what can be searched: a map, a vector of edges, or something without edges -/
inductive Graph (ι : Type*)
  | dag (d : Dag ι)
  | edges (l : List (EdgeEntry ι))
  | other

def Dag.nodeEntries (d : Dag ι) : Entries (NodeEntry ι) := d.nodes.getD ⟨[], true⟩

def Dag.edgeEntries (d : Dag ι) : Entries (EdgeEntry ι) := d.edges.getD ⟨[], true⟩

def Graph.declaredIds : Graph ι → Option (List (NodeId ι))
  | .dag d => d.nodes.map fun nodes => nodes.items.map NodeEntry.nodeId
  | _ => none

def Graph.suppliedEdges : Graph ι → List (EdgeEntry ι)
  | .dag d => d.edgeEntries.items
  | .edges l => l
  | .other => []

/-! ## adjacency -/

abbrev Adjacency (ι : Type*) := List (NodeId ι × List (NodeId ι))

variable [DecidableEq ι]

/-- `dag-edges-for-traversal` -/
def edgesForTraversal (g : Graph ι) : List (EdgeEntry ι) :=
  match g.declaredIds with
  | some declared => g.suppliedEdges.filter fun e => e.fromId ∈ declared ∧ e.toId ∈ declared
  | none => g.suppliedEdges

def children (adjacency : Adjacency ι) (node : NodeId ι) : List (NodeId ι) :=
  (find adjacency node).getD []

/-- `(update m from (fnil conj #{}) to)` -/
def conjAt (m : Adjacency ι) (fromId toId : NodeId ι) : Adjacency ι :=
  put m fromId (if toId ∈ children m fromId then children m fromId else children m fromId ++ [toId])

def buildAdjacency (g : Graph ι) : Adjacency ι :=
  (edgesForTraversal g).foldl (fun m e => conjAt m e.fromId e.toId) []

inductive SearchFailure
  | unfinished
  | incomparable
deriving DecidableEq

variable (walk : List (NodeId ι) → List (NodeId ι))

/-! ## cycles -/

inductive Mark
  | visiting
  | visited
deriving DecidableEq

abbrev Marks (ι : Type*) := NodeId ι → Option Mark

/-- `(some f nodes)`, where `f` marks nodes -/
def someFound (f : NodeId ι → Marks ι → Except SearchFailure (Option (List (NodeId ι)) × Marks ι)) :
    List (NodeId ι) → Marks ι → Except SearchFailure (Option (List (NodeId ι)) × Marks ι)
  | [], marks => .ok (none, marks)
  | node :: nodes, marks => do
    let (found, marks') ← f node marks
    match found with
    | some path => .ok (some path, marks')
    | none => someFound f nodes marks'

def visit (adjacency : Adjacency ι) : ℕ → NodeId ι → List (NodeId ι) → Marks ι →
    Except SearchFailure (Option (List (NodeId ι)) × Marks ι)
  | 0, _, _, _ => .error .unfinished
  | bound + 1, node, path, marks =>
    match marks node with
    | some .visiting => .ok (some (path.dropWhile (fun x => x ≠ node) ++ [node]), marks)
    | some .visited => .ok (none, marks)
    | none => do
      let (found, marks') ←
        someFound (fun child marks => visit adjacency bound child (path ++ [node]) marks)
          (walk (children adjacency node)) (Function.update marks node (some .visiting))
      .ok (found, Function.update marks' node (some .visited))

/-- a walk has no more nodes than this without coming back -/
def depthBound (adjacency : Adjacency ι) : ℕ :=
  (adjacency.map Prod.fst ++ adjacency.flatMap Prod.snd).length + 1

def dagCyclePath (adjacency : Adjacency ι) : Except SearchFailure (Option (List (NodeId ι))) :=
  (someFound (fun node marks => visit walk adjacency (depthBound adjacency) node [] marks)
    (walk (adjacency.map Prod.fst)) fun _ => none).map Prod.fst

/-! ## structural errors -/

inductive DagError
  | nodesNotVector | edgesNotVector | invalidNode | duplicateNodeId | invalidEdge
  | edgeEndpointUndeclared | selfLoop | cycle
deriving DecidableEq

def NodeEntry.invalid : NodeEntry ι → Bool
  | .map id => id = .nil
  | .other => true

def EdgeEntry.invalid : EdgeEntry ι → Bool
  | .map fromId toId => fromId = .nil ∨ toId = .nil
  | .other => true

open DagError in
/-- the errors of `dag-structural-errors` but for the cycle -/
def baseErrors (d : Dag ι) : List DagError :=
  let nodes := d.nodeEntries
  let edges := d.edgeEntries
  let ids := nodes.items.map NodeEntry.nodeId
  (if nodes.isVector then [] else [nodesNotVector])
    ++ (if edges.isVector then [] else [edgesNotVector])
    ++ (if nodes.items.any NodeEntry.invalid then [invalidNode] else [])
    ++ (if ids.length ≠ ids.dedup.length then [duplicateNodeId] else [])
    ++ (if edges.items.any EdgeEntry.invalid then [invalidEdge] else [])
    ++ (if edges.items.any fun e => e.fromId ∉ ids ∨ e.toId ∉ ids then [edgeEndpointUndeclared]
      else [])
    ++ (if edges.items.any fun e => e.fromId = e.toId then [selfLoop] else [])

def dagStructuralErrors (d : Dag ι) : Except SearchFailure (List DagError) :=
  if baseErrors d ≠ [] then .ok (baseErrors d)
  else (dagCyclePath walk (buildAdjacency (.edges d.edgeEntries.items))).map fun found =>
    if found.isSome then [.cycle] else []

/-! ## breadth-first searches -/

def bfsLoop (adjacency : Adjacency ι) : ℕ → List (NodeId ι) → List (NodeId ι) →
    Except SearchFailure (List (NodeId ι))
  | 0, _, _ => .error .unfinished
  | _ + 1, seen, [] => .ok seen
  | bound + 1, seen, node :: queue =>
    -- `(if-let [node (first queue)] ...)`
    if node.truthy then
      let unseen := walk ((children adjacency node).filter fun x => x ∉ seen)
      bfsLoop adjacency bound (seen ++ unseen) (queue ++ unseen)
    else .ok seen

/-- more turns than there are nodes to put into a queue -/
def searchBound (adjacency : Adjacency ι) : ℕ := (adjacency.flatMap Prod.snd).length + 2

def bfsReachable (adjacency : Adjacency ι) (start : NodeId ι) :
    Except SearchFailure (List (NodeId ι)) :=
  bfsLoop walk adjacency (searchBound adjacency) [start] [start]

def dagReachable (g : Graph ι) (fromId toId : NodeId ι) : Except SearchFailure Bool :=
  let adjacency := buildAdjacency g
  if fromId = .nil ∨ toId = .nil then .ok false
  else if g.declaredIds.any fun declared => fromId ∉ declared ∨ toId ∉ declared then .ok false
  else if fromId = toId then .ok true
  else if toId ∈ children adjacency fromId then .ok true
  else (bfsReachable walk adjacency fromId).map fun seen => toId ∈ seen

def reverseAdjacency (adjacency : Adjacency ι) : Adjacency ι :=
  adjacency.foldl (fun m e => (walk e.2).foldl (fun m toId => conjAt m toId e.1) m) []

def dagAncestors (g : Graph ι) (fromId : NodeId ι) : Except SearchFailure (List (NodeId ι)) :=
  bfsReachable walk (reverseAdjacency walk (buildAdjacency g)) fromId

def dagDescendants (g : Graph ι) (fromId : NodeId ι) : Except SearchFailure (List (NodeId ι)) :=
  bfsReachable walk (buildAdjacency g) fromId

variable (sort : List (NodeId ι) → Except SearchFailure (List (NodeId ι)))

def shortestLoop (adjacency : Adjacency ι) (toId : NodeId ι) : ℕ → List (NodeId ι) →
    List (List (NodeId ι)) → Except SearchFailure (Option (List (NodeId ι)))
  | 0, _, _ => .error .unfinished
  | _ + 1, _, [] => .ok none
  | bound + 1, seen, path :: queue =>
    let current := path.getLast?.getD .nil
    if current = toId then .ok (some path)
    else do
      let unseen := walk ((children adjacency current).filter fun x => x ∉ seen)
      let sorted ← sort unseen
      shortestLoop adjacency toId bound (seen ++ unseen)
        (queue ++ sorted.map fun x => path ++ [x])

def dagShortestPath (g : Graph ι) (fromId toId : NodeId ι) :
    Except SearchFailure (Option (List (NodeId ι))) :=
  if fromId.truthy ∧ toId.truthy ∧ fromId ≠ toId then
    shortestLoop walk sort (buildAdjacency g) toId (searchBound (buildAdjacency g)) [fromId]
      [[fromId]]
  else .ok none

end

end PRF.Evidence
