import ProtocolRobustness.Extensions.Registry
import ProtocolRobustness.Library.GraphSearch
import Mathlib.Data.List.Sort
import Mathlib.Data.String.Basic

/-!
# Resolution of extensions

What is asked for is resolved with everything it depends on, into a snapshot that a run is bound to.

* `closure`            everything that can be reached, breadth first;
* `findCycle`          a cycle of dependencies, by the paths from each capability;
* `resolveRequested`   the snapshot, or what is wrong with it;
* `closure_spec`       the closure is done within its fuel: the registered capabilities that the roots
                       lead to, with all of their dependencies;
* `findCycle_spec`     the search for a cycle is done within its fuel, and finds one if there is one.
-/

set_option linter.unusedSectionVars false

namespace PRF.Extensions
open Table

structure DependencyEdge where
  fromKey : CapabilityKey
  toKey : CapabilityKey
  requirement : Option Requirement
  optional : Bool
  deriving DecidableEq

section
variable {ρ τ : Type} [LinearOrder ρ] [DecidableEq τ]

/-- `dependency-specs`, with the capability they are of -/
def dependencySpecs (k : CapabilityKey) (e : Entry ρ) : List DependencyEdge :=
  e.capability.declaredDependencies.map fun d => ⟨k, (d.kind, d.id), d.requirement, d.optional⟩

/-- what the capability under a key depends on -/
def neighbors (emap : ExtensionMap ρ) (k : CapabilityKey) : List CapabilityKey :=
  match find emap k with
  | none => []
  | some e => (dependencySpecs k e).map DependencyEdge.toKey

/-! ## closure -/

/-- the loop of `closure`; `none` where it is not done within `fuel` turns -/
def closureLoop (emap : ExtensionMap ρ) : ℕ → List CapabilityKey → List CapabilityKey →
    ExtensionMap ρ → List DependencyEdge → Option (ExtensionMap ρ × List DependencyEdge)
  | 0, _, _, _, _ => none
  | fuel + 1, queue, seen, nodes, edges =>
    match queue with
    | [] => some (nodes, edges)
    | k :: rest =>
      match find emap k with
      | none => closureLoop emap fuel rest seen nodes edges
      | some e =>
        if k ∈ seen then closureLoop emap fuel rest seen nodes edges
        else
          let deps := dependencySpecs k e
          let seen' := k :: seen
          closureLoop emap fuel
            (rest ++ (deps.map DependencyEdge.toKey).filter fun t => t ∉ seen')
            seen' (put nodes k e) (edges ++ deps)

/-- how many dependencies a registry declares -/
def dependencyCount (emap : ExtensionMap ρ) : ℕ :=
  (emap.map fun e => e.2.capability.declaredDependencies.length).sum

def closure (emap : ExtensionMap ρ) (roots : List CapabilityKey) :
    Option (ExtensionMap ρ × List DependencyEdge) :=
  closureLoop emap (roots.length + dependencyCount emap + 1) roots [] [] []

/-! ## cycles -/

/-- `dfs-from`: paths from a node, the last one first; `none` where it is not done within `fuel` -/
def dfsFrom (nodes : ExtensionMap ρ) (start : CapabilityKey) :
    ℕ → List (List CapabilityKey) → Option (Option (List CapabilityKey))
  | 0, _ => none
  | fuel + 1, stack =>
    match stack.getLast? with
    | none => some none
    | some path =>
      match path.getLast? with
      | none => some none
      | some node =>
        if start ∈ neighbors nodes node then some (some (path ++ [start]))
        else
          let nexts := (neighbors nodes node).filter fun n => n ∉ path
          dfsFrom nodes start fuel (stack.dropLast ++ nexts.map fun n => path ++ [n])

/-- the first cycle that a search finds -/
def someCycle (nodes : ExtensionMap ρ) (fuel : ℕ) :
    List CapabilityKey → Option (Option (List CapabilityKey))
  | [] => some none
  | start :: rest =>
    match dfsFrom nodes start fuel [[start]] with
    | none => none
    | some (some cycle) => some (some cycle)
    | some none => someCycle nodes fuel rest

/-- enough for the paths from one node -/
def pathBound (nodes : ExtensionMap ρ) : ℕ :=
  (dependencyCount nodes + 1) ^ (nodes.length + dependencyCount nodes + 1) + 1

def findCycle (nodes : ExtensionMap ρ) : Option (Option (List CapabilityKey)) :=
  someCycle nodes (pathBound nodes) (nodes.map Prod.fst)

/-! ## checks -/

/-- a requirement that is absent is met, as each of its fields is -/
def requirementSatisfied (requirement : Option Requirement) (cap : Capability) : Bool :=
  match requirement with
  | none => true
  | some r =>
    (r.version.isNone || decide (r.version = cap.version))
    && (r.contractVersion.isNone || decide (r.contractVersion = cap.contractVersion))
    && (r.profile.isNone || decide (r.profile = cap.profile))

/-- the schemas that a capability refers to -/
def schemaRefsOf (e : Entry ρ) : List Keyword :=
  [e.capability.inputSchema, e.capability.outputSchema,
    e.capability.verificationContract].filterMap id

def providerRoots (e : Entry ρ) : List ρ :=
  (e.providers.map Provider.packageRoot).insertionSort (· ≤ ·)

inductive ResolutionViolation (ρ : Type)
  | missingCapability (k : CapabilityKey)
  | missingDependency (k : CapabilityKey)
  | dependencyCycle (cycle : List CapabilityKey)
  | unsealedInSealedRun (k : CapabilityKey) (providers : List Keyword)
  | ambiguousProvider (k : CapabilityKey) (roots : List ρ)
  | incompatibleContractVersion (fromKey toKey : CapabilityKey) (requirement : Option Requirement)
  | multipleDependencyRoots (k : CapabilityKey) (roots : List ρ)
  | unresolvedSchemaRoot (ids : List Keyword)
  | unknownEffectSchema (ids : List Keyword)
  | outOfFuel
  deriving DecidableEq

structure Options (ρ τ : Type) where
  runtimeProfile : τ
  sealedRun : Bool
  schemas : List (Keyword × ρ)
  effectSchemas : List (Keyword × ρ)

/-- the effect contracts of the framework -/
def effectSchemaIds : List Keyword :=
  ["prf.effect/balance-credit.v1", "prf.effect/obligation-create.v1",
    "prf.effect/obligation-create.v2", "prf.effect/custody-held-adjustment.v1",
    "prf.effect/custody-held-adjustment.v2"]

/-- providers that are not sealed, of a capability -/
def unsealedProviders (e : Entry ρ) : List Keyword :=
  (e.providers.filter fun p => p.sealedAs ≠ .artifactReplayable).map Provider.packageId

def missingRequested (nodes : ExtensionMap ρ) (requested : List CapabilityKey) :
    List CapabilityKey :=
  requested.filter fun k => k ∉ nodes.map Prod.fst

def missingDeps (nodes : ExtensionMap ρ) (edges : List DependencyEdge) : List CapabilityKey :=
  ((edges.filter fun d => !d.optional).map DependencyEdge.toKey).filter
    fun k => k ∉ nodes.map Prod.fst

def sealedViolations (sealedRun : Bool) (nodes : ExtensionMap ρ) :
    List (ResolutionViolation ρ) :=
  nodes.filterMap fun e =>
    if sealedRun = true ∧ unsealedProviders e.2 ≠ [] then
      some (.unsealedInSealedRun e.1 (unsealedProviders e.2)) else none

def ambiguousViolations (nodes : ExtensionMap ρ) : List (ResolutionViolation ρ) :=
  nodes.filterMap fun e =>
    if 1 < (providerRoots e.2).length then some (.ambiguousProvider e.1 (providerRoots e.2))
    else none

def requirementViolations (nodes : ExtensionMap ρ) (edges : List DependencyEdge) :
    List (ResolutionViolation ρ) :=
  edges.filterMap fun d =>
    (find nodes d.toKey).bind fun e =>
      if requirementSatisfied d.requirement e.capability then none
      else some (.incompatibleContractVersion d.fromKey d.toKey d.requirement)

def dependencyRootViolations (nodes : ExtensionMap ρ) (edges : List DependencyEdge) :
    List (ResolutionViolation ρ) :=
  (edges.map DependencyEdge.toKey).dedup.filterMap fun k =>
    (find nodes k).bind fun e =>
      if 1 < (providerRoots e).length then some (.multipleDependencyRoots k (providerRoots e))
      else none

def schemaIds (nodes : ExtensionMap ρ) : List Keyword :=
  (nodes.flatMap fun e => schemaRefsOf e.2).dedup.insertionSort (· ≤ ·)

def unresolvedSchemas (nodes : ExtensionMap ρ) (schemas : List (Keyword × ρ)) : List Keyword :=
  (schemaIds nodes).filter fun id => id ∉ schemas.map Prod.fst

def unknownEffectSchemas (effectSchemas : List (Keyword × ρ)) : List Keyword :=
  (effectSchemas.map Prod.fst).filter fun id => id ∉ effectSchemaIds

/-! ## the snapshot -/

/-- an edge with the packages that provide what it leads to -/
structure ResolvedDependency (ρ : Type) extends DependencyEdge where
  providerPackageRoots : Option (List ρ)
  deriving DecidableEq

structure SnapshotBody (ρ τ : Type) where
  resolutionVersion : ℤ
  packages : List (Keyword × Provider ρ)
  capabilities : List (CapabilityKey × Capability)
  capabilityProviders : List (CapabilityKey × List (Provider ρ))
  dependencies : List (ResolvedDependency ρ)
  schemaRoots : List (Keyword × ρ)
  effectSchemaRoots : List (Keyword × ρ)
  runtimeProfile : τ
  deriving DecidableEq

structure Snapshot (ρ τ : Type) extends SnapshotBody ρ τ where
  resolutionRoot : ρ
  deriving DecidableEq

def resolutionVersion : ℤ := 1

/-- the packages of all providers; a later one under an id replaces an earlier one -/
def packagesOf (nodes : ExtensionMap ρ) : List (Keyword × Provider ρ) :=
  nodes.foldl (fun acc e => e.2.providers.foldl (fun acc p => put acc p.packageId p) acc) []

def capabilityProviders (e : Entry ρ) : List (Provider ρ) :=
  e.providers.insertionSort fun p q => p.packageRoot ≤ q.packageRoot

def enrichedDependency (nodes : ExtensionMap ρ) (d : DependencyEdge) : ResolvedDependency ρ :=
  ⟨d, (find nodes d.toKey).map providerRoots⟩

def schemaRoots (nodes : ExtensionMap ρ) (schemas : List (Keyword × ρ)) : List (Keyword × ρ) :=
  (schemaIds nodes).filterMap fun id => (find schemas id).map fun root => (id, root)

def snapshotBody (nodes : ExtensionMap ρ) (edges : List DependencyEdge) (opts : Options ρ τ) :
    SnapshotBody ρ τ where
  resolutionVersion := Extensions.resolutionVersion
  packages := packagesOf nodes
  capabilities := nodes.map fun e => (e.1, e.2.capability)
  capabilityProviders := nodes.map fun e => (e.1, capabilityProviders e.2)
  dependencies := edges.map (enrichedDependency nodes)
  schemaRoots := schemaRoots nodes opts.schemas
  effectSchemaRoots := opts.effectSchemas
  runtimeProfile := opts.runtimeProfile

def buildSnapshot (root : SnapshotBody ρ τ → ρ) (nodes : ExtensionMap ρ)
    (edges : List DependencyEdge) (opts : Options ρ τ) : Snapshot ρ τ :=
  ⟨snapshotBody nodes edges opts, root (snapshotBody nodes edges opts)⟩

/-- everything that is wrong with what was reached -/
def resolutionViolations (nodes : ExtensionMap ρ) (edges : List DependencyEdge)
    (cycle : Option (List CapabilityKey)) (requested : List CapabilityKey) (opts : Options ρ τ) :
    List (ResolutionViolation ρ) :=
  (missingRequested nodes requested).map .missingCapability
  ++ (missingDeps nodes edges).map .missingDependency
  ++ (cycle.map ResolutionViolation.dependencyCycle).toList
  ++ sealedViolations opts.sealedRun nodes
  ++ ambiguousViolations nodes
  ++ requirementViolations nodes edges
  ++ dependencyRootViolations nodes edges
  ++ (if unresolvedSchemas nodes opts.schemas ≠ [] then
    [.unresolvedSchemaRoot (unresolvedSchemas nodes opts.schemas)] else [])
  ++ (if unknownEffectSchemas opts.effectSchemas ≠ [] then
    [.unknownEffectSchema (unknownEffectSchemas opts.effectSchemas)] else [])

def resolveRequested (root : SnapshotBody ρ τ → ρ) (emap : ExtensionMap ρ)
    (requested : List CapabilityKey) (opts : Options ρ τ) :
    Except (List (ResolutionViolation ρ)) (Snapshot ρ τ) :=
  match closure emap requested with
  | none => .error [.outOfFuel]
  | some (nodes, edges) =>
    match findCycle nodes with
    | none => .error [.outOfFuel]
    | some cycle =>
      if resolutionViolations nodes edges cycle requested opts ≠ [] then
        .error (resolutionViolations nodes edges cycle requested opts)
      else .ok (buildSnapshot root nodes edges opts)

/-- `verify-portable!`: a snapshot that was stored has its version and its root -/
def verifyPortable (root : SnapshotBody ρ τ → ρ) (s : Snapshot ρ τ) : Bool :=
  decide (s.resolutionVersion = Extensions.resolutionVersion)
  && decide (root s.toSnapshotBody = s.resolutionRoot)

end

open Relation GraphSearch

section
variable {ρ : Type} [LinearOrder ρ] {emap nodes : ExtensionMap ρ}
  {roots queue seen : List CapabilityKey} {edges : List DependencyEdge} {a b k : CapabilityKey}
  {e : Entry ρ}

/-- `a` is registered and declares that it depends on `b` -/
def DependsOn (emap : ExtensionMap ρ) (a b : CapabilityKey) : Prop := b ∈ neighbors emap a

/-- what the roots lead to -/
def Reached (emap : ExtensionMap ρ) (roots : List CapabilityKey) (k : CapabilityKey) : Prop :=
  ∃ r ∈ roots, ReflTransGen (DependsOn emap) r k

theorem dependsOn_iff : DependsOn emap a b ↔
    ∃ e, find emap a = some e ∧ ∃ d ∈ dependencySpecs a e, d.toKey = b := by
  unfold DependsOn neighbors
  cases find emap a with
  | none => simp
  | some e => simp

theorem Reached.root (h : k ∈ roots) : Reached emap roots k := ⟨k, h, .refl⟩

theorem Reached.step (h : Reached emap roots a) (hab : DependsOn emap a b) :
    Reached emap roots b := by
  obtain ⟨r, hr, hra⟩ := h
  exact ⟨r, hr, hra.tail hab⟩

theorem neighbors_of_find (h : find emap a = some e) :
    neighbors emap a = (dependencySpecs a e).map DependencyEdge.toKey := by
  unfold neighbors
  rw [h]

/-! ## the fuel of the closure -/

/-- the dependencies of the entries that are not seen -/
def unseenDependencies (emap : ExtensionMap ρ) (seen : List CapabilityKey) : ℕ :=
  dependencyCount (emap.filter fun e => e.1 ∉ seen)

theorem dependencyCount_cons (e : CapabilityKey × Entry ρ) (emap : ExtensionMap ρ) :
    dependencyCount (e :: emap)
      = e.2.capability.declaredDependencies.length + dependencyCount emap := by
  unfold dependencyCount
  rw [List.map_cons, List.sum_cons]

theorem unseenDependencies_nil : unseenDependencies emap [] = dependencyCount emap := by
  unfold unseenDependencies
  rw [List.filter_eq_self.mpr fun _ _ => by simp]

theorem unseenDependencies_cons_le (emap : ExtensionMap ρ) (k : CapabilityKey)
    (seen : List CapabilityKey) :
    unseenDependencies emap (k :: seen) ≤ unseenDependencies emap seen := by
  unfold unseenDependencies
  induction emap with
  | nil => exact le_rfl
  | cons e emap ih =>
    rw [List.filter_cons, List.filter_cons]
    by_cases hseen : e.1 ∈ seen
    · simpa [hseen] using ih
    · by_cases hk : e.1 = k
      · simp only [hk, List.mem_cons_self, not_true_eq_false, decide_false, Bool.false_eq_true,
          if_false]
        rw [if_pos (by simpa [hk] using hseen), dependencyCount_cons]
        omega
      · rw [if_pos (by simp [hk, hseen]), if_pos (by simp [hseen]), dependencyCount_cons,
          dependencyCount_cons]
        omega

/-- **A visit takes the dependencies of what is visited off.** -/
theorem unseenDependencies_visit (hfind : find emap k = some e) (hseen : k ∉ seen) :
    e.capability.declaredDependencies.length + unseenDependencies emap (k :: seen)
      ≤ unseenDependencies emap seen := by
  have hmem := mem_of_find hfind
  clear hfind
  induction emap with
  | nil => cases hmem
  | cons e' emap ih =>
    have hle := unseenDependencies_cons_le emap k seen
    unfold unseenDependencies at ih hle ⊢
    rw [List.filter_cons, List.filter_cons]
    rcases List.mem_cons.mp hmem with rfl | hmem
    · simp only [List.mem_cons_self, not_true_eq_false, decide_false, Bool.false_eq_true, if_false]
      rw [if_pos (by simpa using hseen), dependencyCount_cons]
      exact Nat.add_le_add_left hle _
    · have hrest := ih hmem
      by_cases hs : e'.1 ∈ seen
      · simpa [hs] using hrest
      · by_cases hk : e'.1 = k
        · simp only [hk, List.mem_cons_self, not_true_eq_false, decide_false, Bool.false_eq_true,
            if_false]
          rw [if_pos (by simpa [hk] using hseen), dependencyCount_cons]
          omega
        · rw [if_pos (by simp [hk, hs]), if_pos (by simp [hs]), dependencyCount_cons,
            dependencyCount_cons]
          omega

/-! ## the closure -/

/-- nothing is left to do for `k` -/
def Done (emap : ExtensionMap ρ) (seen : List CapabilityKey) (k : CapabilityKey) : Prop :=
  k ∈ seen ∨ find emap k = none

/-- What holds in every turn of the closure. -/
structure Collected (emap : ExtensionMap ρ) (roots queue seen : List CapabilityKey)
    (nodes : ExtensionMap ρ) (edges : List DependencyEdge) : Prop where
  keys : nodes.map Prod.fst = seen.reverse
  distinct : seen.Nodup
  entries : ∀ k e, (k, e) ∈ nodes → find emap k = some e
  edges : edges = nodes.flatMap fun e => dependencySpecs e.1 e.2
  reached : ∀ k, k ∈ queue ∨ k ∈ seen → Reached emap roots k
  started : ∀ k ∈ roots, k ∈ queue ∨ Done emap seen k
  followed : ∀ k ∈ seen, ∀ b, DependsOn emap k b → b ∈ queue ∨ Done emap seen b

theorem Collected.init : Collected emap roots roots [] [] [] where
  keys := rfl
  distinct := List.nodup_nil
  entries _ _ h := by cases h
  edges := rfl
  reached k h := .root (h.resolve_right List.not_mem_nil)
  started k h := .inl h
  followed k h := by cases h

theorem Collected.skip (h : Collected emap roots (k :: queue) seen nodes edges)
    (hdone : Done emap seen k) : Collected emap roots queue seen nodes edges where
  keys := h.keys
  distinct := h.distinct
  entries := h.entries
  edges := h.edges
  reached b hb := h.reached b (hb.imp_left (List.mem_cons_of_mem k))
  started b hb := by
    rcases h.started b hb with hb' | hb'
    · exact (List.mem_cons.mp hb').elim (fun hbk => .inr (hbk ▸ hdone)) .inl
    · exact .inr hb'
  followed a ha b hb := by
    rcases h.followed a ha b hb with hb' | hb'
    · exact (List.mem_cons.mp hb').elim (fun hbk => .inr (hbk ▸ hdone)) .inl
    · exact .inr hb'

theorem Collected.visit (h : Collected emap roots (k :: queue) seen nodes edges)
    (hfind : find emap k = some e) (hseen : k ∉ seen) :
    Collected emap roots
      (queue ++ ((dependencySpecs k e).map DependencyEdge.toKey).filter fun t => t ∉ k :: seen)
      (k :: seen) (put nodes k e) (edges ++ dependencySpecs k e) := by
  have hfresh : k ∉ nodes.map Prod.fst := by rwa [h.keys, List.mem_reverse]
  rw [put_fresh hfresh]
  -- what was to be done is still queued, or was this
  have hkept : ∀ b, b ∈ k :: queue ∨ Done emap seen b →
      b ∈ queue ++ ((dependencySpecs k e).map DependencyEdge.toKey).filter (fun t => t ∉ k :: seen)
        ∨ Done emap (k :: seen) b := by
    rintro b (hb | hb | hb)
    · rcases List.mem_cons.mp hb with rfl | hb
      · exact .inr (.inl List.mem_cons_self)
      · exact .inl (List.mem_append_left _ hb)
    · exact .inr (.inl (List.mem_cons_of_mem k hb))
    · exact .inr (.inr hb)
  constructor
  · rw [List.map_append, h.keys, List.reverse_cons]
    rfl
  · exact List.nodup_cons.mpr ⟨hseen, h.distinct⟩
  · intro k' e' hmem
    rcases List.mem_append.mp hmem with hmem | hmem
    · exact h.entries k' e' hmem
    · obtain ⟨rfl, rfl⟩ := Prod.mk.injEq .. ▸ List.mem_singleton.mp hmem
      exact hfind
  · rw [List.flatMap_append, ← h.edges, List.flatMap_singleton]
  · have hk : Reached emap roots k := h.reached k (.inl List.mem_cons_self)
    rintro b (hb | hb)
    · rcases List.mem_append.mp hb with hb | hb
      · exact h.reached b (.inl (List.mem_cons_of_mem k hb))
      · have hb' := (List.mem_filter.mp hb).1
        rw [← neighbors_of_find hfind] at hb'
        exact hk.step hb'
    · rcases List.mem_cons.mp hb with rfl | hb
      · exact hk
      · exact h.reached b (.inr hb)
  · exact fun b hb => hkept b (h.started b hb)
  · intro a ha b hb
    rcases List.mem_cons.mp ha with rfl | ha
    · by_cases hdone : b ∈ a :: seen
      · exact .inr (.inl hdone)
      · refine .inl (List.mem_append_right _ (List.mem_filter.mpr ⟨?_, by simpa using hdone⟩))
        rw [← neighbors_of_find hfind]
        exact hb
    · exact hkept b (h.followed a ha b hb)

theorem closureLoop_spec (fuel : ℕ) (h : Collected emap roots queue seen nodes edges)
    (hfuel : queue.length + unseenDependencies emap seen < fuel) :
    ∃ seen' nodes' edges', closureLoop emap fuel queue seen nodes edges = some (nodes', edges')
      ∧ Collected emap roots [] seen' nodes' edges' := by
  induction fuel generalizing queue seen nodes edges with
  | zero => omega
  | succ fuel ih =>
    unfold closureLoop
    cases queue with
    | nil => exact ⟨seen, nodes, edges, rfl, h⟩
    | cons k queue =>
      rw [List.length_cons] at hfuel
      cases hfind : find emap k with
      | none =>
        simp only [hfind]
        exact ih (h.skip (.inr hfind)) (by omega)
      | some e =>
        simp only [hfind]
        by_cases hseen : k ∈ seen
        · rw [if_pos hseen]
          exact ih (h.skip (.inl hseen)) (by omega)
        · rw [if_neg hseen]
          refine ih (h.visit hfind hseen) ?_
          have hvisit := unseenDependencies_visit hfind hseen
          have hqueued := List.length_filter_le (fun t => decide (t ∉ k :: seen))
            ((dependencySpecs k e).map DependencyEdge.toKey)
          rw [List.length_map, dependencySpecs, List.length_map] at hqueued
          rw [List.length_append]
          unfold dependencySpecs at *
          omega

/-- The registered capabilities that the roots lead to, with all of their dependencies. -/
structure IsClosure (emap : ExtensionMap ρ) (roots : List CapabilityKey) (nodes : ExtensionMap ρ)
    (edges : List DependencyEdge) : Prop where
  keys : (nodes.map Prod.fst).Nodup
  find_iff : ∀ k e, find nodes k = some e ↔ Reached emap roots k ∧ find emap k = some e
  edges : edges = nodes.flatMap fun e => dependencySpecs e.1 e.2

theorem Collected.isClosure (h : Collected emap roots [] seen nodes edges) :
    IsClosure emap roots nodes edges := by
  have hkeys : (nodes.map Prod.fst).Nodup := h.keys ▸ List.nodup_reverse.mpr h.distinct
  have hclosed : ∀ k, Reached emap roots k → Done emap seen k := by
    rintro k ⟨r, hr, hrk⟩
    induction hrk with
    | refl => exact (h.started r hr).resolve_left List.not_mem_nil
    | @tail a b _ hab ih =>
      -- what depends on something is registered, so it was seen
      obtain ⟨e, he, -⟩ := dependsOn_iff.mp hab
      have ha : a ∈ seen := ih.resolve_right (by rw [he]; exact Option.some_ne_none e)
      exact (h.followed a ha b hab).resolve_left List.not_mem_nil
  refine ⟨hkeys, fun k e => ⟨fun hfind => ?_, fun ⟨hreached, hfind⟩ => ?_⟩, h.edges⟩
  · have hmem := mem_of_find hfind
    have hk : k ∈ seen := List.mem_reverse.mp (h.keys ▸ List.mem_map_of_mem hmem)
    exact ⟨h.reached k (.inr hk), h.entries k e hmem⟩
  · have hk : k ∈ seen :=
      (hclosed k hreached).resolve_right (by rw [hfind]; exact Option.some_ne_none e)
    rw [← List.mem_reverse, ← h.keys] at hk
    obtain ⟨⟨k', e'⟩, hmem, rfl⟩ := List.mem_map.mp hk
    rw [find_of_mem hkeys hmem, ← h.entries k' e' hmem, hfind]

/-- **The closure is done within its fuel, and it is what the roots lead to.** -/
theorem closure_spec (emap : ExtensionMap ρ) (roots : List CapabilityKey) :
    ∃ nodes edges, closure emap roots = some (nodes, edges) ∧ IsClosure emap roots nodes edges := by
  have hinit : Collected emap roots roots [] [] [] := Collected.init
  obtain ⟨seen, nodes, edges, hrun, h⟩ := closureLoop_spec (roots.length + dependencyCount emap + 1)
    hinit (by rw [unseenDependencies_nil]; omega)
  exact ⟨nodes, edges, hrun, h.isClosure⟩

/-! ## cycles -/

/-- every capability of a table, and everything that it depends on -/
def everywhere (nodes : ExtensionMap ρ) : List CapabilityKey :=
  nodes.map Prod.fst ++ nodes.flatMap fun e => (dependencySpecs e.1 e.2).map DependencyEdge.toKey

theorem length_everywhere : (everywhere nodes).length = nodes.length + dependencyCount nodes := by
  unfold everywhere dependencyCount
  rw [List.length_append, List.length_map, List.length_flatMap]
  simp only [dependencySpecs, List.length_map]

theorem mem_everywhere (h : DependsOn nodes a b) : b ∈ everywhere nodes := by
  obtain ⟨e, he, d, hd, rfl⟩ := dependsOn_iff.mp h
  exact List.mem_append_right _
    (List.mem_flatMap.mpr ⟨(a, e), mem_of_find he, List.mem_map_of_mem hd⟩)

theorem length_neighbors_le (k : CapabilityKey) :
    (neighbors nodes k).length ≤ dependencyCount nodes := by
  cases hfind : find nodes k with
  | none =>
    unfold neighbors
    rw [hfind]
    exact Nat.zero_le _
  | some e =>
    rw [neighbors_of_find hfind, List.length_map, dependencySpecs, List.length_map]
    exact List.le_sum_of_mem (List.mem_map_of_mem (mem_of_find hfind))

/-- the stack of the search: paths from `start` that visit no node twice -/
def SimplePaths (nodes : ExtensionMap ρ) (start : CapabilityKey)
    (stack : List (List CapabilityKey)) : Prop :=
  ∀ p ∈ stack, ∃ x, IsPath (DependsOn nodes) start x p ∧ p.Nodup

theorem length_simple {start x : CapabilityKey} {p : List CapabilityKey}
    (hstart : start ∈ nodes.map Prod.fst) (h : IsPath (DependsOn nodes) start x p) (hp : p.Nodup) :
    p.length ≤ nodes.length + dependencyCount nodes := by
  have hsub : ∀ y ∈ p, y ∈ everywhere nodes := by
    refine h.induction (P := fun _ p => ∀ y ∈ p, y ∈ everywhere nodes) ?_ ?_
    · intro y hy
      exact List.mem_singleton.mp hy ▸ List.mem_append_left _ hstart
    · intro b c q _ ih hbc y hy
      rcases List.mem_append.mp hy with hy | hy
      · exact ih y hy
      · exact List.mem_singleton.mp hy ▸ mem_everywhere hbc
  rw [← length_everywhere]
  exact (hp.subperm hsub).length_le

/-- **The search from one capability is done within its fuel**, with a cycle or with none left to be
found. -/
theorem dfsFrom_spec {start : CapabilityKey} (hstart : start ∈ nodes.map Prod.fst) (fuel : ℕ)
    {stack : List (List CapabilityKey)} (hpaths : SimplePaths nodes start stack)
    (hfuel : weight (dependencyCount nodes) (nodes.length + dependencyCount nodes) stack < fuel) :
    (∃ c, dfsFrom nodes start fuel stack = some (some c) ∧ IsCycle (DependsOn nodes) c)
    ∨ (dfsFrom nodes start fuel stack = some none ∧ ¬ Ahead (DependsOn nodes) start stack) := by
  induction fuel generalizing stack with
  | zero => omega
  | succ fuel ih =>
    unfold dfsFrom
    rcases stack.eq_nil_or_concat with rfl | ⟨rest, p, rfl⟩
    · exact .inr ⟨rfl, not_ahead_nil⟩
    · rw [List.concat_eq_append] at hpaths hfuel ⊢
      obtain ⟨x, hpath, hsimple⟩ := hpaths p (by simp)
      simp only [List.getLast?_concat, hpath.last, List.dropLast_concat]
      by_cases hclose : start ∈ neighbors nodes x
      · rw [if_pos hclose]
        have hcycle := hpath.concat hclose
        refine .inl ⟨_, rfl, hcycle.chain, ?_, hcycle.head.trans hcycle.last.symm⟩
        have hpos : 0 < p.length := List.length_pos_of_mem (List.mem_of_getLast? hpath.last)
        rw [List.length_append, List.length_singleton]
        omega
      · rw [if_neg hclose]
        generalize hlonger : (((neighbors nodes x).filter fun n => n ∉ p).map fun n => p ++ [n])
          = longer
        have hmem : ∀ q, q ∈ longer ↔ ∃ n, DependsOn nodes x n ∧ n ∉ p ∧ p ++ [n] = q := by
          intro q
          simp [← hlonger, DependsOn, and_assoc]
        have hrest : SimplePaths nodes start (rest ++ longer) := by
          intro q hq
          rcases List.mem_append.mp hq with hq | hq
          · exact hpaths q (List.mem_append_left _ hq)
          · obtain ⟨n, hedge, hnew, rfl⟩ := (hmem q).mp hq
            refine ⟨n, hpath.concat hedge, ?_⟩
            refine List.nodup_append.mpr ⟨hsimple, List.nodup_singleton n, ?_⟩
            rintro y hy z hz rfl
            exact hnew (List.mem_singleton.mp hz ▸ hy)
        have hwidth : longer.length ≤ dependencyCount nodes := by
          rw [← hlonger, List.length_map]
          exact (List.length_filter_le _ _).trans (length_neighbors_le x)
        have hlength : ∀ q ∈ longer, q.length = p.length + 1 := by
          intro q hq
          obtain ⟨n, -, -, rfl⟩ := (hmem q).mp hq
          exact List.length_append
        have hless : weight _ _ (rest ++ longer) < weight _ _ (rest ++ [p]) :=
          weight_expand (length_simple hstart hpath hsimple) hwidth hlength
        rcases ih hrest (by omega) with hfound | ⟨hnone, hahead⟩
        · exact .inl hfound
        · refine .inr ⟨hnone, fun h => hahead (h.expand hpath.last hclose fun n hn hnew => ?_)⟩
          exact (hmem _).mpr ⟨n, hn, hnew, rfl⟩

theorem pathBound_spec (nodes : ExtensionMap ρ) (start : CapabilityKey) :
    weight (dependencyCount nodes) (nodes.length + dependencyCount nodes) [[start]]
      < pathBound nodes := by
  unfold weight pathBound
  rw [List.map_singleton, List.sum_singleton, List.length_singleton, Nat.add_sub_cancel]
  exact Nat.lt_succ_of_le (Nat.pow_le_pow_right (Nat.succ_pos _) (Nat.le_succ _))

theorem someCycle_spec {starts : List CapabilityKey} (h : ∀ k ∈ starts, k ∈ nodes.map Prod.fst) :
    (∃ c, someCycle nodes (pathBound nodes) starts = some (some c) ∧ IsCycle (DependsOn nodes) c)
    ∨ (someCycle nodes (pathBound nodes) starts = some none
      ∧ ∀ k ∈ starts, ¬ TransGen (DependsOn nodes) k k) := by
  induction starts with
  | nil => exact .inr ⟨rfl, fun _ hk => by cases hk⟩
  | cons start rest ih =>
    unfold someCycle
    have hpaths : SimplePaths nodes start [[start]] := by
      intro p hp
      obtain rfl := List.mem_singleton.mp hp
      exact ⟨start, .single start, List.nodup_singleton start⟩
    rcases dfsFrom_spec (h start List.mem_cons_self) (pathBound nodes) hpaths
      (pathBound_spec nodes start) with ⟨c, hfound, hc⟩ | ⟨hnone, hahead⟩
    · rw [hfound]
      exact .inl ⟨c, rfl, hc⟩
    · rw [hnone]
      rcases ih fun k hk => h k (List.mem_cons_of_mem start hk) with hfound | ⟨hnone', hacyclic⟩
      · exact .inl hfound
      · refine .inr ⟨hnone', fun k hk => ?_⟩
        rcases List.mem_cons.mp hk with rfl | hk
        · exact fun hcycle => hahead (.init hcycle)
        · exact hacyclic k hk

/-- **The search for a cycle is done within its fuel, and finds one if there is one.** -/
theorem findCycle_spec (nodes : ExtensionMap ρ) :
    (∃ c, findCycle nodes = some (some c) ∧ IsCycle (DependsOn nodes) c)
    ∨ (findCycle nodes = some none ∧ ∀ k, ¬ TransGen (DependsOn nodes) k k) := by
  rcases someCycle_spec fun k (hk : k ∈ nodes.map Prod.fst) => hk with hfound | ⟨hnone, hacyclic⟩
  · exact .inl hfound
  · refine .inr ⟨hnone, fun k hcycle => hacyclic k ?_ hcycle⟩
    -- what is on a cycle depends on something
    obtain ⟨b, hkb, -⟩ := TransGen.head'_iff.mp hcycle
    obtain ⟨e, he, -⟩ := dependsOn_iff.mp hkb
    exact List.mem_map_of_mem (f := Prod.fst) (mem_of_find he)

end

end PRF.Extensions
