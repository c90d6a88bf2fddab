import ProtocolRobustness.Extensions.Resolution
import ProtocolRobustness.Extensions.RegistryRuns

/-!
# What a resolution means

* `Wrong`                what can be wrong with what is asked for;
* `IsSnapshot`           what a run is bound to: everything that is needed, each by one provider;
* `live_resolution`      a resolution answers with a snapshot where nothing is wrong, and with all
                         that is wrong where something is.
-/

set_option linter.unusedSectionVars false

namespace PRF.Extensions
open Table Relation GraphSearch

section
variable {ρ τ : Type} [LinearOrder ρ] [DecidableEq τ] {emap nodes : ExtensionMap ρ}
  {roots requested : List CapabilityKey} {edges : List DependencyEdge} {d : DependencyEdge}
  {a b k : CapabilityKey} {e : Entry ρ} {opts : Options ρ τ} {root : SnapshotBody ρ τ → ρ}
  {cycle : Option (List CapabilityKey)} {v : ResolutionViolation ρ}

/-! ## what is needed -/

/-- `a` is needed, and it depends on `b` -/
def Needs (emap : ExtensionMap ρ) (requested : List CapabilityKey) (a b : CapabilityKey) : Prop :=
  Reached emap requested a ∧ DependsOn emap a b

/-- a dependency of something that is needed -/
structure Declared (emap : ExtensionMap ρ) (requested : List CapabilityKey) (d : DependencyEdge) :
    Prop where
  reached : Reached emap requested d.fromKey
  declared : ∃ e, find emap d.fromKey = some e ∧ d ∈ dependencySpecs d.fromKey e

theorem Declared.target (h : Declared emap requested d) : Reached emap requested d.toKey := by
  obtain ⟨e, he, hd⟩ := h.declared
  exact h.reached.step (dependsOn_iff.mpr ⟨e, he, d, hd, rfl⟩)

theorem fromKey_of_mem (h : d ∈ dependencySpecs k e) : d.fromKey = k := by
  obtain ⟨_, _, rfl⟩ := List.mem_map.mp h
  rfl

namespace IsClosure
variable (h : IsClosure emap requested nodes edges)
include h

theorem mem_nodes : (k, e) ∈ nodes ↔ Reached emap requested k ∧ find emap k = some e := by
  rw [← h.find_iff]
  exact ⟨fun hmem => find_of_mem h.keys hmem, mem_of_find⟩

theorem notMem_keys (hk : Reached emap requested k) :
    k ∉ nodes.map Prod.fst ↔ find emap k = none := by
  rw [← find_eq_none_iff, Option.eq_none_iff_forall_ne_some, Option.eq_none_iff_forall_ne_some]
  exact forall_congr' fun e => by rw [Ne, Ne, h.find_iff, and_iff_right hk]

theorem mem_edges : d ∈ edges ↔ Declared emap requested d := by
  rw [h.edges, List.mem_flatMap]
  constructor
  · rintro ⟨⟨k, e⟩, hmem, hd⟩
    obtain rfl := fromKey_of_mem hd
    obtain ⟨hk, he⟩ := h.mem_nodes.mp hmem
    exact ⟨hk, e, he, hd⟩
  · rintro ⟨hk, e, he, hd⟩
    exact ⟨(d.fromKey, e), h.mem_nodes.mpr ⟨hk, he⟩, hd⟩

theorem dependsOn : DependsOn nodes = Needs emap requested := by
  funext a b
  refine propext ⟨fun hab => ?_, fun ⟨ha, hab⟩ => ?_⟩
  · obtain ⟨e, he, hd⟩ := dependsOn_iff.mp hab
    obtain ⟨ha, he⟩ := (h.find_iff a e).mp he
    exact ⟨ha, dependsOn_iff.mpr ⟨e, he, hd⟩⟩
  · obtain ⟨e, he, hd⟩ := dependsOn_iff.mp hab
    exact dependsOn_iff.mpr ⟨e, (h.find_iff a e).mpr ⟨ha, he⟩, hd⟩

end IsClosure

/-! ## what can be wrong -/

/-- the schemas that what is needed refers to -/
def UsedSchema (emap : ExtensionMap ρ) (requested : List CapabilityKey) (id : Keyword) : Prop :=
  ∃ k e, Reached emap requested k ∧ find emap k = some e ∧ id ∈ schemaRefsOf e

/-- Something that is wrong with what is requested. -/
inductive Wrong (emap : ExtensionMap ρ) (requested : List CapabilityKey)
    (opts : Options ρ τ) :
    ResolutionViolation ρ → Prop
  | missingCapability {k : CapabilityKey} (hk : k ∈ requested) (hnone : find emap k = none) :
    Wrong emap requested opts (.missingCapability k)
  | missingDependency {d : DependencyEdge} (hd : Declared emap requested d)
      (hneeded : d.optional = false) (hnone : find emap d.toKey = none) :
    Wrong emap requested opts (.missingDependency d.toKey)
  | dependencyCycle {c : List CapabilityKey} (hc : IsCycle (Needs emap requested) c) :
    Wrong emap requested opts (.dependencyCycle c)
  | unsealed {k : CapabilityKey} {e : Entry ρ} (hsealed : opts.sealedRun = true)
      (hk : Reached emap requested k) (he : find emap k = some e) (hne : unsealedProviders e ≠ []) :
    Wrong emap requested opts (.unsealedInSealedRun k (unsealedProviders e))
  | ambiguous {k : CapabilityKey} {e : Entry ρ} (hk : Reached emap requested k)
      (he : find emap k = some e) (hmany : 1 < (providerRoots e).length) :
    Wrong emap requested opts (.ambiguousProvider k (providerRoots e))
  | incompatible {d : DependencyEdge} {e : Entry ρ} (hd : Declared emap requested d)
      (he : find emap d.toKey = some e)
      (hunmet : requirementSatisfied d.requirement e.capability = false) :
    Wrong emap requested opts (.incompatibleContractVersion d.fromKey d.toKey d.requirement)
  | multipleRoots {d : DependencyEdge} {e : Entry ρ} (hd : Declared emap requested d)
      (he : find emap d.toKey = some e) (hmany : 1 < (providerRoots e).length) :
    Wrong emap requested opts (.multipleDependencyRoots d.toKey (providerRoots e))
  | unresolvedSchema {ids : List Keyword} (hne : ids ≠ []) (hsorted : ids.Pairwise (· < ·))
      (hids : ∀ id, id ∈ ids ↔ UsedSchema emap requested id ∧ id ∉ opts.schemas.map Prod.fst) :
    Wrong emap requested opts (.unresolvedSchemaRoot ids)
  | unknownEffect {ids : List Keyword} (hne : ids ≠ [])
      (hids : ids = (opts.effectSchemas.map Prod.fst).filter fun id => id ∉ effectSchemaIds) :
    Wrong emap requested opts (.unknownEffectSchema ids)

/-! ## each check -/

theorem mem_missingRequested (h : IsClosure emap requested nodes edges) :
    k ∈ missingRequested nodes requested ↔ k ∈ requested ∧ find emap k = none := by
  unfold missingRequested
  rw [List.mem_filter, decide_eq_true_iff]
  exact and_congr_right fun hk => h.notMem_keys (.root hk)

theorem mem_missingDeps (h : IsClosure emap requested nodes edges) :
    k ∈ missingDeps nodes edges ↔
      ∃ d, Declared emap requested d ∧ d.optional = false ∧ find emap d.toKey = none
        ∧ d.toKey = k := by
  unfold missingDeps
  rw [List.mem_filter, decide_eq_true_iff, List.mem_map]
  constructor
  · rintro ⟨⟨d, hd, rfl⟩, hmissing⟩
    obtain ⟨hd, hneeded⟩ := List.mem_filter.mp hd
    have hd := h.mem_edges.mp hd
    exact ⟨d, hd, by simpa using hneeded, (h.notMem_keys hd.target).mp hmissing, rfl⟩
  · rintro ⟨d, hd, hneeded, hnone, rfl⟩
    refine ⟨⟨d, List.mem_filter.mpr ⟨h.mem_edges.mpr hd, ?_⟩, rfl⟩,
      (h.notMem_keys hd.target).mpr hnone⟩
    rw [hneeded]
    rfl

theorem mem_sealedViolations (h : IsClosure emap requested nodes edges) {sealedRun : Bool} :
    v ∈ sealedViolations sealedRun nodes ↔ ∃ k e, sealedRun = true ∧ Reached emap requested k
      ∧ find emap k = some e ∧ unsealedProviders e ≠ []
      ∧ v = .unsealedInSealedRun k (unsealedProviders e) := by
  unfold sealedViolations
  rw [List.mem_filterMap]
  constructor
  · rintro ⟨⟨k, e⟩, hmem, hv⟩
    obtain ⟨hk, he⟩ := h.mem_nodes.mp hmem
    split at hv
    · next hc => exact ⟨k, e, hc.1, hk, he, hc.2, (Option.some.inj hv).symm⟩
    · cases hv
  · rintro ⟨k, e, hsealed, hk, he, hne, rfl⟩
    exact ⟨(k, e), h.mem_nodes.mpr ⟨hk, he⟩, if_pos ⟨hsealed, hne⟩⟩

theorem mem_ambiguousViolations (h : IsClosure emap requested nodes edges) :
    v ∈ ambiguousViolations nodes ↔ ∃ k e, Reached emap requested k ∧ find emap k = some e
      ∧ 1 < (providerRoots e).length ∧ v = .ambiguousProvider k (providerRoots e) := by
  unfold ambiguousViolations
  rw [List.mem_filterMap]
  constructor
  · rintro ⟨⟨k, e⟩, hmem, hv⟩
    obtain ⟨hk, he⟩ := h.mem_nodes.mp hmem
    split at hv
    · next hmany => exact ⟨k, e, hk, he, hmany, (Option.some.inj hv).symm⟩
    · cases hv
  · rintro ⟨k, e, hk, he, hmany, rfl⟩
    exact ⟨(k, e), h.mem_nodes.mpr ⟨hk, he⟩, if_pos hmany⟩

theorem mem_requirementViolations (h : IsClosure emap requested nodes edges) :
    v ∈ requirementViolations nodes edges ↔ ∃ d e, Declared emap requested d
      ∧ find emap d.toKey = some e ∧ requirementSatisfied d.requirement e.capability = false
      ∧ v = .incompatibleContractVersion d.fromKey d.toKey d.requirement := by
  unfold requirementViolations
  rw [List.mem_filterMap]
  constructor
  · rintro ⟨d, hd, hv⟩
    obtain ⟨e, he, hv⟩ := Option.bind_eq_some_iff.mp hv
    split at hv
    · cases hv
    · next hunmet =>
      exact ⟨d, e, h.mem_edges.mp hd, ((h.find_iff _ e).mp he).2, Bool.not_eq_true _ ▸ hunmet,
        (Option.some.inj hv).symm⟩
  · rintro ⟨d, e, hd, he, hunmet, rfl⟩
    refine ⟨d, h.mem_edges.mpr hd, Option.bind_eq_some_iff.mpr ⟨e, ?_, if_neg ?_⟩⟩
    · exact (h.find_iff _ e).mpr ⟨hd.target, he⟩
    · rw [hunmet]
      exact Bool.false_ne_true

theorem mem_dependencyRootViolations (h : IsClosure emap requested nodes edges) :
    v ∈ dependencyRootViolations nodes edges ↔ ∃ d e, Declared emap requested d
      ∧ find emap d.toKey = some e ∧ 1 < (providerRoots e).length
      ∧ v = .multipleDependencyRoots d.toKey (providerRoots e) := by
  unfold dependencyRootViolations
  rw [List.mem_filterMap]
  constructor
  · rintro ⟨k, hk, hv⟩
    obtain ⟨d, hd, rfl⟩ := List.mem_map.mp (List.mem_dedup.mp hk)
    obtain ⟨e, he, hv⟩ := Option.bind_eq_some_iff.mp hv
    split at hv
    · next hmany =>
      exact ⟨d, e, h.mem_edges.mp hd, ((h.find_iff _ e).mp he).2, hmany, (Option.some.inj hv).symm⟩
    · cases hv
  · rintro ⟨d, e, hd, he, hmany, rfl⟩
    refine ⟨d.toKey, List.mem_dedup.mpr (List.mem_map_of_mem (h.mem_edges.mpr hd)),
      Option.bind_eq_some_iff.mpr ⟨e, (h.find_iff _ e).mpr ⟨hd.target, he⟩, if_pos hmany⟩⟩

theorem mem_schemaIds (h : IsClosure emap requested nodes edges) {id : Keyword} :
    id ∈ schemaIds nodes ↔ UsedSchema emap requested id := by
  unfold schemaIds
  rw [List.mem_insertionSort, List.mem_dedup, List.mem_flatMap]
  constructor
  · rintro ⟨⟨k, e⟩, hmem, hid⟩
    obtain ⟨hk, he⟩ := h.mem_nodes.mp hmem
    exact ⟨k, e, hk, he, hid⟩
  · rintro ⟨k, e, hk, he, hid⟩
    exact ⟨(k, e), h.mem_nodes.mpr ⟨hk, he⟩, hid⟩

theorem schemaIds_sorted (nodes : ExtensionMap ρ) : (schemaIds nodes).Pairwise (· < ·) := by
  have hle := List.pairwise_insertionSort (· ≤ ·) (nodes.flatMap fun e => schemaRefsOf e.2).dedup
  have hne : (schemaIds nodes).Nodup :=
    (List.perm_insertionSort _ _).nodup_iff.mpr (List.nodup_dedup _)
  exact hle.imp₂ (fun _ _ hle hne => lt_of_le_of_ne hle hne) hne

theorem mem_unresolvedSchemas (h : IsClosure emap requested nodes edges)
    {schemas : List (Keyword × ρ)} {id : Keyword} : id ∈ unresolvedSchemas nodes schemas ↔
      UsedSchema emap requested id ∧ id ∉ schemas.map Prod.fst := by
  unfold unresolvedSchemas
  rw [List.mem_filter, decide_eq_true_iff, mem_schemaIds h]

/-! ## all of them -/

theorem unresolved_wrong (h : IsClosure emap requested nodes edges)
    (hne : unresolvedSchemas nodes opts.schemas ≠ []) :
    Wrong emap requested opts (.unresolvedSchemaRoot (unresolvedSchemas nodes opts.schemas)) :=
  .unresolvedSchema hne ((schemaIds_sorted nodes).filter _) fun _ => mem_unresolvedSchemas h

theorem mem_resolutionViolations : v ∈ resolutionViolations nodes edges cycle requested opts ↔
    v ∈ (missingRequested nodes requested).map .missingCapability
    ∨ v ∈ (missingDeps nodes edges).map .missingDependency
    ∨ v ∈ (cycle.map ResolutionViolation.dependencyCycle).toList
    ∨ v ∈ sealedViolations opts.sealedRun nodes
    ∨ v ∈ ambiguousViolations nodes
    ∨ v ∈ requirementViolations nodes edges
    ∨ v ∈ dependencyRootViolations nodes edges
    ∨ (unresolvedSchemas nodes opts.schemas ≠ []
      ∧ v = .unresolvedSchemaRoot (unresolvedSchemas nodes opts.schemas))
    ∨ (unknownEffectSchemas opts.effectSchemas ≠ []
      ∧ v = .unknownEffectSchema (unknownEffectSchemas opts.effectSchemas)) := by
  have hone : ∀ (c : Prop) [Decidable c] (w : ResolutionViolation ρ),
      v ∈ (if c then [w] else []) ↔ c ∧ v = w := by
    intro c _ w
    split <;> simp [*]
  unfold resolutionViolations
  simp only [List.mem_append, or_assoc, hone]

/-- **Whatever is reported is wrong.** -/
theorem wrong_of_mem (h : IsClosure emap requested nodes edges)
    (hcycle : ∀ c ∈ cycle, IsCycle (DependsOn nodes) c)
    (hv : v ∈ resolutionViolations nodes edges cycle requested opts) :
    Wrong emap requested opts v := by
  rcases mem_resolutionViolations.mp hv with
    hv | hv | hv | hv | hv | hv | hv | ⟨hne, rfl⟩ | ⟨hne, rfl⟩
  · obtain ⟨k, hk, rfl⟩ := List.mem_map.mp hv
    obtain ⟨hk, hnone⟩ := (mem_missingRequested h).mp hk
    exact .missingCapability hk hnone
  · obtain ⟨k, hk, rfl⟩ := List.mem_map.mp hv
    obtain ⟨d, hd, hneeded, hnone, rfl⟩ := (mem_missingDeps h).mp hk
    exact .missingDependency hd hneeded hnone
  · obtain ⟨c, hc, rfl⟩ := Option.map_eq_some_iff.mp (Option.mem_toList.mp hv)
    exact .dependencyCycle (h.dependsOn ▸ hcycle c hc)
  · obtain ⟨k, e, hsealed, hk, he, hne, rfl⟩ := (mem_sealedViolations h).mp hv
    exact .unsealed hsealed hk he hne
  · obtain ⟨k, e, hk, he, hmany, rfl⟩ := (mem_ambiguousViolations h).mp hv
    exact .ambiguous hk he hmany
  · obtain ⟨d, e, hd, he, hunmet, rfl⟩ := (mem_requirementViolations h).mp hv
    exact .incompatible hd he hunmet
  · obtain ⟨d, e, hd, he, hmany, rfl⟩ := (mem_dependencyRootViolations h).mp hv
    exact .multipleRoots hd he hmany
  · exact unresolved_wrong h hne
  · exact .unknownEffect hne rfl

/-- a violation is among those reported; of the cycles only one is -/
def Reported (vs : List (ResolutionViolation ρ)) (v : ResolutionViolation ρ) : Prop :=
  v ∈ vs ∨ ∃ c c', v = .dependencyCycle c ∧ .dependencyCycle c' ∈ vs

/-- **Whatever is wrong is reported.** -/
theorem reported_of_wrong (h : IsClosure emap requested nodes edges)
    (hcycle : cycle = none → ∀ k, ¬ TransGen (DependsOn nodes) k k)
    (hv : Wrong emap requested opts v) :
    Reported (resolutionViolations nodes edges cycle requested opts) v := by
  have hmem := @mem_resolutionViolations _ _ _ _ nodes requested edges opts cycle
  cases hv with
  | missingCapability hk hnone =>
    refine .inl (hmem.mpr (.inl (List.mem_map_of_mem ?_)))
    exact (mem_missingRequested h).mpr ⟨hk, hnone⟩
  | missingDependency hd hneeded hnone =>
    refine .inl (hmem.mpr (.inr (.inl (List.mem_map_of_mem ?_))))
    exact (mem_missingDeps h).mpr ⟨_, hd, hneeded, hnone, rfl⟩
  | @dependencyCycle c hc =>
    obtain ⟨x, hx⟩ := hc.exists_transGen
    rw [← h.dependsOn] at hx
    cases cycle with
    | none => exact absurd hx (hcycle rfl x)
    | some c' =>
      exact .inr ⟨c, c', rfl, hmem.mpr (.inr (.inr (.inl (List.mem_singleton_self _))))⟩
  | unsealed hsealed hk he hne =>
    refine .inl (hmem.mpr (.inr (.inr (.inr (.inl ?_)))))
    exact (mem_sealedViolations h).mpr ⟨_, _, hsealed, hk, he, hne, rfl⟩
  | ambiguous hk he hmany =>
    refine .inl (hmem.mpr (.inr (.inr (.inr (.inr (.inl ?_))))))
    exact (mem_ambiguousViolations h).mpr ⟨_, _, hk, he, hmany, rfl⟩
  | incompatible hd he hunmet =>
    refine .inl (hmem.mpr (.inr (.inr (.inr (.inr (.inr (.inl ?_)))))))
    exact (mem_requirementViolations h).mpr ⟨_, _, hd, he, hunmet, rfl⟩
  | multipleRoots hd he hmany =>
    refine .inl (hmem.mpr (.inr (.inr (.inr (.inr (.inr (.inr (.inl ?_))))))))
    exact (mem_dependencyRootViolations h).mpr ⟨_, _, hd, he, hmany, rfl⟩
  | @unresolvedSchema ids hne hsorted hids =>
    obtain rfl : ids = unresolvedSchemas nodes opts.schemas := by
      have hsorted' := (schemaIds_sorted nodes).filter fun id => id ∉ opts.schemas.map Prod.fst
      have hperm := (List.perm_ext_iff_of_nodup (hsorted.imp ne_of_lt) (hsorted'.imp ne_of_lt)).mpr
        fun id => (hids id).trans (mem_unresolvedSchemas h).symm
      exact hperm.eq_of_pairwise (fun a b _ _ hab hba => absurd hba (lt_asymm hab)) hsorted hsorted'
    exact .inl (hmem.mpr (.inr (.inr (.inr (.inr (.inr (.inr (.inr (.inl ⟨hne, rfl⟩)))))))))
  | unknownEffect hne hids =>
    obtain rfl := hids
    exact .inl (hmem.mpr (.inr (.inr (.inr (.inr (.inr (.inr (.inr (.inr ⟨hne, rfl⟩)))))))))

/-! ## snapshots -/

/-- **What a run is bound to.**  Everything that is needed is in it, provided once, and every
dependency leads to something in it that is as required; only an optional one may lead to nothing. -/
structure IsSnapshot (root : SnapshotBody ρ τ → ρ) (emap : ExtensionMap ρ)
    (requested : List CapabilityKey) (opts : Options ρ τ) (s : Snapshot ρ τ) : Prop where
  answered : ∀ k ∈ requested, ∃ cap, (k, cap) ∈ s.capabilities
  capabilities : ∀ k cap, (k, cap) ∈ s.capabilities ↔
    Reached emap requested k ∧ ∃ e, find emap k = some e ∧ e.capability = cap
  provided : ∀ k ps, (k, ps) ∈ s.capabilityProviders ↔
    Reached emap requested k ∧ ∃ e, find emap k = some e ∧ e.providers = ps
  once : ∀ k ps, (k, ps) ∈ s.capabilityProviders →
    ∃ p, ps = [p] ∧ (opts.sealedRun = true → p.sealedAs = .artifactReplayable)
  packages : ∀ pid, pid ∈ s.packages.map Prod.fst ↔
    ∃ k ps, (k, ps) ∈ s.capabilityProviders ∧ ∃ p ∈ ps, p.packageId = pid
  declared : ∀ d, d ∈ s.dependencies.map ResolvedDependency.toDependencyEdge ↔
    Declared emap requested d
  resolved : ∀ d ∈ s.dependencies,
    (find emap d.toKey = none ∧ d.optional = true ∧ d.providerPackageRoots = none)
    ∨ ∃ cap p, (d.toKey, cap) ∈ s.capabilities ∧ (d.toKey, [p]) ∈ s.capabilityProviders
      ∧ requirementSatisfied d.requirement cap = true
      ∧ d.providerPackageRoots = some [p.packageRoot]
  acyclic : ∀ k, ¬ TransGen (fun a b => ∃ d ∈ s.dependencies, d.fromKey = a ∧ d.toKey = b) k k
  schemas : ∀ id, UsedSchema emap requested id →
    ∃ r, (id, r) ∈ s.schemaRoots ∧ find opts.schemas id = some r
  portable : verifyPortable root s = true

theorem insertionSort_of_length_le {α : Type} (r : α → α → Prop) [DecidableRel r] {l : List α}
    (h : l.length ≤ 1) : l.insertionSort r = l := by
  match l, h with
  | [], _ => rfl
  | [a], _ => rfl

theorem length_providerRoots (e : Entry ρ) : (providerRoots e).length = e.providers.length := by
  unfold providerRoots
  rw [List.length_insertionSort, List.length_map]

theorem mem_keys_into_iff {κ ν : Type} [DecidableEq κ] {m es : List (κ × ν)} {k : κ} :
    k ∈ (into m es).map Prod.fst ↔ k ∈ m.map Prod.fst ∨ k ∈ es.map Prod.fst := by
  induction es generalizing m with
  | nil => simp [into_nil]
  | cons e es ih =>
    rw [into_cons, ih, keys_put, List.map_cons, List.mem_cons, ← or_assoc]
    refine or_congr_left ?_
    split
    · next hk => exact ⟨.inl, fun h => h.elim id fun he => he ▸ hk⟩
    · rw [List.mem_append, List.mem_singleton]

theorem packagesOf_eq (nodes : ExtensionMap ρ) :
    packagesOf nodes
      = into [] (nodes.flatMap fun e => e.2.providers.map fun p => (p.packageId, p)) := by
  unfold packagesOf into
  rw [List.foldl_flatMap]
  simp only [List.foldl_map]

/-- nothing is wrong -/
def Fine (emap : ExtensionMap ρ) (requested : List CapabilityKey) (opts : Options ρ τ) : Prop :=
  ∀ v, ¬ Wrong emap requested opts v

section
variable (h : IsClosure emap requested nodes edges) (hfine : Fine emap requested opts)
  (hprovided : ∀ k e, find emap k = some e → e.providers ≠ [])
include hfine hprovided

theorem provided_once (hk : Reached emap requested k) (he : find emap k = some e) :
    ∃ p, e.providers = [p] ∧ (opts.sealedRun = true → p.sealedAs = .artifactReplayable) := by
  have hone : ¬ 1 < e.providers.length := fun hmany =>
    hfine _ (.ambiguous hk he (by rwa [length_providerRoots]))
  have hpos := List.length_pos_iff.mpr (hprovided k e he)
  obtain ⟨p, hp⟩ := List.length_eq_one_iff.mp (by omega : e.providers.length = 1)
  refine ⟨p, hp, fun hsealed => ?_⟩
  by_contra hunsealed
  refine hfine _ (.unsealed hsealed hk he ?_)
  unfold unsealedProviders
  rw [hp, List.filter_cons, if_pos (decide_eq_true hunsealed)]
  exact List.cons_ne_nil _ _

include h

theorem mem_snapshot_providers {ps : List (Provider ρ)} :
    (k, ps) ∈ (snapshotBody nodes edges opts).capabilityProviders ↔
      Reached emap requested k ∧ ∃ e, find emap k = some e ∧ e.providers = ps := by
  have hsame : ∀ k e, Reached emap requested k → find emap k = some e →
      capabilityProviders e = e.providers := by
    intro k e hk he
    obtain ⟨p, hp, -⟩ := provided_once hfine hprovided hk he
    unfold capabilityProviders
    rw [hp]
    exact insertionSort_of_length_le _ le_rfl
  constructor
  · intro hmem
    obtain ⟨⟨k', e⟩, hnode, heq⟩ := List.mem_map.mp hmem
    obtain ⟨rfl, rfl⟩ := Prod.mk.inj heq
    obtain ⟨hk, he⟩ := h.mem_nodes.mp hnode
    exact ⟨hk, e, he, (hsame k' e hk he).symm⟩
  · rintro ⟨hk, e, he, rfl⟩
    refine List.mem_map.mpr ⟨(k, e), h.mem_nodes.mpr ⟨hk, he⟩, ?_⟩
    dsimp only
    rw [hsame k e hk he]

end

theorem mem_snapshot_capabilities (h : IsClosure emap requested nodes edges) {cap : Capability} :
    (k, cap) ∈ (snapshotBody nodes edges opts).capabilities ↔
      Reached emap requested k ∧ ∃ e, find emap k = some e ∧ e.capability = cap := by
  constructor
  · intro hmem
    obtain ⟨⟨k', e⟩, hnode, heq⟩ := List.mem_map.mp hmem
    obtain ⟨rfl, rfl⟩ := Prod.mk.inj heq
    obtain ⟨hk, he⟩ := h.mem_nodes.mp hnode
    exact ⟨hk, e, he, rfl⟩
  · rintro ⟨hk, e, he, rfl⟩
    exact List.mem_map.mpr ⟨(k, e), h.mem_nodes.mpr ⟨hk, he⟩, rfl⟩

theorem snapshot_resolved (h : IsClosure emap requested nodes edges)
    (hfine : Fine emap requested opts)
    (hprovided : ∀ k e, find emap k = some e → e.providers ≠ []) {d : ResolvedDependency ρ}
    (hd : d ∈ (snapshotBody nodes edges opts).dependencies) :
    (find emap d.toKey = none ∧ d.optional = true ∧ d.providerPackageRoots = none)
    ∨ ∃ cap p, (d.toKey, cap) ∈ (snapshotBody nodes edges opts).capabilities
      ∧ (d.toKey, [p]) ∈ (snapshotBody nodes edges opts).capabilityProviders
      ∧ requirementSatisfied d.requirement cap = true
      ∧ d.providerPackageRoots = some [p.packageRoot] := by
  obtain ⟨d, hedge, rfl⟩ := List.mem_map.mp hd
  have hdecl := h.mem_edges.mp hedge
  unfold enrichedDependency
  dsimp only
  cases hfind : find emap d.toKey with
  | none =>
    refine .inl ⟨rfl, ?_, ?_⟩
    · by_contra hneeded
      exact hfine _ (.missingDependency hdecl (by simpa using hneeded) hfind)
    · rw [(find_eq_none_iff nodes d.toKey).mpr ((h.notMem_keys hdecl.target).mpr hfind)]
      rfl
  | some e =>
    obtain ⟨p, hp, -⟩ := provided_once hfine hprovided hdecl.target hfind
    refine .inr ⟨e.capability, p, ?_, ?_, ?_, ?_⟩
    · exact (mem_snapshot_capabilities h).mpr ⟨hdecl.target, e, hfind, rfl⟩
    · exact (mem_snapshot_providers h hfine hprovided).mpr ⟨hdecl.target, e, hfind, hp⟩
    · by_contra hunmet
      exact hfine _ (.incompatible hdecl hfind (by simpa using hunmet))
    · rw [(h.find_iff _ e).mpr ⟨hdecl.target, hfind⟩, Option.map_some, providerRoots, hp]
      rfl

theorem snapshot_schemas (h : IsClosure emap requested nodes edges)
    (hfine : Fine emap requested opts) {id : Keyword} (hid : UsedSchema emap requested id) :
    ∃ r, (id, r) ∈ (snapshotBody nodes edges opts).schemaRoots ∧ find opts.schemas id = some r := by
  cases hfind : find opts.schemas id with
  | none =>
    have hmem : id ∈ unresolvedSchemas nodes opts.schemas :=
      (mem_unresolvedSchemas h).mpr ⟨hid, (find_eq_none_iff _ _).mp hfind⟩
    exact absurd (unresolved_wrong h (List.ne_nil_of_mem hmem)) (hfine _)
  | some r =>
    refine ⟨r, List.mem_filterMap.mpr ⟨id, (mem_schemaIds h).mpr hid, ?_⟩, rfl⟩
    rw [hfind]
    rfl

theorem snapshot_acyclic (h : IsClosure emap requested nodes edges)
    (hacyclic : ∀ k, ¬ TransGen (DependsOn nodes) k k) (k : CapabilityKey) :
    ¬ TransGen (fun a b => ∃ d ∈ (snapshotBody nodes edges opts).dependencies,
      d.fromKey = a ∧ d.toKey = b) k k := by
  refine fun hcycle => hacyclic k (TransGen.mono ?_ k k hcycle)
  rintro a b ⟨d, hd, rfl, rfl⟩
  obtain ⟨d, hedge, rfl⟩ := List.mem_map.mp hd
  have hdecl := h.mem_edges.mp hedge
  obtain ⟨e, he, hspec⟩ := hdecl.declared
  rw [h.dependsOn]
  exact ⟨hdecl.reached, dependsOn_iff.mpr ⟨e, he, d, hspec, rfl⟩⟩

theorem buildSnapshot_isSnapshot (h : IsClosure emap requested nodes edges)
    (hacyclic : ∀ k, ¬ TransGen (DependsOn nodes) k k) (hfine : Fine emap requested opts)
    (hprovided : ∀ k e, find emap k = some e → e.providers ≠ []) :
    IsSnapshot root emap requested opts (buildSnapshot root nodes edges opts) where
  answered k hk := by
    cases hfind : find emap k with
    | none => exact absurd (.missingCapability hk hfind) (hfine _)
    | some e => exact ⟨e.capability, (mem_snapshot_capabilities h).mpr ⟨.root hk, e, hfind, rfl⟩⟩
  capabilities k cap := mem_snapshot_capabilities h
  provided k ps := mem_snapshot_providers h hfine hprovided
  once k ps hmem := by
    obtain ⟨hk, e, he, rfl⟩ := (mem_snapshot_providers h hfine hprovided).mp hmem
    exact provided_once hfine hprovided hk he
  packages pid := by
    show pid ∈ (packagesOf nodes).map Prod.fst ↔ _
    rw [packagesOf_eq, mem_keys_into_iff, List.map_flatMap, List.mem_flatMap]
    constructor
    · rintro (hnil | ⟨⟨k, e⟩, hnode, hpid⟩)
      · cases hnil
      · obtain ⟨hk, he⟩ := h.mem_nodes.mp hnode
        rw [List.map_map, List.mem_map] at hpid
        have hmem := (mem_snapshot_providers h hfine hprovided).mpr ⟨hk, e, he, rfl⟩
        exact ⟨k, e.providers, hmem, hpid⟩
    · rintro ⟨k, ps, hmem, hpid⟩
      obtain ⟨hk, e, he, rfl⟩ := (mem_snapshot_providers h hfine hprovided).mp hmem
      refine .inr ⟨(k, e), h.mem_nodes.mpr ⟨hk, he⟩, ?_⟩
      rw [List.map_map, List.mem_map]
      exact hpid
  declared d := by
    rw [← h.mem_edges]
    show d ∈ (edges.map (enrichedDependency nodes)).map ResolvedDependency.toDependencyEdge
      ↔ d ∈ edges
    rw [List.map_map]
    exact Iff.of_eq (congrArg _ (List.map_id'' (fun _ => rfl) edges))
  resolved d hd := snapshot_resolved h hfine hprovided hd
  acyclic k := snapshot_acyclic h hacyclic k
  schemas id hid := snapshot_schemas h hfine hid
  portable := by
    unfold verifyPortable buildSnapshot
    simp only [snapshotBody, decide_true, Bool.and_self]

/-! ## resolution -/

/-- **A resolution answers.**  With a snapshot where nothing is wrong, and else with all that is
wrong. -/
theorem resolveRequested_spec (root : SnapshotBody ρ τ → ρ) (requested : List CapabilityKey)
    (opts : Options ρ τ) (hprovided : ∀ k e, find emap k = some e → e.providers ≠ []) :
    (∃ s, resolveRequested root emap requested opts = .ok s ∧ Fine emap requested opts
      ∧ IsSnapshot root emap requested opts s)
    ∨ ∃ vs, resolveRequested root emap requested opts = .error vs ∧ vs ≠ []
      ∧ (∀ v ∈ vs, Wrong emap requested opts v)
      ∧ ∀ v, Wrong emap requested opts v → Reported vs v := by
  obtain ⟨nodes, edges, hclosure, h⟩ := closure_spec emap requested
  obtain ⟨cycle, hfind, hcycle, hacyclic⟩ : ∃ cycle, findCycle nodes = some cycle
      ∧ (∀ c ∈ cycle, IsCycle (DependsOn nodes) c)
      ∧ (cycle = none → ∀ k, ¬ TransGen (DependsOn nodes) k k) := by
    rcases findCycle_spec nodes with ⟨c, hfind, hc⟩ | ⟨hfind, hacyclic⟩
    · exact ⟨some c, hfind, fun c' hc' => Option.some.inj hc' ▸ hc, fun hnone => by cases hnone⟩
    · exact ⟨none, hfind, ⟨fun c hc => (Option.not_mem_none c hc).elim, fun _ => hacyclic⟩⟩
  unfold resolveRequested
  rw [hclosure]
  dsimp only
  rw [hfind]
  dsimp only
  have hwrong : ∀ v, Wrong emap requested opts v →
      Reported (resolutionViolations nodes edges cycle requested opts) v :=
    fun v hv => reported_of_wrong h hacyclic hv
  split
  · next hne => exact .inr ⟨_, rfl, hne, fun v hv => wrong_of_mem h hcycle hv, hwrong⟩
  · next hnone =>
    rw [not_not] at hnone
    rw [hnone] at hwrong
    have hfine : Fine emap requested opts := by
      intro v hv
      rcases hwrong v hv with hmem | ⟨c, c', -, hmem⟩
      · exact List.not_mem_nil hmem
      · exact List.not_mem_nil hmem
    have hnocycle : cycle = none := by
      cases cycle with
      | none => rfl
      | some c => exact absurd (.dependencyCycle (h.dependsOn ▸ hcycle c rfl)) (hfine _)
    exact .inl ⟨_, rfl, hfine, buildSnapshot_isSnapshot h (hacyclic hnocycle) hfine hprovided⟩

/-- **Resolution from the live registry.**  After any run of it a resolution answers: with a snapshot
of everything that is needed, provided once and without a cycle, where nothing is wrong, and else with
all that is wrong. -/
theorem live_resolution {M : Manifests ρ} {core : Package ρ} {entries : ExtensionMap ρ}
    (hcore : registerPackage M [] core = .ok entries) (ops : List (Op ρ))
    (root : SnapshotBody ρ τ → ρ) (requested : List CapabilityKey) (opts : Options ρ τ) :
    let emap := (Runs.run (step M) (seeded entries) ops).entries
    (∃ s, resolveRequested root emap requested opts = .ok s ∧ Fine emap requested opts
      ∧ IsSnapshot root emap requested opts s)
    ∨ ∃ vs, resolveRequested root emap requested opts = .error vs ∧ vs ≠ []
      ∧ (∀ v ∈ vs, Wrong emap requested opts v)
      ∧ ∀ v, Wrong emap requested opts v → Reported vs v := by
  have hseed : Sound M (seeded entries).entries := (registerPackage_ok hcore .nil).1
  have hsound := run_sound hseed ops
  exact resolveRequested_spec root requested opts fun k e he => (hsound.entries k e he).provided

end

/-! ## a sample -/

/-- a package whose capability needs one of the core -/
def sampleDependent : Package ℕ :=
  { samplePackage with capabilities := [
    { sampleCapability with
      id := "award/share"
      entrypoint := some "award/share"
      declaredDependencies := [⟨"economics/award", "award/fixed", none, false⟩] }] }

def sampleRoot (body : SnapshotBody ℕ String) : ℕ := body.capabilities.length

def sampleOptions : Options ℕ String := ⟨"profile", false, [], []⟩

theorem live_resolution_sample :
    let emap := (Runs.run (step sampleManifests) (seeded sampleEntries)
      [.registerPackage sampleDependent]).entries
    ∃ s, resolveRequested sampleRoot emap [("economics/award", "award/share")] sampleOptions = .ok s
      ∧ IsSnapshot sampleRoot emap [("economics/award", "award/share")] sampleOptions s
      ∧ s.capabilities.length = 2 := by
  have hcore : registerPackage sampleManifests [] sampleCore = .ok sampleEntries := by decide
  have hanswer : ((resolveRequested sampleRoot
      (Runs.run (step sampleManifests) (seeded sampleEntries)
        [.registerPackage sampleDependent]).entries [("economics/award", "award/share")]
      sampleOptions).toOption.map fun s => s.capabilities.length) = some 2 := by decide
  rcases live_resolution hcore [.registerPackage sampleDependent] sampleRoot
    [("economics/award", "award/share")] sampleOptions with ⟨s, hs, -, hsnapshot⟩ | ⟨vs, hvs, -⟩
  · rw [hs] at hanswer
    exact ⟨s, hs, hsnapshot, Option.some.inj hanswer⟩
  · rw [hvs] at hanswer
    cases hanswer

end PRF.Extensions
