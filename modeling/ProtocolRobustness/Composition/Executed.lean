import ProtocolRobustness.Composition.Compiler
import ProtocolRobustness.Composition.Execution

/-!
# What compiled plans are, and what execution does

A combination that compiles has a plan whose nodes are those of the combination, resolved in the
registry.  The nodes of a plan are the stages of a pipeline, and the executor runs it.  A plan compiled
from a combination is let through, and means the pipeline of the combination's capabilities.

* `Compiled`             what a successful compilation has checked;
* `Compiled.replay`      the committed inputs of a plan compile to it;
* `Agrees`               a registry that has the capabilities of another one;
* `meaning`              the pipeline a combination asks for;
* `execute_compiled`     a compiled plan means what its combination means.
-/

set_option linter.unusedSectionVars false

namespace PRF.Composition
open Table
open Extensions (ExtensionMap Entry Capability CapabilityKey)

section
variable {ν σ π ρ : Type} [DecidableEq σ] [DecidableEq ρ] {H : Roots σ ρ} {ctx : Context ρ}
  {c : Combination σ} {p : Plan σ ρ} {n : Node σ} {pn : PlanNode σ ρ} {emap : ExtensionMap ρ}

/-! ## nodes -/

/-- a node that is compiled, with the entry and the contract it is compiled from -/
structure Resolves (H : Roots σ ρ) (emap : ExtensionMap ρ) (n : Node σ) (pn : PlanNode σ ρ)
    (ref : CapabilityKey) (e : Entry ρ) (raw : Authored) : Prop where
  referred : n.capabilityRef = some ref
  found : find emap ref = some e
  contract : e.capability.compositionContract = some raw
  valid : validateContract raw = []
  pure : executionSafety e.capability = some .pureCalculation
  made : pn = planNode H n ref e (normalizeContract raw)

theorem compileEntry_ok {ref : CapabilityKey} {e : Entry ρ} (h : compileEntry H n ref e = .ok pn) :
    ∃ raw, e.capability.compositionContract = some raw ∧ validateContract raw = []
      ∧ executionSafety e.capability = some .pureCalculation
      ∧ pn = planNode H n ref e (normalizeContract raw) := by
  unfold compileEntry at h
  split at h
  · cases h
  · split at h
    · cases h
    · next raw hraw =>
      split at h
      · cases h
      · next hvalid =>
        dsimp only at h
        split at h
        · cases h
        · split at h
          · cases h
          · split at h
            · cases h
            · next hpure =>
              exact ⟨raw, hraw, not_not.mp hvalid, not_not.mp hpure, (Except.ok.inj h).symm⟩

theorem compileNode_ok (h : compileNode H emap n = .ok pn) :
    ∃ ref e raw, Resolves H emap n pn ref e raw := by
  unfold compileNode at h
  split at h
  · cases h
  · next ref href =>
    split at h
    · cases h
    · next e he =>
      obtain ⟨raw, hraw, hvalid, hpure, hmade⟩ := compileEntry_ok h
      exact ⟨ref, e, raw, href, he, hraw, hvalid, hpure, hmade⟩

theorem nodeViolations_project (H : Roots σ ρ) (emap : ExtensionMap ρ) (nodes : List (Node σ)) :
    nodeViolations H emap (nodes.map projectNode) = nodeViolations H emap nodes := by
  unfold nodeViolations
  rw [List.filterMap_map]
  rfl

theorem compileNodes_project (H : Roots σ ρ) (emap : ExtensionMap ρ) (nodes : List (Node σ)) :
    compileNodes H emap (nodes.map projectNode) = compileNodes H emap nodes := by
  unfold compileNodes
  rw [List.filterMap_map]
  rfl

theorem compiled_of_mem {nodes : List (Node σ)} (h : nodeViolations H emap nodes = [])
    (hn : n ∈ nodes) : ∃ pn, compileNode H emap n = .ok pn := by
  cases hc : compileNode H emap n with
  | error v =>
    have hnone := List.filterMap_eq_nil_iff.mp h n hn
    rw [hc] at hnone
    cases hnone
  | ok pn => exact ⟨pn, rfl⟩

theorem compileNodes_spec {nodes : List (Node σ)} (h : nodeViolations H emap nodes = []) :
    List.Forall₂ (fun n pn => compileNode H emap n = .ok pn) nodes (compileNodes H emap nodes) := by
  induction nodes with
  | nil => exact .nil
  | cons n nodes ih =>
    obtain ⟨pn, hpn⟩ := compiled_of_mem h List.mem_cons_self
    unfold nodeViolations at h ih
    unfold compileNodes at ih ⊢
    rw [List.filterMap_cons, hpn] at h ⊢
    exact .cons hpn (ih h)

/-! ## plans -/

/-- What a successful compilation has checked. -/
structure Compiled (H : Roots σ ρ) (ctx : Context ρ) (c : Combination σ) (p : Plan σ ρ) : Prop where
  valid : validateCombination c = []
  resolved : nodeViolations H ctx.extensions c.nodes = []
  checked : allViolations ctx c (planNodes H ctx c) = []
  made : p = buildPlan H (planBody H ctx c (planNodes H ctx c))

theorem compileCombination_ok_iff : compileCombination H ctx c = .ok p ↔ Compiled H ctx c p := by
  unfold compileCombination
  dsimp only
  constructor
  · intro h
    split at h
    · cases h
    · next hvalid =>
      split at h
      · cases h
      · next hnodes =>
        split at h
        · cases h
        · next hchecked =>
          exact ⟨not_not.mp hvalid, not_not.mp hnodes, not_not.mp hchecked,
            (Except.ok.inj h).symm⟩
  · intro h
    rw [if_neg (not_not.mpr h.valid), if_neg (not_not.mpr h.resolved),
      if_neg (not_not.mpr h.checked), h.made]

/-- every node of the plan is a node of the combination, resolved -/
theorem Compiled.node (h : Compiled H ctx c p) (hpn : pn ∈ p.nodes) :
    ∃ n ∈ c.nodes, ∃ pn' ref e raw, Resolves H ctx.extensions n pn' ref e raw
      ∧ pn = addressed c pn' := by
  rw [h.made] at hpn
  obtain ⟨pn', hpn', rfl⟩ := List.mem_map.mp hpn
  obtain ⟨n, hn, hok⟩ := List.mem_filterMap.mp hpn'
  have hcompiled : compileNode H ctx.extensions n = .ok pn' := by
    cases hc : compileNode H ctx.extensions n with
    | error v =>
      rw [hc] at hok
      cases hok
    | ok pn'' =>
      rw [hc] at hok
      rw [Option.some.inj hok]
  obtain ⟨ref, e, raw, hresolves⟩ := compileNode_ok hcompiled
  exact ⟨n, hn, pn', ref, e, raw, hresolves, rfl⟩

/-! ## replay -/

/-- the registries a plan commits to, beside the one of capabilities -/
def CompilerInputs.context (inputs : CompilerInputs σ) (emap : ExtensionMap ρ) : Context ρ :=
  ⟨emap, inputs.evidenceContracts, inputs.obligations⟩

theorem evidence_selected (ctx : Context ρ) (c : Combination σ) {ref : Keyword}
    (h : evidenceRef c.verification = some ref) :
    resolveRef (compilerInputs ctx c).evidenceContracts ref = resolveRef ctx.evidenceContracts ref := by
  unfold compilerInputs
  rw [h]
  exact resolveRef_selected ctx.evidenceContracts ref

theorem obligation_selected (ctx : Context ρ) (c : Combination σ) {o : Obligation σ}
    (h : o ∈ sourceObligations c.verification) :
    resolveObligation (compilerInputs ctx c).obligations o = resolveObligation ctx.obligations o := by
  refine resolveObligation_selected ctx.obligations o fun ref href => ?_
  exact List.mem_filterMap.mpr ⟨o, h, href⟩

theorem planNodes_replay (H : Roots σ ρ) (ctx : Context ρ) (c : Combination σ) :
    planNodes H ((compilerInputs ctx c).context ctx.extensions) (combinationProjection c)
      = planNodes H ctx c := by
  show (compileNodes H ctx.extensions (c.nodes.map projectNode)).map _ = _
  rw [compileNodes_project]
  rfl

theorem evidenceViolations_replay (ctx : Context ρ) (c : Combination σ) :
    evidenceViolations (compilerInputs ctx c).evidenceContracts c.verification
      = evidenceViolations ctx.evidenceContracts c.verification := by
  unfold evidenceViolations
  cases h : evidenceRef c.verification with
  | none => rfl
  | some ref =>
    dsimp only
    rw [evidence_selected ctx c h]

theorem obligationViolations_replay (ctx : Context ρ) (c : Combination σ) :
    obligationViolations (compilerInputs ctx c).obligations c.verification
      = obligationViolations ctx.obligations c.verification :=
  List.filterMap_congr fun o ho => by rw [obligation_selected ctx c ho]

theorem planVerification_replay (ctx : Context ρ) (c : Combination σ) (ns : List (PlanNode σ ρ)) :
    planVerification ((compilerInputs ctx c).context ctx.extensions) (combinationProjection c) ns
      = planVerification ctx c ns := by
  unfold planVerification
  congr 1
  · show (evidenceRef c.verification).bind _ = _
    cases h : evidenceRef c.verification with
    | none => rfl
    | some ref =>
      rw [Option.bind_some, Option.bind_some]
      exact congrArg _ (congrArg _ (evidence_selected ctx c h))
  · exact List.filterMap_congr fun o ho => congrArg _ (obligation_selected ctx c ho)

theorem compilerInputs_replay (ctx : Context ρ) (c : Combination σ) :
    compilerInputs ((compilerInputs ctx c).context ctx.extensions) (combinationProjection c)
      = compilerInputs ctx c := by
  unfold compilerInputs
  congr 1
  · exact combinationProjection_twice c
  · show (evidenceRef c.verification).elim [] (fun ref => selectKeys
      ((evidenceRef c.verification).elim [] fun ref => selectKeys ctx.evidenceContracts [ref]) [ref])
      = (evidenceRef c.verification).elim [] fun ref => selectKeys ctx.evidenceContracts [ref]
    cases evidenceRef c.verification with
    | none => rfl
    | some ref => exact selectKeys_selectKeys _ _
  · exact selectKeys_selectKeys _ _

/-- **The inputs a plan commits to compile to the plan.** -/
theorem Compiled.replay (h : Compiled H ctx c p) :
    Compiled H (p.compilerInputs.context ctx.extensions) p.compilerInputs.combination p := by
  have hmade := h.made
  subst hmade
  have hnodes := planNodes_replay H ctx c
  refine ⟨validate_projection h.valid, ?_, ?_, ?_⟩
  · show nodeViolations H ctx.extensions (c.nodes.map projectNode) = []
    rw [nodeViolations_project]
    exact h.resolved
  · show allViolations ((compilerInputs ctx c).context ctx.extensions) (combinationProjection c)
      (planNodes H ((compilerInputs ctx c).context ctx.extensions) (combinationProjection c)) = []
    rw [hnodes]
    have hchecked := h.checked
    simp only [allViolations, List.append_eq_nil_iff] at hchecked ⊢
    obtain ⟨⟨⟨⟨⟨⟨⟨⟨⟨⟨⟨⟨⟨⟨⟨hedge, hin⟩, hout⟩, hterminal⟩, hbasis⟩, heffect⟩, hcustody⟩, hmode⟩,
      hunsupported⟩, hmerge⟩, -⟩, hverification⟩, hevidence⟩, hobligation⟩, hcycle⟩,
      hunreachable⟩ := hchecked
    refine ⟨⟨⟨⟨⟨⟨⟨⟨⟨⟨⟨⟨⟨⟨⟨hedge, hin⟩, hout⟩, hterminal⟩, ?_⟩, heffect⟩, hcustody⟩, hmode⟩,
      hunsupported⟩, hmerge⟩, rfl⟩, hverification⟩, ?_⟩, ?_⟩, ?_⟩, ?_⟩
    · rw [nodeIds_projection]
      exact hbasis
    · exact (evidenceViolations_replay ctx c).trans hevidence
    · exact (obligationViolations_replay ctx c).trans hobligation
    · rw [nodeIds_projection]
      exact hcycle
    · rw [nodeIds_projection]
      exact hunreachable
  · show buildPlan H (planBody H ctx c _) = buildPlan H (planBody H
      ((compilerInputs ctx c).context ctx.extensions) (combinationProjection c)
      (planNodes H ((compilerInputs ctx c).context ctx.extensions) (combinationProjection c)))
    rw [hnodes]
    congr 1
    unfold planBody
    rw [planVerification_replay, compilerInputs_replay, combinationProjection_twice]
    rfl

end

section
variable {ν σ π ρ : Type} [DecidableEq σ] [DecidableEq ρ] {H : Roots σ ρ} {ctx : Context ρ}
  {c : Combination σ} {p : Plan σ ρ} {n : Node σ} {pn : PlanNode σ ρ} {emap emap' : ExtensionMap ρ}

/-! ## registries that agree -/

/-- the capabilities of one registry are in the other, as they are -/
def Agrees (emap emap' : ExtensionMap ρ) : Prop :=
  ∀ k e, find emap k = some e → ∃ e', find emap' k = some e' ∧ e'.capability = e.capability
    ∧ e'.descriptorRoot = e.descriptorRoot

theorem compileNode_agrees (h : Agrees emap emap') (hn : compileNode H emap n = .ok pn) :
    compileNode H emap' n = .ok pn := by
  unfold compileNode at hn ⊢
  split at hn
  · cases hn
  · next ref href =>
    split at hn
    · cases hn
    · next e he =>
      obtain ⟨⟨cap, root, builtin, providers⟩, he', hcap, hroot⟩ := h ref e he
      dsimp only at hcap hroot
      subst hcap hroot
      rw [he']
      exact hn

theorem nodes_agree (h : Agrees emap emap') {nodes : List (Node σ)}
    (hn : nodeViolations H emap nodes = []) :
    nodeViolations H emap' nodes = [] ∧ compileNodes H emap' nodes = compileNodes H emap nodes := by
  constructor
  · refine List.filterMap_eq_nil_iff.mpr fun n hmem => ?_
    obtain ⟨pn, hpn⟩ := compiled_of_mem hn hmem
    rw [compileNode_agrees h hpn]
    rfl
  · refine List.filterMap_congr fun n hmem => ?_
    obtain ⟨pn, hpn⟩ := compiled_of_mem hn hmem
    rw [compileNode_agrees h hpn, hpn]

/-- **A plan compiled against a registry is what compiles against one that has its capabilities.** -/
theorem Compiled.agrees (h : Compiled H ctx c p) (ha : Agrees ctx.extensions emap') :
    Compiled H { ctx with extensions := emap' } c p := by
  obtain ⟨hviolations, hnodes⟩ := nodes_agree ha h.resolved
  have heq : planNodes H { ctx with extensions := emap' } c = planNodes H ctx c :=
    congrArg (List.map (addressed c)) hnodes
  refine ⟨h.valid, hviolations, ?_, ?_⟩
  · rw [heq]
    exact h.checked
  · rw [heq]
    exact h.made

end

/-! ## the stages of a plan -/

section
variable {ν σ π ρ : Type} [DecidableEq σ] [DecidableEq ρ]

abbrev NodeStage (ν σ : Type) := Pipeline.Stage (Option Keyword) ν (Effect σ) (Failure σ)

abbrev NodeEnding (ν σ : Type) :=
  Pipeline.Ending (Option Keyword) ν (Effect σ) (Failure σ) (MergeViolation σ)

/-- the entrypoint of a capability is called -/
def callEntry (resolve : Keyword → Resolved ν σ π) (e : Option (Entry ρ)) (terminal : Bool)
    (emits : List Keyword) (i : Invocation ν σ π) :
    Except (Failure σ) (Pipeline.Answer ν (Effect σ)) :=
  match resolveEntrypoint resolve e with
  | .missing => .error (.missingEntrypoint (e.bind fun e => e.capability.entrypoint))
  | .threw cls => .error (.invocationException cls)
  | .found f => checkResult terminal emits (f i)

def planStage (resolve : Keyword → Resolved ν σ π) (emap : ExtensionMap ρ) (params : π)
    (n : PlanNode σ ρ) : NodeStage ν σ where
  id := n.id
  terminal := n.terminal
  mayShortCircuit := n.mayShortCircuit
  call v := callEntry resolve (find emap n.capabilityKey) n.terminal n.emits
    ⟨v, n.spec, params, n.addresses, n.id⟩

/-- how a pipeline ends, as the executor tells it -/
def told (root : ρ) : NodeEnding ν σ → Execution ν σ ρ
  | .failed id f trace => .failed root id f trace
  | .unmergeable id v trace => .failed root id (.invalidEffects v) trace
  | .unauthorized id => .rejected [.unauthorizedShortCircuit id]
  | .finished short v effects trace => .ended short root v effects trace

/-- an amount is taken off a value with the `-` of the host, which may throw -/
def takeOff (σ : Type) (minus : ν → ν → Except Keyword ν) (v amount : ν) : Except (Failure σ) ν :=
  (minus v amount).mapError .evaluationException

variable {minus : ν → ν → Except Keyword ν} {resolve : Keyword → Resolved ν σ π}
  {strategy : MergeStrategy} {emap : ExtensionMap ρ} {params : π} {acc : Acc ν σ}

theorem output_takeOff (terminal : Bool) (v : ν) (a : Pipeline.Answer ν (Effect σ)) :
    Pipeline.output (takeOff σ minus) terminal v a
      = (if terminal then .ok (a.value.getD a.amount) else minus v a.amount).mapError
        .evaluationException := by
  cases terminal <;> rfl

theorem runNodes_stopped (h : acc.stop.isSome) (nodes : List (PlanNode σ ρ)) :
    runNodes minus resolve strategy emap params acc nodes = acc := by
  cases nodes with
  | nil => rfl
  | cons n nodes => exact if_pos h

/-- **The executor runs the pipeline of the nodes.** -/
theorem outcome_runNodes (root : ρ) (nodes : List (PlanNode σ ρ)) (h : acc.stop = none) :
    outcome root (runNodes minus resolve strategy emap params acc nodes)
      = told root (Pipeline.run (takeOff σ minus) (mergeNodeEffects strategy)
        (nodes.map (planStage resolve emap params)) acc.value acc.effects acc.nodes) := by
  induction nodes generalizing acc with
  | nil =>
    show outcome root acc = _
    unfold outcome
    rw [h]
    rfl
  | cons n nodes ih =>
    have hstop : ¬ acc.stop.isSome = true := by simp [h]
    rw [List.map_cons]
    unfold runNodes Pipeline.run
    rw [if_neg hstop]
    have hstopped : ∀ (a : Acc ν σ), a.stop.isSome = true →
        outcome root (runNodes minus resolve strategy emap params a nodes) = outcome root a :=
      fun a ha => congrArg (outcome root) (runNodes_stopped ha nodes)
    unfold runNode
    dsimp only [planStage]
    unfold callEntry
    cases resolveEntrypoint resolve (find emap n.capabilityKey) with
    | missing => exact hstopped _ rfl
    | threw cls => exact hstopped _ rfl
    | found f =>
      dsimp only
      cases checkResult n.terminal n.emits (f ⟨acc.value, n.spec, params, n.addresses, n.id⟩) with
      | error failure => exact hstopped _ rfl
      | ok a =>
        dsimp only
        rw [output_takeOff]
        generalize (if n.terminal then _ else minus acc.value a.amount : Except Keyword ν) = computed
        cases computed with
        | error cls => exact hstopped _ rfl
        | ok valueOut =>
          dsimp only [Except.mapError]
          cases mergeNodeEffects strategy n.id acc.effects a.effects with
          | error v => exact hstopped _ rfl
          | ok effects =>
            dsimp only
            cases hshort : a.shortCircuit with
            | false => exact ih h
            | true =>
              by_cases hmay : n.mayShortCircuit = true
              · simp only [hmay, Bool.and_self, if_true]
                exact hstopped _ rfl
              · simp only [hmay, Bool.and_false, if_true, if_false, Bool.false_eq_true]
                exact hstopped _ rfl

/-! ## the meaning of a combination -/

def nodeStage (resolve : Keyword → Resolved ν σ π) (emap : ExtensionMap ρ) (params : π)
    (c : Combination σ) (n : Node σ) : Option (NodeStage ν σ) :=
  n.capabilityRef.bind fun ref => (find emap ref).bind fun e =>
    e.capability.compositionContract.map fun raw =>
      let k := normalizeContract raw
      { id := n.id
        terminal := k.control.terminal
        mayShortCircuit := k.control.mayShortCircuit
        call := fun v => callEntry resolve (some e) k.control.terminal k.effects.emits
          ⟨v, n.spec, params, n.addresses.or c.addresses, n.id⟩ }

def nodeStrategy (emap : ExtensionMap ρ) (n : Node σ) : Option MergeStrategy :=
  n.capabilityRef.bind fun ref => (find emap ref).bind fun e =>
    e.capability.compositionContract.map fun raw => (normalizeContract raw).effects.mergeStrategy

/-- the strategy of the combination, or that of its first capability -/
def strategyOf (emap : ExtensionMap ρ) (c : Combination σ) : MergeStrategy :=
  (c.effectMergeStrategy.or (c.nodes.head?.bind (nodeStrategy emap))).getD .accumulate

/-- a value goes through the capabilities of a combination -/
def meaning (minus : ν → ν → Except Keyword ν) (resolve : Keyword → Resolved ν σ π)
    (emap : ExtensionMap ρ) (c : Combination σ) (params : π) (v : ν) : NodeEnding ν σ :=
  Pipeline.run (takeOff σ minus) (mergeNodeEffects (strategyOf emap c))
    (c.nodes.filterMap (nodeStage resolve emap params c)) v [] []

end

/-! ## compiled plans run -/

section
variable {ν σ π ρ : Type} [DecidableEq σ] [DecidableEq ρ] {H : Roots σ ρ} {ctx : Context ρ}
  {c : Combination σ} {p : Plan σ ρ} {n : Node σ} {pn : PlanNode σ ρ} {emap : ExtensionMap ρ}

theorem filterMap_eq_map {α β γ : Type} {R : α → β → Prop} {f : α → Option γ} {g : β → γ}
    {l : List α} {l' : List β} (h : List.Forall₂ R l l') (hfg : ∀ a b, R a b → f a = some (g b)) :
    l.filterMap f = l'.map g := by
  induction h with
  | nil => rfl
  | cons hab _ ih => rw [List.filterMap_cons, hfg _ _ hab, List.map_cons, ih]

theorem Compiled.spec (h : Compiled H ctx c p) :
    List.Forall₂ (fun n pn => ∃ pn', compileNode H ctx.extensions n = .ok pn' ∧ pn = addressed c pn')
      c.nodes p.nodes := by
  rw [h.made]
  refine List.forall₂_map_right_iff.mpr ?_
  exact (compileNodes_spec h.resolved).imp fun n pn hpn => ⟨pn, hpn, rfl⟩

theorem Compiled.stages (h : Compiled H ctx c p) (ha : Agrees ctx.extensions emap)
    (resolve : Keyword → Resolved ν σ π) (params : π) :
    c.nodes.filterMap (nodeStage resolve ctx.extensions params c)
      = p.nodes.map (planStage resolve emap params) := by
  refine filterMap_eq_map h.spec ?_
  rintro n pn ⟨pn', hpn', rfl⟩
  obtain ⟨ref, e, raw, hresolves⟩ := compileNode_ok hpn'
  obtain ⟨⟨cap, root, builtin, providers⟩, he', hcap, hroot⟩ := ha ref e hresolves.found
  dsimp only at hcap hroot
  subst hcap hroot
  unfold nodeStage
  rw [hresolves.referred, Option.bind_some, hresolves.found, Option.bind_some, hresolves.contract,
    Option.map_some, hresolves.made]
  unfold planStage addressed planNode
  dsimp only
  rw [he']
  rfl

theorem Compiled.nonempty (h : Compiled H ctx c p) : p.nodes ≠ [] := by
  intro hnil
  have hlength := h.spec.length_eq
  rw [hnil, List.length_nil] at hlength
  exact (wellFormed_of_valid h.valid).nonempty (List.length_eq_zero_iff.mp hlength)

/-- **The nodes of a plan agree on its strategy.** -/
theorem Compiled.strategies (h : Compiled H ctx c p) :
    nodeStrategies p.nodes = [p.effectMergeStrategy] := by
  have hne : nodeStrategies p.nodes ≠ [] := by
    unfold nodeStrategies
    rw [Ne, List.dedup_eq_nil, List.map_eq_nil_iff]
    exact h.nonempty
  have hnodup : (nodeStrategies p.nodes).Nodup := List.nodup_dedup _
  have hmerge : mergeConflicts p.nodes c.effectMergeStrategy = [] := by
    have hchecked := h.checked
    simp only [allViolations, List.append_eq_nil_iff] at hchecked
    rw [h.made]
    exact hchecked.1.1.1.1.1.1.2
  have hstrategy : p.effectMergeStrategy
      = (c.effectMergeStrategy.or (nodeStrategies p.nodes).head?).getD .accumulate := by
    rw [h.made]
    rfl
  rw [hstrategy]
  unfold mergeConflicts at hmerge
  split at hmerge
  · next d hd =>
    rw [hd, Option.some_or, Option.getD_some]
    have hall : ∀ s ∈ nodeStrategies p.nodes, s = d := by
      intro s hs
      by_contra hsd
      exact found_nothing.mp hmerge (List.any_eq_true.mpr ⟨s, hs, decide_eq_true hsd⟩)
    obtain ⟨s, l, hl⟩ := List.exists_cons_of_ne_nil hne
    rw [hl] at hall hnodup ⊢
    obtain rfl := hall s List.mem_cons_self
    cases l with
    | nil => rfl
    | cons t l =>
      obtain rfl := hall t (by simp)
      exact absurd List.mem_cons_self (List.nodup_cons.mp hnodup).1
  · next hd =>
    have hlength : (nodeStrategies p.nodes).length ≤ 1 := not_lt.mp (found_nothing.mp hmerge)
    obtain ⟨s, l, hl⟩ := List.exists_cons_of_ne_nil hne
    rw [hl] at hlength ⊢
    rw [hd, Option.none_or, List.head?_cons, Option.getD_some]
    rw [List.length_cons] at hlength
    rw [List.length_eq_zero_iff.mp (Nat.le_zero.mp (Nat.le_of_succ_le_succ hlength))]

theorem Compiled.strategy_eq (h : Compiled H ctx c p) :
    strategyOf ctx.extensions c = p.effectMergeStrategy := by
  have hstrategy : p.effectMergeStrategy
      = (c.effectMergeStrategy.or (nodeStrategies p.nodes).head?).getD .accumulate := by
    rw [h.made]
    rfl
  unfold strategyOf
  cases hd : c.effectMergeStrategy with
  | some d => rw [hstrategy, hd, Option.some_or, Option.some_or]
  | none =>
    have hspec := h.spec
    have hstrategies := h.strategies
    cases hnodes : c.nodes with
    | nil => exact absurd hnodes (wellFormed_of_valid h.valid).nonempty
    | cons n rest =>
      rw [hnodes] at hspec
      obtain ⟨pn, more, ⟨pn', hpn', hpn⟩, -, hmore⟩ := List.forall₂_cons_left_iff.mp hspec
      obtain ⟨ref, e, raw, hresolves⟩ := compileNode_ok hpn'
      have hmem : pn.mergeStrategy ∈ nodeStrategies p.nodes := by
        refine List.mem_dedup.mpr (List.mem_map_of_mem ?_)
        rw [hmore]
        exact List.mem_cons_self
      rw [hstrategies, List.mem_singleton] at hmem
      rw [Option.none_or, List.head?_cons, Option.bind_some]
      unfold nodeStrategy
      rw [hresolves.referred, Option.bind_some, hresolves.found, Option.bind_some,
        hresolves.contract, Option.map_some, Option.getD_some, ← hmem, hpn, hresolves.made]
      rfl

theorem Compiled.unsafe_none (h : Compiled H ctx c p) :
    (p.nodes.filter fun n => n.entrypointSafety ≠ some .pureCalculation) = [] := by
  refine List.filter_eq_nil_iff.mpr fun pn hpn => ?_
  obtain ⟨n, -, pn', ref, e, raw, hresolves, rfl⟩ := h.node hpn
  rw [hresolves.made, decide_eq_true_iff]
  exact not_not.mpr hresolves.pure

theorem Compiled.abort (h : Compiled H ctx c p) :
    (p.nodes.filter fun n => n.failureMode ≠ .abort) = [] := by
  refine List.filter_eq_nil_iff.mpr fun pn hpn => ?_
  obtain ⟨n, -, pn', ref, e, raw, hresolves, rfl⟩ := h.node hpn
  rw [hresolves.made, decide_eq_true_iff]
  exact not_not.mpr (failureMode_abort hresolves.valid)

/-- the descriptor roots of a registry are those of its capabilities -/
def Rooted (H : Roots σ ρ) (emap : ExtensionMap ρ) : Prop :=
  ∀ k e, find emap k = some e → e.descriptorRoot = H.manifests.descriptorRoot e.capability

theorem Compiled.matched (h : Compiled H ctx c p) (ha : Agrees ctx.extensions emap)
    (hrooted : Rooted H emap) : p.nodes.filter (mismatched H emap) = [] := by
  refine List.filter_eq_nil_iff.mpr fun pn hpn => ?_
  obtain ⟨n, -, pn', ref, e, raw, hresolves, rfl⟩ := h.node hpn
  obtain ⟨e', he', hcap, hroot⟩ := ha ref e hresolves.found
  have hdescriptor := hrooted ref e' he'
  have hcontract : contractMatches H (addressed c pn') e'.capability = true := by
    unfold contractMatches
    rw [hcap, hresolves.contract, hresolves.made]
    simp [hresolves.valid, addressed, planNode]
  have hkey : (addressed c pn').capabilityKey = ref := by
    rw [hresolves.made]
    rfl
  have hcommitted : (addressed c pn').capabilityRoot = e'.descriptorRoot := by
    rw [hresolves.made, hroot]
    rfl
  have hsafety : (addressed c pn').entrypointSafety = executionSafety e'.capability := by
    rw [hresolves.made, hcap]
    rfl
  unfold mismatched
  rw [hkey, he']
  simp only [hcommitted, hsafety, hcontract, ← hdescriptor, ne_eq, not_true_eq_false, decide_false,
    Bool.not_true, Bool.or_false, Bool.false_or, decide_eq_true_iff, not_not]
  rw [hcap]
  exact hresolves.pure

theorem Compiled.merge_none (h : Compiled H ctx c p) : mergePlanViolation p = none := by
  have hstrategies := h.strategies
  have hsupported : p.effectMergeStrategy ∈ supportedMergeStrategies := by
    have hmem : p.effectMergeStrategy ∈ nodeStrategies p.nodes := by
      rw [hstrategies]
      exact List.mem_singleton_self _
    obtain ⟨pn, hpn, heq⟩ := List.mem_map.mp (List.mem_dedup.mp hmem)
    obtain ⟨n, -, pn', ref, e, raw, hresolves, rfl⟩ := h.node hpn
    rw [← heq, hresolves.made]
    exact mergeStrategy_supported hresolves.valid
  unfold mergePlanViolation
  rw [if_neg (not_not.mpr hsupported), if_neg (not_not.mpr hstrategies)]

/-- a compiled plan has the shape of one when its edges have -/
theorem Compiled.authenticated (h : Compiled H ctx c p)
    (hroots : ∀ body, H.wellFormed (H.plan body) = true) :
    authenticatedPlan H p = p.edges.all Edge.closed := by
  have hwell := wellFormed_of_valid h.valid
  unfold authenticatedPlan
  rw [h.made]
  simp [buildPlan, planBody, planRoot, hroots, hwell.input, hwell.output]

/-- **A compiled plan means the pipeline its combination asks for**, in every registry that has the
capabilities it was compiled from; a plan with edges that have other keys than edges have is not
executed. -/
theorem execute_compiled (h : Compiled H ctx c p) (ha : Agrees ctx.extensions emap)
    (hrooted : Rooted H emap) (hroots : ∀ body, H.wellFormed (H.plan body) = true)
    (minus : ν → ν → Except Keyword ν) (resolve : Keyword → Resolved ν σ π) (params : π) (v : ν) :
    executeCompiledPlan minus resolve H p emap params (.ok v)
      = if p.edges.all Edge.closed then told p.root (meaning minus resolve ctx.extensions c params v)
        else .rejected [.unauthenticatedPlan] := by
  have hreplay : compileCombination H (p.compilerInputs.context emap) p.compilerInputs.combination
      = .ok p :=
    compileCombination_ok_iff.mpr (h.replay.agrees ha)
  unfold executeCompiledPlan
  rw [h.authenticated hroots]
  cases hclosed : p.edges.all Edge.closed with
  | false => rfl
  | true =>
    dsimp only
    rw [h.merge_none]
    dsimp only
    rw [h.unsafe_none, h.abort, h.matched ha hrooted]
    unfold CompilerInputs.context at hreplay
    rw [hreplay]
    simp only [ne_eq, not_true_eq_false, if_false, Bool.not_true, Bool.false_eq_true, if_true]
    rw [outcome_runNodes p.root p.nodes rfl, ← h.stages ha resolve params, ← h.strategy_eq]
    rfl

end

end PRF.Composition
