import ProtocolRobustness.Composition.Executed
import ProtocolRobustness.Extensions.RegistryRuns

/-!
# Plans of the live registry

A combination is compiled against the capabilities that the live registry has at one time, and its plan
is executed at another.  What is registered between the two does not change what the plan means.

* `agrees_of_grown`      what is registered later agrees with what was registered before;
* `compiled_plan_runs`   a plan means the pipeline of its combination, then and later.
-/

set_option linter.unusedSectionVars false

namespace PRF.Composition
open Table
open LongArith (HostInt)
open Extensions (ExtensionMap Package Op Live Grown Sound registerPackage seeded sampleManifests
  sampleCore sampleEntries samplePackage)

section
variable {ν σ π ρ : Type} [DecidableEq σ] [DecidableEq ρ] {H : Roots σ ρ}
  {emap emap' : ExtensionMap ρ}

theorem agrees_of_grown (h : Grown emap emap') : Agrees emap emap' := by
  intro k e he
  obtain ⟨e', he', hext⟩ := h k e he
  exact ⟨e', he', hext.capability, hext.root⟩

theorem rooted_of_sound (h : Sound H.manifests emap) : Rooted H emap :=
  fun k e he => (h.entries k e he).rooted

/-- **A plan means the pipeline of its combination.**  It is compiled at any time in a run of the live
registry, from what is registered then, and executed after more has been registered; the pipeline is
that of the capabilities at the time it was compiled.  Only a plan with edges that have other keys than
edges have is compiled and not executed.  Where `-` throws, both fail, with nothing left but the
evidence of the nodes before. -/
theorem compiled_plan_runs {core : Package ρ} {entries : ExtensionMap ρ}
    (hcore : registerPackage H.manifests [] core = .ok entries) (ops : List (Op ρ))
    {more : List (Op ρ)} (hmore : ∀ op ∈ more, op.registers = true)
    (hroots : ∀ body, H.wellFormed (H.plan body) = true)
    {evidence : List (Keyword × EvidenceContract)} {obligations : List (Keyword × Definition)}
    {c : Combination σ} {p : Plan σ ρ}
    (hp : compileCombination H
      ⟨(Runs.run (Extensions.step H.manifests) (seeded entries) ops).entries, evidence, obligations⟩ c
      = .ok p)
    (minus : ν → ν → Except Keyword ν) (resolve : Keyword → Resolved ν σ π) (params : π) (v : ν) :
    executeCompiledPlan minus resolve H p
      (Runs.run (Extensions.step H.manifests) (seeded entries) (ops ++ more)).entries params (.ok v)
      = if p.edges.all Edge.closed then
        told p.root (meaning minus resolve
          (Runs.run (Extensions.step H.manifests) (seeded entries) ops).entries c params v)
        else .rejected [.unauthenticatedPlan] := by
  have hseed : Sound H.manifests (seeded entries).entries :=
    (Extensions.registerPackage_ok hcore .nil).1
  have hsound := Extensions.run_sound hseed ops
  rw [Runs.run_append]
  refine execute_compiled (compileCombination_ok_iff.mp hp) ?_ ?_ hroots minus resolve params v
  · exact agrees_of_grown (Extensions.run_grown hsound hmore)
  · exact rooted_of_sound (Extensions.run_sound hsound more)

end

/-! ## a sample -/

def sampleRoots : Roots Unit ℕ where
  manifests := sampleManifests
  contract k := k.effects.emits.length
  combination c := c.nodes.length
  plan body := body.nodes.length
  wellFormed _ := true

def sampleNode (id : Keyword) : Node Unit :=
  ⟨some id, some ("economics/award", "award/fixed"), some .any, (), none, none, none⟩

def sampleCombination : Combination Unit where
  id := some "two-awards"
  version := some 1
  nodes := [sampleNode "first", sampleNode "second"]
  edges := none
  input := some ⟨some "context", some "amount"⟩
  expectedOutput := some ⟨some "result", some "amount"⟩
  effectMergeStrategy := none
  verification := none
  addresses := none
  adapters := []

def samplePlan : Plan Unit ℕ :=
  buildPlan sampleRoots (planBody sampleRoots ⟨sampleEntries, [], []⟩ sampleCombination
    (planNodes sampleRoots ⟨sampleEntries, [], []⟩ sampleCombination))

def sampleEntrypoint (symbol : Keyword) : Resolved HostInt Unit Unit :=
  if symbol = "award/fixed" then
    .found fun _ => .map ⟨none, .ok (.ofInt 10), none, .vector [.map ⟨some "pay", none, ()⟩], false⟩
  else .missing

theorem compiled_plan_runs_sample :
    executeCompiledPlan minusIntegers sampleEntrypoint sampleRoots samplePlan
      (Runs.run (Extensions.step sampleManifests) (seeded sampleEntries)
        ([] ++ [.registerPackage samplePackage])).entries () (.ok (.ofInt 100))
      = .ended false 2 (.ofInt 80) [⟨some "pay", none, ()⟩, ⟨some "pay", none, ()⟩]
        [⟨some "first", .ofInt 100, .ofInt 10, .ofInt 90, [⟨some "pay", none, ()⟩]⟩,
          ⟨some "second", .ofInt 90, .ofInt 10, .ofInt 80, [⟨some "pay", none, ()⟩]⟩] :=
  have hcore : registerPackage sampleManifests [] sampleCore = .ok sampleEntries := by decide
  have hp : compileCombination sampleRoots ⟨sampleEntries, [], []⟩ sampleCombination
      = .ok samplePlan := by decide
  have hmore : ∀ op ∈ [Op.registerPackage samplePackage], op.registers = true := by decide
  (compiled_plan_runs (H := sampleRoots) hcore [] hmore (fun _ => rfl) hp minusIntegers
    sampleEntrypoint () (.ofInt 100)).trans (by decide)

/-- 15 above the least 64-bit integer: the first award is taken off, the second does not fit -/
example : executeCompiledPlan minusIntegers sampleEntrypoint sampleRoots samplePlan sampleEntries ()
      (.ok (.ofInt (15 - 2 ^ 63)))
    = .failed 2 (some "second") (.evaluationException "java.lang.ArithmeticException")
      [⟨some "first", .ofInt (15 - 2 ^ 63), .ofInt 10, .ofInt (5 - 2 ^ 63),
        [⟨some "pay", none, ()⟩]⟩] := by
  decide

end PRF.Composition
