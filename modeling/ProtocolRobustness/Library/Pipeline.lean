import ProtocolRobustness.Library.Fallible
import Mathlib.Algebra.BigOperators.Group.List.Basic
import Mathlib.Tactic

/-!
# Pipelines

What a pipeline is for: a value goes through stages one after the other, each takes an amount off it
and emits effects, until the stages are used up, a stage ends the pipeline, or one fails, which it
does also where the amount cannot be taken.  Nothing is left of a pipeline that fails.

* `Stage`, `Answer`      a stage, and what it answers;
* `Pipeline.run`         a value goes through stages.
-/

namespace Pipeline

section
variable {ι ν ε φ μ : Type}

/-- what a stage answers: the amount it takes, the value it leaves where it is terminal and says so,
and whether the pipeline is to end here -/
structure Answer (ν ε : Type) where
  amount : ν
  value : Option ν
  effects : List ε
  shortCircuit : Bool

/-- a stage; `call` gives its answer for a value, or how it fails -/
structure Stage (ι ν ε φ : Type) where
  id : ι
  terminal : Bool
  mayShortCircuit : Bool
  call : ν → Except φ (Answer ν ε)

/-- what one stage has done -/
structure Evidence (ι ν ε : Type) where
  id : ι
  input : ν
  amount : ν
  output : ν
  effects : List ε
  deriving DecidableEq

/-- how a pipeline ends: a stage fails, its effects do not go with the others, it ends the pipeline
without leave, or the value got through -/
inductive Ending (ι ν ε φ μ : Type)
  | failed (id : ι) (failure : φ) (trace : List (Evidence ι ν ε))
  | unmergeable (id : ι) (violation : μ) (trace : List (Evidence ι ν ε))
  | unauthorized (id : ι)
  | finished (shortCircuited : Bool) (value : ν) (effects : List ε) (trace : List (Evidence ι ν ε))
  deriving DecidableEq

/-- the value after a stage; `take` takes the amount off the value before it -/
def output (take : ν → ν → Except φ ν) (terminal : Bool) (v : ν) (a : Answer ν ε) : Except φ ν :=
  if terminal then .ok (a.value.getD a.amount) else take v a.amount

/-- a value goes through stages; `merge` adds the effects of a stage to those before -/
def run (take : ν → ν → Except φ ν) (merge : ι → List ε → List ε → Except μ (List ε)) :
    List (Stage ι ν ε φ) → ν → List ε → List (Evidence ι ν ε) → Ending ι ν ε φ μ
  | [], v, effects, trace => .finished false v effects trace
  | s :: stages, v, effects, trace =>
    match s.call v with
    | .error failure => .failed s.id failure trace
    | .ok a =>
      match output take s.terminal v a with
      | .error failure => .failed s.id failure trace
      | .ok v' =>
        match merge s.id effects a.effects with
        | .error violation => .unmergeable s.id violation trace
        | .ok effects' =>
          if a.shortCircuit then
            if s.mayShortCircuit then
              .finished true v' effects' (trace ++ [⟨s.id, v, a.amount, v', a.effects⟩])
            else .unauthorized s.id
          else run take merge stages v' effects' (trace ++ [⟨s.id, v, a.amount, v', a.effects⟩])

end

end Pipeline
