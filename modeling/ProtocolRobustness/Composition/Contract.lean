import ProtocolRobustness.Library.Table
import Mathlib.Tactic

/-!
# What capabilities and combinations declare

What one capability declares about its part in a composition: the values it takes and gives, the
effects it may emit, how it may stop a pipeline.  Fields that are absent have defaults.  A combination
names an evidence contract and the obligations it is under; each name is resolved against a registry
of definitions, and what is resolved is committed.

* `Authored`             a contract as it is written, with fields left out;
* `Contract`             its canonical form;
* `normalizeContract`    defaults are filled in;
* `validateContract`     what is wrong with a contract;
* `EvidenceContract`, `resolveRef`     the registry of evidence contracts;
* `Definition`, `resolveObligation`    the registry of obligations;
* `resolveObligation_selected`         only the definitions a combination names count.
-/

namespace PRF.Composition
open Table

/-- a keyword, by its name -/
abbrev Keyword := String

def contractVersion : ℤ := 1

/-! ## the values of the fields -/

inductive Mode
  | sequential
  | other (name : Keyword)
  deriving DecidableEq

inductive MergeStrategy
  | accumulate
  | replace
  | partition
  | other (name : Keyword)
  deriving DecidableEq

inductive FailureMode
  | abort
  | «continue»
  | other (name : Keyword)
  deriving DecidableEq

inductive ExecutionSafety
  | pureCalculation
  | externalIrreversible
  | other (name : Keyword)
  deriving DecidableEq

inductive Cardinality
  | one
  | many
  | other (name : Keyword)
  deriving DecidableEq

inductive Direction
  | add
  | sub
  | either
  | other (name : Keyword)
  deriving DecidableEq

def supportedMergeStrategies : List MergeStrategy := [.accumulate, .replace, .partition]
def supportedFailureModes : List FailureMode := [.abort]
def supportedExecutionSafeties : List ExecutionSafety := [.pureCalculation, .externalIrreversible]
def supportedCardinalities : List Cardinality := [.one, .many]
def supportedDirections : List Direction := [.add, .sub, .either]

/-! ## as it is written -/

namespace Authored

structure ValueContract where
  schemaRef : Option Keyword
  semanticType : Option Keyword
  cardinality : Option Cardinality
  deriving DecidableEq

structure Effects where
  emits : Option (List Keyword)
  mergeStrategy : Option MergeStrategy
  exclusiveEffects : Option (List Keyword)
  deriving DecidableEq

structure Custody where
  direction : Option Direction
  accounts : Option (List Keyword)
  exclusiveAccounts : Option (List Keyword)
  deriving DecidableEq

structure Control where
  terminal : Option Bool
  mayShortCircuit : Option Bool
  failureMode : Option FailureMode
  deriving DecidableEq

structure Determinism where
  required : Option Bool
  contextReads : Option (List Keyword)
  externalReads : Option (List Keyword)
  deriving DecidableEq

structure Adapters where
  accepted : Option (List Keyword)
  implicit : Option Bool
  deriving DecidableEq

structure Verification where
  intermediateOutputCommitted : Option Bool
  evidenceContractRef : Option Keyword
  deriving DecidableEq

end Authored

structure Authored where
  version : Option ℤ
  input : Option Authored.ValueContract
  output : Option Authored.ValueContract
  roles : Option (List Keyword)
  modes : Option (List Mode)
  effects : Option Authored.Effects
  custody : Option Authored.Custody
  control : Option Authored.Control
  determinism : Option Authored.Determinism
  adapters : Option Authored.Adapters
  verification : Option Authored.Verification
  executionSafety : Option ExecutionSafety
  deriving DecidableEq

/-! ## canonical form -/

structure ValueContract where
  schemaRef : Option Keyword
  semanticType : Option Keyword
  cardinality : Cardinality
  deriving DecidableEq

structure Effects where
  emits : List Keyword
  mergeStrategy : MergeStrategy
  exclusiveEffects : List Keyword
  deriving DecidableEq

structure Custody where
  direction : Direction
  accounts : List Keyword
  exclusiveAccounts : List Keyword
  deriving DecidableEq

structure Control where
  terminal : Bool
  mayShortCircuit : Bool
  failureMode : FailureMode
  deriving DecidableEq

structure Determinism where
  required : Bool
  contextReads : List Keyword
  externalReads : List Keyword
  deriving DecidableEq

structure Adapters where
  accepted : List Keyword
  implicit : Bool
  deriving DecidableEq

structure Verification where
  intermediateOutputCommitted : Bool
  evidenceContractRef : Option Keyword
  deriving DecidableEq

structure Contract where
  version : ℤ
  input : ValueContract
  output : ValueContract
  roles : List Keyword
  modes : List Mode
  effects : Effects
  custody : Custody
  control : Control
  determinism : Determinism
  adapters : Adapters
  verification : Verification
  executionSafety : Option ExecutionSafety
  deriving DecidableEq

def defaultCustody : Custody := ⟨.either, [], []⟩
def defaultEffects : Effects := ⟨[], .accumulate, []⟩
def defaultControl : Control := ⟨false, false, .abort⟩
def defaultDeterminism : Determinism := ⟨true, [], []⟩
def defaultAdapters : Adapters := ⟨[], false⟩
def defaultVerification : Verification := ⟨true, none⟩

namespace Authored

def ValueContract.normalize : Option ValueContract → Composition.ValueContract
  | none => ⟨none, none, .one⟩
  | some v => ⟨v.schemaRef, v.semanticType, v.cardinality.getD .one⟩

def Effects.normalize : Option Effects → Composition.Effects
  | none => defaultEffects
  | some v => ⟨v.emits.getD defaultEffects.emits, v.mergeStrategy.getD defaultEffects.mergeStrategy,
      v.exclusiveEffects.getD defaultEffects.exclusiveEffects⟩

def Custody.normalize : Option Custody → Composition.Custody
  | none => defaultCustody
  | some v => ⟨v.direction.getD defaultCustody.direction, v.accounts.getD defaultCustody.accounts,
      v.exclusiveAccounts.getD defaultCustody.exclusiveAccounts⟩

def Control.normalize : Option Control → Composition.Control
  | none => defaultControl
  | some v => ⟨v.terminal.getD defaultControl.terminal,
      v.mayShortCircuit.getD defaultControl.mayShortCircuit,
      v.failureMode.getD defaultControl.failureMode⟩

def Determinism.normalize : Option Determinism → Composition.Determinism
  | none => defaultDeterminism
  | some v => ⟨v.required.getD defaultDeterminism.required,
      v.contextReads.getD defaultDeterminism.contextReads,
      v.externalReads.getD defaultDeterminism.externalReads⟩

def Adapters.normalize : Option Adapters → Composition.Adapters
  | none => defaultAdapters
  | some v => ⟨v.accepted.getD defaultAdapters.accepted, v.implicit.getD defaultAdapters.implicit⟩

def Verification.normalize : Option Verification → Composition.Verification
  | none => defaultVerification
  | some v => ⟨v.intermediateOutputCommitted.getD defaultVerification.intermediateOutputCommitted,
      v.evidenceContractRef⟩

end Authored

def normalizeContract (c : Authored) : Contract where
  version := c.version.getD contractVersion
  input := Authored.ValueContract.normalize c.input
  output := Authored.ValueContract.normalize c.output
  roles := c.roles.getD []
  modes := c.modes.getD [.sequential]
  effects := Authored.Effects.normalize c.effects
  custody := Authored.Custody.normalize c.custody
  control := Authored.Control.normalize c.control
  determinism := Authored.Determinism.normalize c.determinism
  adapters := Authored.Adapters.normalize c.adapters
  verification := Authored.Verification.normalize c.verification
  executionSafety := c.executionSafety

/-! ## validation -/

/-- the side of a contract that a value is on -/
inductive ValueField
  | input
  | output
  deriving DecidableEq

inductive ContractViolation
  | invalidCompositionContractVersion
  | missingExecutionSafety
  | invalidExecutionSafety
  | missingCompositionValueContract (field : ValueField)
  | malformedSchemaReference (field : ValueField)
  | missingCompositionSemanticType (field : ValueField)
  | unsupportedCompositionCardinality (field : ValueField)
  | unsupportedEffectMergeStrategy
  | unsupportedFailureMode
  | unsupportedCustodyDirection
  | unsupportedContractAdapters
  deriving DecidableEq

def checkValueContract (field : ValueField) : Option Authored.ValueContract →
    List ContractViolation
  | none => [.missingCompositionValueContract field]
  | some v =>
    (if v.schemaRef.isNone then [.malformedSchemaReference field] else [])
    ++ (if v.semanticType.isNone then [.missingCompositionSemanticType field] else [])
    ++ (if v.cardinality.getD .one ∉ supportedCardinalities then
        [.unsupportedCompositionCardinality field] else [])

open ContractViolation in
/-- `validate-composition-contract` -/
def validateContract (c : Authored) : List ContractViolation :=
  (if c.version ≠ some contractVersion then [invalidCompositionContractVersion] else [])
  ++ (match c.executionSafety with
    | none => [missingExecutionSafety]
    | some s => if s ∉ supportedExecutionSafeties then [invalidExecutionSafety] else [])
  ++ checkValueContract .input c.input
  ++ checkValueContract .output c.output
  ++ (match c.effects with
    | none => []
    | some e => if e.mergeStrategy.getD .accumulate ∉ supportedMergeStrategies then
        [unsupportedEffectMergeStrategy] else [])
  ++ (match c.control with
    | none => []
    | some k => if k.failureMode.getD .abort ∉ supportedFailureModes then
        [unsupportedFailureMode] else [])
  ++ (match c.custody with
    | none => []
    | some k => if k.direction.getD .either ∉ supportedDirections then
        [unsupportedCustodyDirection] else [])
  ++ (match c.adapters with
    | none => []
    | some a => if a.accepted.getD [] ≠ [] ∨ a.implicit = some true then
        [unsupportedContractAdapters] else [])

/-! ## what a valid contract supports -/

theorem found_nothing {α : Type} {p : Prop} [Decidable p] {v : α} :
    (if p then [v] else []) = [] ↔ ¬ p := by
  by_cases h : p <;> simp [h]

variable {c : Authored}

theorem mergeStrategy_supported (h : validateContract c = []) :
    (normalizeContract c).effects.mergeStrategy ∈ supportedMergeStrategies := by
  simp only [validateContract, List.append_eq_nil_iff] at h
  obtain ⟨⟨⟨⟨-, heffects⟩, -⟩, -⟩, -⟩ := h
  show (Authored.Effects.normalize c.effects).mergeStrategy ∈ supportedMergeStrategies
  cases he : c.effects with
  | none => decide
  | some e =>
    rw [he] at heffects
    exact not_not.mp (found_nothing.mp heffects)

theorem failureMode_abort (h : validateContract c = []) :
    (normalizeContract c).control.failureMode = .abort := by
  simp only [validateContract, List.append_eq_nil_iff] at h
  obtain ⟨⟨⟨-, hcontrol⟩, -⟩, -⟩ := h
  show (Authored.Control.normalize c.control).failureMode = .abort
  cases he : c.control with
  | none => rfl
  | some k =>
    rw [he] at hcontrol
    exact List.mem_singleton.mp (not_not.mp (found_nothing.mp hcontrol))

/-! ## evidence contracts -/

inductive EvidenceKind
  | evidenceContract
  | other (name : Keyword)
  deriving DecidableEq

/-- an entry of the registry; a field is `none` where it has no well-formed value -/
structure EvidenceContract where
  id : Option Keyword
  kind : Option EvidenceKind
  root : Option String
  deriving DecidableEq

inductive EvidenceViolation
  | unresolvedEvidenceContract
  | malformedEvidenceContractEntry
  | evidenceContractWrongKind (kind : EvidenceKind)
  deriving DecidableEq

/-- `validate-entry` -/
def EvidenceContract.valid (e : EvidenceContract) : Bool :=
  e.id.isSome && e.kind.isSome && e.root.isSome

/-- the committed identity: the name and the root together -/
structure CommittedEvidence where
  id : Keyword
  root : Option String
  deriving DecidableEq

def committedIdentity (ref : Keyword) (entry : EvidenceContract) : CommittedEvidence :=
  ⟨ref, entry.root⟩

def resolveRef (registry : List (Keyword × EvidenceContract)) (ref : Keyword) :
    Except EvidenceViolation EvidenceContract :=
  match find registry ref with
  | none => .error .unresolvedEvidenceContract
  | some entry =>
    if entry.valid then
      match entry.kind with
      | some (.other name) => .error (.evidenceContractWrongKind (.other name))
      | _ => .ok entry
    else .error .malformedEvidenceContractEntry

/-! ## obligations -/

inductive ObligationKind
  | effect
  | invariant
  | evidence
  deriving DecidableEq

/-- where an obligation applies; a field is `none` where it is absent -/
structure Scope where
  subject : Option Keyword
  phase : Option Keyword
  nodeId : Option Keyword
  deriving DecidableEq

/-- the scopes a definition accepts -/
structure ScopeContract where
  subjects : List Keyword
  phases : List Keyword
  nodeIdRequired : Bool
  deriving DecidableEq

/-- the fields a constraint may have, and those it must have -/
structure ConstraintContract where
  fields : List Keyword
  required : List Keyword
  deriving DecidableEq

/-- a definition of the registry; a field is `none` where it has no well-formed value -/
structure Definition where
  id : Option Keyword
  kind : Option ObligationKind
  root : Option String
  inputContractRoot : Option String
  satisfactionContractRoot : Option String
  scopeContract : Option ScopeContract
  constraintContract : Option ConstraintContract
  deriving DecidableEq

/-- an obligation as a combination states it -/
structure Obligation (σ : Type) where
  kind : Option ObligationKind
  ref : Option Keyword
  scope : Option Scope
  constraint : Option (List (Keyword × σ))
  deriving DecidableEq

/-- an obligation as a plan commits it -/
structure ResolvedObligation (σ : Type) where
  id : Option Keyword
  root : Option String
  inputContractRoot : Option String
  satisfactionContractRoot : Option String
  kind : Option ObligationKind
  scope : Option Scope
  constraint : Option (List (Keyword × σ))
  deriving DecidableEq

inductive ObligationViolation
  | invalidObligation
  | unresolvedObligation
  | malformedObligationDefinition
  | obligationWrongKind
  | invalidObligationScopeOrConstraint
  deriving DecidableEq

section
variable {σ : Type}

/-- `validate-obligation` -/
def Obligation.valid (o : Obligation σ) : Bool :=
  o.kind.isSome && o.ref.isSome && o.scope.isSome

/-- `validate-definition` -/
def Definition.valid (d : Definition) : Bool :=
  d.id.isSome && d.kind.isSome && d.root.isSome && d.inputContractRoot.isSome
    && d.satisfactionContractRoot.isSome && d.scopeContract.isSome

/-- `validate-scope` finds nothing -/
def scopeAdmissible (scope : Scope) (contract : ScopeContract) : Bool :=
  (match scope.subject with
    | none => false
    | some s => decide (s ∈ contract.subjects))
  && (match scope.phase with
    | none => true
    | some p => decide (p ∈ contract.phases))
  && (!contract.nodeIdRequired || scope.nodeId.isSome)

/-- `validate-constraint` finds nothing; the fields that are required are compared with those that
are there the way of the source, which refuses fields beyond them -/
def constraintAdmissible (constraint : Option (List (Keyword × σ)))
    (contract : Option ConstraintContract) : Bool :=
  match constraint, contract with
  | some c, some k =>
    (k.fields.isEmpty || c.all fun e => decide (e.1 ∈ k.fields))
    && (k.required.isEmpty || c.all fun e => decide (e.1 ∈ k.required))
  | _, _ => true

/-- an obligation against the definition it names -/
def resolveAgainst (o : Obligation σ) (entry : Definition) :
    Except ObligationViolation (ResolvedObligation σ) :=
  if !entry.valid then .error .malformedObligationDefinition
  else if o.kind ≠ entry.kind then .error .obligationWrongKind
  else
    match o.scope, entry.scopeContract with
    | some scope, some contract =>
      if scopeAdmissible scope contract && constraintAdmissible o.constraint entry.constraintContract
      then .ok
        { id := entry.id
          root := entry.root
          inputContractRoot := entry.inputContractRoot
          satisfactionContractRoot := entry.satisfactionContractRoot
          kind := o.kind
          scope := o.scope
          constraint := o.constraint }
      else .error .invalidObligationScopeOrConstraint
    | _, _ => .error .invalidObligationScopeOrConstraint

def resolveObligation (registry : List (Keyword × Definition)) (o : Obligation σ) :
    Except ObligationViolation (ResolvedObligation σ) :=
  if !o.valid then .error .invalidObligation
  else
    match o.ref.bind (find registry) with
    | none => .error .unresolvedObligation
    | some entry => resolveAgainst o entry

end

/-! ## a part of a registry -/

section
variable {κ ν : Type} [DecidableEq κ]

def selectKeys (m : List (κ × ν)) (keys : List κ) : List (κ × ν) := m.filter fun e => e.1 ∈ keys

theorem find_selectKeys (m : List (κ × ν)) {keys : List κ} {k : κ} (h : k ∈ keys) :
    find (selectKeys m keys) k = find m k := by
  induction m with
  | nil => rfl
  | cons e m ih =>
    unfold selectKeys at ih ⊢
    rw [List.filter_cons, find_cons]
    by_cases he : e.1 = k
    · rw [if_pos (decide_eq_true (he ▸ h)), find_cons, if_pos he, if_pos he]
    · rw [if_neg he, ← ih]
      split
      · rw [find_cons, if_neg he]
      · rfl

theorem selectKeys_selectKeys (m : List (κ × ν)) (keys : List κ) :
    selectKeys (selectKeys m keys) keys = selectKeys m keys := by
  unfold selectKeys
  rw [List.filter_filter]
  simp

end

section
variable {σ : Type}

theorem resolveRef_selected (registry : List (Keyword × EvidenceContract)) (ref : Keyword) :
    resolveRef (selectKeys registry [ref]) ref = resolveRef registry ref := by
  unfold resolveRef
  rw [find_selectKeys registry (List.mem_singleton_self ref)]

/-- **An obligation is resolved in the same way in a part of the registry that has its definition.** -/
theorem resolveObligation_selected (registry : List (Keyword × Definition)) {refs : List Keyword}
    (o : Obligation σ) (h : ∀ ref, o.ref = some ref → ref ∈ refs) :
    resolveObligation (selectKeys registry refs) o = resolveObligation registry o := by
  unfold resolveObligation
  cases hr : o.ref with
  | none => rfl
  | some ref => rw [Option.bind_some, Option.bind_some, find_selectKeys registry (h ref hr)]

end

end PRF.Composition
