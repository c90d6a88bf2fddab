import ProtocolRobustness.Resubmission.Transition

/-!
# Ordering records

`transaction/ordering.clj`: the evidence of one committed transition, and the check of a chain of
such records.

* `Ordering`              a record; `none` is a key that is absent, or `nil`;
* `transactionOrdering`   a record from its inputs, with its derived identity and its own hash;
* `verifyOrdering`        the reason a record is not valid, if there is one;
* `verifyOrderingChain`   the errors of a list of records in commit order;
* `Canonical`             what the hash is promised to do;
* `verifyOrderingChain_concat`   a record at the end of a chain is checked against the last one.
-/

set_option linter.unusedSectionVars false

namespace PRF.Resubmission

/-! ## records -/

/-- the keys of a record that a check can name -/
inductive OrderingField
  | schema
  | action
  | scope
  | conflictKey
  | commitIndex
  | previousTransactionHash
  | stateBeforeRoot
  | stateAfterRoot
  | effectsRoot
  | inputRoot
  | changeIdentity
  | applicationReceiptRoot
  | realizationRoot
deriving DecidableEq

/-- a `transaction-ordering` record; the conflict key is `[:resubmission-family id]` -/
structure Ordering (ι : Type*) where
  schema : Option String
  action : Option Action
  scope : Option String
  conflictKey : Option ι
  commitIndex : Option ℤ
  previousTransactionHash : Option ι
  stateBeforeRoot : Option ι
  stateAfterRoot : Option ι
  effectsRoot : Option ι
  expected : Option (Snapshot ι)
  observed : Option (Snapshot ι)
  inputRoot : Option ι
  changeIdentity : Option ι
  applicationReceiptRoot : Option ι
  realizationRoot : Option ι
  hash : Option ι
deriving DecidableEq

/-- `change-identity-basis` -/
structure ChangeBasis (ι : Type*) where
  scope : Option String
  conflictKey : Option ι
  action : Option Action
  inputRoot : Option ι
deriving DecidableEq

/-- the domain tags of the three schemas -/
inductive OrderingDomain
  | v1
  | v2
  | v3
deriving DecidableEq

/-- the canonical hash in the domains of ordering records, and `valid-sha256-ref?` -/
structure OrderingRoots (ι : Type*) extends Roots ι where
  orderingRoot : OrderingDomain → Ordering ι → ι
  changeIdentityRoot : ChangeBasis ι → ι
  validSha256Ref : ι → Bool

inductive OrderingReason
  | missingRequiredFields (missing : List OrderingField)
  | orderingSchemaMismatch
  | malformedRootReference (fields : List OrderingField)
  | malformedOrderingField (fields : List OrderingField)
  | changeIdentityMismatch
  | orderingHashMismatch
deriving DecidableEq

def orderingSchema : String := "transaction-ordering.v1"
def orderingV2Schema : String := "transaction-ordering.v2"
def orderingV3Schema : String := "transaction-ordering.v3"

section
variable {ι : Type*}

namespace Ordering
variable (o : Ordering ι)

/-- `ordering-schema-of` -/
def schemaOf : String := o.schema.getD orderingSchema

/-- `unsigned-ordering-projection`, of every version -/
def unsigned : Ordering ι := { o with hash := none }

/-- `ordering-domain-for` -/
def domain : OrderingDomain :=
  if o.schemaOf = orderingV3Schema then .v3
  else if o.schemaOf = orderingV2Schema then .v2
  else .v1

def changeIdentityBasis : ChangeBasis ι := ⟨o.scope, o.conflictKey, o.action, o.inputRoot⟩

/-- `(some? (get ordering field))` -/
def present : OrderingField → Bool
  | .schema => o.schema.isSome
  | .action => o.action.isSome
  | .scope => o.scope.isSome
  | .conflictKey => o.conflictKey.isSome
  | .commitIndex => o.commitIndex.isSome
  | .previousTransactionHash => o.previousTransactionHash.isSome
  | .stateBeforeRoot => o.stateBeforeRoot.isSome
  | .stateAfterRoot => o.stateAfterRoot.isSome
  | .effectsRoot => o.effectsRoot.isSome
  | .inputRoot => o.inputRoot.isSome
  | .changeIdentity => o.changeIdentity.isSome
  | .applicationReceiptRoot => o.applicationReceiptRoot.isSome
  | .realizationRoot => o.realizationRoot.isSome

/-- `authoritative-fields`, each with its value -/
def authoritativeFields : List (OrderingField × Option ι) :=
  [(.stateBeforeRoot, o.stateBeforeRoot),
   (.stateAfterRoot, o.stateAfterRoot),
   (.effectsRoot, o.effectsRoot),
   (.inputRoot, o.inputRoot),
   (.changeIdentity, o.changeIdentity),
   (.applicationReceiptRoot, o.applicationReceiptRoot),
   (.realizationRoot, o.realizationRoot),
   (.previousTransactionHash, o.previousTransactionHash)]

end Ordering

def baseRequired : List OrderingField :=
  [.schema, .action, .scope, .conflictKey, .commitIndex, .stateBeforeRoot, .stateAfterRoot,
   .effectsRoot]

def v2Extra : List OrderingField := [.inputRoot, .changeIdentity]
def v3Extra : List OrderingField := v2Extra ++ [.applicationReceiptRoot, .realizationRoot]

def requiredFields (schema : String) : List OrderingField :=
  if schema = orderingV3Schema then baseRequired ++ v3Extra
  else if schema = orderingV2Schema then baseRequired ++ v2Extra
  else baseRequired

variable (O : OrderingRoots ι)

def orderingHash (o : Ordering ι) : ι := O.orderingRoot o.domain o.unsigned

def changeIdentityHash (o : Ordering ι) : ι := O.changeIdentityRoot o.changeIdentityBasis

/-- the record before its own hash; in the later schemas the change identity is derived -/
def versionedOrdering (inputs : Ordering ι) : Ordering ι :=
  let base := { inputs with schema := some inputs.schemaOf }
  if inputs.schemaOf = orderingV2Schema ∨ inputs.schemaOf = orderingV3Schema then
    { base with changeIdentity := some (changeIdentityHash O base) }
  else base

def transactionOrdering (inputs : Ordering ι) : Ordering ι :=
  let versioned := versionedOrdering O inputs
  { versioned with hash := some (orderingHash O versioned) }

/-! ## verification -/

def malformedRootFields (o : Ordering ι) : List OrderingField :=
  o.authoritativeFields.filterMap fun (field, v) =>
    if v.any fun ref => O.validSha256Ref ref = false then some field else none

/-- `malformed-value-fields`; the other values have the right shape by their types -/
def malformedValueFields (o : Ordering ι) : List OrderingField :=
  if o.commitIndex.any fun n => n < 0 then [.commitIndex] else []

variable [DecidableEq ι]

def verifyOrdering (o : Ordering ι) : Option OrderingReason :=
  let missing := (requiredFields o.schemaOf).filter fun field => o.present field = false
  let badRoots := malformedRootFields O o
  let badValues := malformedValueFields o
  if missing ≠ [] then some (.missingRequiredFields missing)
  else if o.schemaOf ∉ [orderingSchema, orderingV2Schema, orderingV3Schema] then
    some .orderingSchemaMismatch
  else if badRoots ≠ [] then some (.malformedRootReference badRoots)
  else if badValues ≠ [] then some (.malformedOrderingField badValues)
  else if (o.schemaOf = orderingV2Schema ∨ o.schemaOf = orderingV3Schema)
      ∧ o.changeIdentity ≠ some (changeIdentityHash O o) then
    some .changeIdentityMismatch
  else if o.hash ≠ some (orderingHash O o) then some .orderingHashMismatch
  else none

/-! ## chains -/

inductive ChainError
  | invalid (reason : OrderingReason)
  | originPreviousHash
  | originStateRoot
  | previousTransactionHash
  | stateBeforeRoot
  | commitIndex
  | conflictKey
deriving DecidableEq

/-- the errors of the first record of a chain -/
def originErrors (originStateRoot : Option ι) (o : Ordering ι) : List ChainError :=
  (if o.previousTransactionHash.isSome then [.originPreviousHash] else [])
    ++ (if originStateRoot.any fun root => o.stateBeforeRoot ≠ some root then [.originStateRoot]
        else [])

/-- the errors of a record against the one before it -/
def linkErrors (prior o : Ordering ι) : List ChainError :=
  (if prior.hash ≠ o.previousTransactionHash then [.previousTransactionHash] else [])
    ++ (if prior.stateAfterRoot ≠ o.stateBeforeRoot then [.stateBeforeRoot] else [])
    ++ (if ¬ prior.commitIndex.getD 0 < o.commitIndex.getD 0 then [.commitIndex] else [])
    ++ (if o.conflictKey ≠ prior.conflictKey then [.conflictKey] else [])

/-- the errors of one record; a record after an invalid one is not compared with it -/
def recordErrors (originStateRoot : Option ι) (prior : Option (Ordering ι)) (o : Ordering ι) :
    List ChainError :=
  (match verifyOrdering O o with
    | some reason => [.invalid reason]
    | none => [])
  ++ match prior with
    | none => originErrors originStateRoot o
    | some p =>
      if verifyOrdering O p = none ∧ verifyOrdering O o = none then linkErrors p o else []

/-- the loop of `verify-ordering-chain`, with the record before -/
def chainErrors (originStateRoot : Option ι) :
    Option (Ordering ι) → List (Ordering ι) → List ChainError
  | _, [] => []
  | prior, o :: rest => recordErrors O originStateRoot prior o ++ chainErrors originStateRoot
      (some o) rest

/-- `verify-ordering-chain`: a chain is valid when it has no errors -/
def verifyOrderingChain (orderings : List (Ordering ι)) (originStateRoot : Option ι) :
    List ChainError :=
  chainErrors O originStateRoot none orderings

variable {O}

theorem chainErrors_append (root : Option ι) (prior : Option (Ordering ι))
    (l l' : List (Ordering ι)) :
    chainErrors O root prior (l ++ l')
      = chainErrors O root prior l ++ chainErrors O root (l.getLast?.or prior) l' := by
  induction l generalizing prior with
  | nil => rfl
  | cons o l ih =>
    have hlast : l.getLast?.or (some o) = ((o :: l).getLast?).or prior := by
      rw [List.getLast?_cons]
      cases l.getLast? <;> rfl
    rw [List.cons_append, chainErrors, chainErrors, ih, hlast, List.append_assoc]

/-- **A record at the end of a chain is checked against the last one.** -/
theorem verifyOrderingChain_concat (root : Option ι) (l : List (Ordering ι)) (o : Ordering ι) :
    verifyOrderingChain O (l ++ [o]) root
      = verifyOrderingChain O l root ++ recordErrors O root l.getLast? o := by
  rw [verifyOrderingChain, chainErrors_append, Option.or_none]
  show _ ++ (recordErrors O root l.getLast? o ++ []) = _
  rw [List.append_nil]
  rfl

/-! ## records that are built -/

/-- what the canonical hash is promised to do: different unsigned records have different hashes,
and every hash is a reference of the right shape -/
structure Canonical (O : OrderingRoots ι) : Prop where
  injective : ∀ a b : Ordering ι, orderingHash O a = orderingHash O b → a.unsigned = b.unsigned
  orderingRef : ∀ d o, O.validSha256Ref (O.orderingRoot d o) = true
  changeIdentityRef : ∀ b, O.validSha256Ref (O.changeIdentityRoot b) = true
  inputRef : ∀ b, O.validSha256Ref (O.inputRoot b) = true
  stateRef : ∀ p, O.validSha256Ref (O.stateRoot p) = true
  effectsRef : ∀ e, O.validSha256Ref (O.effectsRoot e) = true

/-- the inputs of a record of the second schema, complete but for what is derived -/
structure Complete (O : OrderingRoots ι) (o : Ordering ι) : Prop where
  schema : o.schema = some orderingV2Schema
  action : o.action.isSome
  scope : o.scope.isSome
  conflictKey : o.conflictKey.isSome
  commitIndex : ∃ n : ℕ, o.commitIndex = some (n : ℤ)
  stateBeforeRoot : ∃ r, o.stateBeforeRoot = some r ∧ O.validSha256Ref r = true
  stateAfterRoot : ∃ r, o.stateAfterRoot = some r ∧ O.validSha256Ref r = true
  effectsRoot : ∃ r, o.effectsRoot = some r ∧ O.validSha256Ref r = true
  inputRoot : ∃ r, o.inputRoot = some r ∧ O.validSha256Ref r = true
  applicationReceiptRoot : o.applicationReceiptRoot = none
  realizationRoot : o.realizationRoot = none
  previous : ∀ r, o.previousTransactionHash = some r → O.validSha256Ref r = true

theorem versionedOrdering_v2 {o : Ordering ι} (h : o.schema = some orderingV2Schema) :
    versionedOrdering O o = { o with changeIdentity := some (changeIdentityHash O o) } := by
  have hschema : o.schemaOf = orderingV2Schema := by rw [Ordering.schemaOf, h]; rfl
  unfold versionedOrdering
  dsimp only
  rw [hschema, if_pos (Or.inl rfl), ← h]

theorem requiredFields_v2 : requiredFields orderingV2Schema = baseRequired ++ v2Extra := by
  rw [requiredFields, if_neg (by decide), if_pos rfl]

/-- the roots of a record are references where each one that is there is -/
theorem malformedRootFields_eq_nil {o : Ordering ι}
    (h : ∀ f ∈ o.authoritativeFields, ∀ r, f.2 = some r → O.validSha256Ref r = true) :
    malformedRootFields O o = [] := by
  rw [malformedRootFields, List.filterMap_eq_nil_iff]
  rintro ⟨field, v⟩ hf
  have hv := h _ hf
  cases v with
  | none => rfl
  | some r =>
    have hr := hv r rfl
    simp [hr]

/-- **A record that is built from complete inputs verifies.** -/
theorem verifyOrdering_built (hO : Canonical O) {o : Ordering ι} (h : Complete O o) :
    verifyOrdering O (transactionOrdering O o) = none := by
  obtain ⟨n, hn⟩ := h.commitIndex
  obtain ⟨before, hbefore, hbeforeRef⟩ := h.stateBeforeRoot
  obtain ⟨after, hafter, hafterRef⟩ := h.stateAfterRoot
  obtain ⟨effects, heffects, heffectsRef⟩ := h.effectsRoot
  obtain ⟨input, hinput, hinputRef⟩ := h.inputRoot
  have hversioned := versionedOrdering_v2 (O := O) h.schema
  set built := transactionOrdering O o with hbuilt
  have heq : built = { o with
      changeIdentity := some (changeIdentityHash O o)
      hash := some (orderingHash O (versionedOrdering O o)) } := by
    rw [hbuilt, transactionOrdering, hversioned]
  have hschema : built.schemaOf = orderingV2Schema := by
    rw [heq]
    show o.schema.getD orderingSchema = orderingV2Schema
    rw [h.schema]
    rfl
  have hmissing : ((requiredFields built.schemaOf).filter fun field =>
      built.present field = false) = [] := by
    rw [hschema, requiredFields_v2, List.filter_eq_nil_iff]
    have hall : ∀ field ∈ baseRequired ++ v2Extra, built.present field = true := by
      rw [heq]
      simp [baseRequired, v2Extra, Ordering.present, h.schema, h.action, h.scope, h.conflictKey,
        hn, hbefore, hafter, heffects, hinput]
    intro field hfield
    simp [hall field hfield]
  have hroots : malformedRootFields O built = [] := by
    apply malformedRootFields_eq_nil
    rw [heq]
    intro f hf r hr
    simp only [Ordering.authoritativeFields, List.mem_cons, List.not_mem_nil, or_false] at hf
    rcases hf with rfl | rfl | rfl | rfl | rfl | rfl | rfl | rfl
    · obtain rfl : before = r := Option.some.inj (hbefore.symm.trans hr)
      exact hbeforeRef
    · obtain rfl : after = r := Option.some.inj (hafter.symm.trans hr)
      exact hafterRef
    · obtain rfl : effects = r := Option.some.inj (heffects.symm.trans hr)
      exact heffectsRef
    · obtain rfl : input = r := Option.some.inj (hinput.symm.trans hr)
      exact hinputRef
    · obtain rfl := Option.some.inj hr
      exact hO.changeIdentityRef _
    · exact absurd (h.applicationReceiptRoot.symm.trans hr) nofun
    · exact absurd (h.realizationRoot.symm.trans hr) nofun
    · exact h.previous r hr
  have hvalues : malformedValueFields built = [] := by
    have hcommit : built.commitIndex = some (n : ℤ) := by rw [heq]; exact hn
    rw [malformedValueFields, hcommit]
    exact if_neg (by simp)
  have hidentity : built.changeIdentity = some (changeIdentityHash O built) := by
    rw [heq]
    rfl
  have hhash : built.hash = some (orderingHash O built) := by
    rw [heq, hversioned]
    rfl
  unfold verifyOrdering
  dsimp only
  rw [if_neg (not_not.mpr hmissing), if_neg (by rw [hschema]; decide),
    if_neg (not_not.mpr hroots), if_neg (not_not.mpr hvalues),
    if_neg fun hbad => hbad.2 hidentity, if_neg (not_not.mpr hhash)]

end

end PRF.Resubmission
