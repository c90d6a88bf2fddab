import ProtocolRobustness.Library.Fallible
import ProtocolRobustness.Library.HashChain

/-!
# What a publication commits

`transaction/ordering.clj` for the records of the third schema, which `build-publication-ordering`
makes, and the heads and bindings of `pro_rata/publication.clj` and
`invocation_publication_binding.clj`.

* `Ordering`, `Head`, `Binding`    the three records, each with its own root;
* `verifyOrdering`, `verifyOrderingChain`   what is wrong with a record, and with records in order;
* `bindingEligible`                what a publication is checked for before any store is touched;
* `successorHead`                  the head that commits an ordering and its binding;
* `verifyOrderingChain_eq_nil`     a chain without errors.
-/

set_option linter.unusedSectionVars false

namespace PRF.Publication

/-! ## records -/

/-- a `transaction-ordering.v3` record without its own hash -/
structure OrderingBody (κ ι : Type*) where
  action : String
  scope : String
  conflictKey : κ
  commitIndex : ℤ
  previousTransactionHash : Option ι
  inputRoot : ι
  stateBeforeRoot : ι
  stateAfterRoot : ι
  effectsRoot : ι
  applicationReceiptRoot : ι
  realizationRoot : ι
  changeIdentity : ι
deriving DecidableEq

structure Ordering (κ ι : Type*) extends OrderingBody κ ι where
  hash : ι
deriving DecidableEq

/-- `change-identity-basis` -/
structure ChangeBasis (κ ι : Type*) where
  scope : String
  conflictKey : κ
  action : String
  inputRoot : ι
deriving DecidableEq

inductive HeadSchema
  | v1
  | v2
deriving DecidableEq

/-- a head without its own root; one of the first schema has no binding -/
structure HeadBody (ι : Type*) where
  schema : HeadSchema
  lastOrderingRoot : Option ι
  applicationBindingRoot : Option ι
  sequence : ℕ
  predecessorRoot : Option ι
deriving DecidableEq

structure Head (ι : Type*) extends HeadBody ι where
  headRoot : ι
deriving DecidableEq

structure BindingBody (ι : Type*) where
  applicationRoot : ι
  capabilityBindingRoot : ι
  executableDistributionRoot : ι
  publicationOrderingRoot : ι
deriving DecidableEq

structure Binding (ι : Type*) extends BindingBody ι where
  root : ι
deriving DecidableEq

/-- the canonical hash in the domains of these records, and `valid-sha256-ref?` -/
structure Roots (κ ι : Type*) where
  ordering : OrderingBody κ ι → ι
  changeIdentity : ChangeBasis κ ι → ι
  head : HeadBody ι → ι
  binding : BindingBody ι → ι
  partitionId : κ → ι
  validSha256Ref : ι → Bool

section
variable {κ ι : Type*} (R : Roots κ ι)

/-! ## orderings -/

def changeIdentityHash (o : OrderingBody κ ι) : ι :=
  R.changeIdentity ⟨o.scope, o.conflictKey, o.action, o.inputRoot⟩

/-- `transaction-ordering`; a change identity among the inputs is overwritten -/
def transactionOrdering (inputs : OrderingBody κ ι) : Ordering κ ι :=
  let versioned := { inputs with changeIdentity := changeIdentityHash R inputs }
  { versioned with hash := R.ordering versioned }

inductive OrderingReason
  | malformedRootReference
  | malformedOrderingField
  | changeIdentityMismatch
  | orderingHashMismatch
deriving DecidableEq

/-- the values of `authoritative-fields` -/
def Ordering.authoritativeRoots (o : Ordering κ ι) : List ι :=
  [o.stateBeforeRoot, o.stateAfterRoot, o.effectsRoot, o.inputRoot, o.changeIdentity,
   o.applicationReceiptRoot, o.realizationRoot] ++ o.previousTransactionHash.toList

variable [DecidableEq κ] [DecidableEq ι]

/-- the required fields and the shapes of the other values are in the type of a record -/
def verifyOrdering (o : Ordering κ ι) : Option OrderingReason :=
  if o.authoritativeRoots.all R.validSha256Ref = false then some .malformedRootReference
  else if o.commitIndex < 0 then some .malformedOrderingField
  else if o.changeIdentity ≠ changeIdentityHash R o.toOrderingBody then some .changeIdentityMismatch
  else if o.hash ≠ R.ordering o.toOrderingBody then some .orderingHashMismatch
  else none

inductive ChainError
  | invalid (reason : OrderingReason)
  | originPreviousHash
  | originStateRoot
  | previousTransactionHash
  | stateBeforeRoot
  | commitIndex
  | conflictKey
deriving DecidableEq

/-- the errors of the first record of a chain -/
def originErrors (originStateRoot : Option ι) (o : Ordering κ ι) : List ChainError :=
  (if o.previousTransactionHash.isSome then [ChainError.originPreviousHash] else [])
    ++ (if originStateRoot.any fun root => o.stateBeforeRoot ≠ root then
          [ChainError.originStateRoot] else [])

/-- the errors of a record against the one before it -/
def linkErrors (prior o : Ordering κ ι) : List ChainError :=
  (if some prior.hash ≠ o.previousTransactionHash then [ChainError.previousTransactionHash] else [])
    ++ (if prior.stateAfterRoot ≠ o.stateBeforeRoot then [ChainError.stateBeforeRoot] else [])
    ++ (if ¬ prior.commitIndex < o.commitIndex then [ChainError.commitIndex] else [])
    ++ (if o.conflictKey ≠ prior.conflictKey then [ChainError.conflictKey] else [])

/-- the errors of one record; a record after an invalid one is not compared with it -/
def recordErrors (originStateRoot : Option ι) (prior : Option (Ordering κ ι)) (o : Ordering κ ι) :
    List ChainError :=
  (verifyOrdering R o).toList.map .invalid
    ++ match prior with
      | none => originErrors originStateRoot o
      | some p =>
        if verifyOrdering R p = none ∧ verifyOrdering R o = none then linkErrors p o else []

/-- the loop of `verify-ordering-chain`, with the record before -/
def chainErrors (originStateRoot : Option ι) :
    Option (Ordering κ ι) → List (Ordering κ ι) → List ChainError
  | _, [] => []
  | prior, o :: rest =>
    recordErrors R originStateRoot prior o ++ chainErrors originStateRoot (some o) rest

/-- `verify-ordering-chain`: a chain is valid when it has no errors -/
def verifyOrderingChain (orderings : List (Ordering κ ι)) (originStateRoot : Option ι) :
    List ChainError :=
  chainErrors R originStateRoot none orderings

variable {R}

/-- what `verify-ordering-chain` wants of two records in a row -/
structure Follows (prior o : Ordering κ ι) : Prop where
  previous : o.previousTransactionHash = some prior.hash
  state : prior.stateAfterRoot = o.stateBeforeRoot
  index : prior.commitIndex < o.commitIndex
  key : o.conflictKey = prior.conflictKey

theorem Follows.linkErrors {prior o : Ordering κ ι} (h : Follows prior o) :
    linkErrors prior o = [] := by
  rw [Publication.linkErrors, if_neg (not_not.mpr h.previous.symm), if_neg (not_not.mpr h.state),
    if_neg (not_not.mpr h.index), if_neg (not_not.mpr h.key)]
  rfl

theorem chainErrors_eq_nil (root : Option ι) {prior : Ordering κ ι} {l : List (Ordering κ ι)}
    (hverified : ∀ o ∈ prior :: l, verifyOrdering R o = none)
    (hchain : List.IsChain Follows (prior :: l)) : chainErrors R root (some prior) l = [] := by
  induction l generalizing prior with
  | nil => rfl
  | cons o l ih =>
    obtain ⟨hfollows, hrest⟩ := List.isChain_cons_cons.mp hchain
    have hprior := hverified prior List.mem_cons_self
    have ho := hverified o (List.mem_cons_of_mem _ List.mem_cons_self)
    rw [chainErrors, ih (fun o' ho' => hverified o' (List.mem_cons_of_mem _ ho')) hrest,
      List.append_nil, recordErrors, ho]
    show [] ++ (if _ then _ else _) = []
    rw [if_pos ⟨hprior, rfl⟩, hfollows.linkErrors]
    rfl

/-- **Verified records that follow each other, the first after none, are a chain without errors.** -/
theorem verifyOrderingChain_eq_nil {l : List (Ordering κ ι)}
    (hverified : ∀ o ∈ l, verifyOrdering R o = none) (hchain : List.IsChain Follows l)
    (horigin : ∀ o ∈ l.head?, o.previousTransactionHash = none) :
    verifyOrderingChain R l none = [] := by
  cases l with
  | nil => rfl
  | cons o l =>
    have ho := hverified o List.mem_cons_self
    have hnone : o.previousTransactionHash = none := horigin o rfl
    rw [verifyOrderingChain, chainErrors, chainErrors_eq_nil none hverified hchain, List.append_nil,
      recordErrors, ho]
    show [] ++ originErrors none o = []
    rw [originErrors, hnone]
    rfl

/-! ## heads and bindings -/

variable (R)

/-- `initial-head` and `initial-application-head` -/
def initialHead (schema : HeadSchema) : Head ι :=
  let base : HeadBody ι := ⟨schema, none, none, 0, none⟩
  { base with headRoot := R.head base }

/-- `successor-head` and `application-successor-head` -/
def successorHead (schema : HeadSchema) (current : Head ι) (orderingRoot : ι)
    (bindingRoot : Option ι) : Head ι :=
  let base : HeadBody ι :=
    ⟨schema, some orderingRoot, bindingRoot, current.sequence + 1, some current.headRoot⟩
  { base with headRoot := R.head base }

/-- `binding-eligible?`: the root of the binding, its ordering, and the `closure` of the bodies that
the other conjuncts resolve -/
def bindingEligible {ε : Type*} (closure : Binding ι → Ordering κ ι → ε → Bool)
    (binding : Binding ι) (ordering : Ordering κ ι) (resolved : ε) : Bool :=
  binding.root = R.binding binding.toBindingBody
    && binding.publicationOrderingRoot = ordering.hash
    && (verifyOrdering R ordering).isNone
    && closure binding ordering resolved

variable {R}

structure Eligible (R : Roots κ ι) (binding : Binding ι) (ordering : Ordering κ ι) : Prop where
  root : binding.root = R.binding binding.toBindingBody
  committed : binding.publicationOrderingRoot = ordering.hash
  verified : verifyOrdering R ordering = none

theorem eligible_of_bindingEligible {ε : Type*} {closure : Binding ι → Ordering κ ι → ε → Bool}
    {binding : Binding ι} {ordering : Ordering κ ι} {resolved : ε}
    (h : bindingEligible R closure binding ordering resolved = true) :
    Eligible R binding ordering := by
  simp only [bindingEligible, Bool.and_eq_true, decide_eq_true_eq, Option.isNone_iff_eq_none] at h
  exact ⟨h.1.1.1, h.1.1.2, h.1.2⟩

end

end PRF.Publication
