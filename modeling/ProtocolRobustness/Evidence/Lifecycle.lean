import ProtocolRobustness.Library.Table

/-!
# The lifecycle of attestations

`evidence/attestation_lifecycle.clj`.  A registry keeps one record an attestation; three writers
create and merge records without a check, and a traversal follows their links both ways.

* `Registry`            lifecycle records under their attestation ids;
* `activateAttestation`, `supersedeAttestation`, `revokeAttestation`   the writers;
* `attestationState`    the state that is reported, with or without a revocation registry;
* `supersessionChain`   the traversal.  It calls itself on every link without an end of its own, so
                        here it has fuel: `none` when the fuel runs out.
-/

namespace PRF.Evidence
open Table

inductive State
  | active
  | superseded
  | revoked
deriving DecidableEq

section
variable {ι : Type*} [DecidableEq ι]

/-- `nil` is a key the record does not have -/
structure Record (ι : Type*) where
  state : State
  supersededBy : Option ι
  reason : Option String
  updatedAt : String
  supersedes : Option (List ι)
deriving DecidableEq

abbrev Registry (ι : Type*) := List (ι × Record ι)

/-! ## writers -/

/-- the record is put in the place of any other -/
def activateAttestation (reg : Registry ι) (id : ι) (supersedes : Option (List ι))
    (reason : Option String) (now : String) : Registry ι :=
  put reg id ⟨.active, none, some (reason.getD "Attestation created"), now, supersedes⟩

/-- what the new record lists, with the old id at the end unless it is there -/
def listing (existing : Option (List ι)) (oldId : ι) : List ι :=
  let existingSupersedes := existing.getD []
  if oldId ∈ existingSupersedes then existingSupersedes else existingSupersedes ++ [oldId]

/-- `(merge existing old-record)` -/
def oldRecord (existing : Option (Record ι)) (newId : ι) (reason : Option String) (now : String) :
    Record ι :=
  ⟨.superseded, some newId, reason, now, existing.bind (·.supersedes)⟩

/-- `(merge existing {:state :active ...})` -/
def newRecord (existing : Option (Record ι)) (oldId : ι) (reason : Option String) (now : String) :
    Record ι :=
  ⟨.active, existing.bind (·.supersededBy), reason, now,
    some (listing (existing.bind (·.supersedes)) oldId)⟩

/-- the old record is written first, and the new one is read after it -/
def supersedeAttestation (reg : Registry ι) (oldId newId : ι) (reason : Option String)
    (now : String) : Registry ι :=
  let reg := put reg oldId (oldRecord (find reg oldId) newId reason now)
  put reg newId (newRecord (find reg newId) oldId reason now)

def revokeAttestation (reg : Registry ι) (id : ι) (reason : Option String) (now : String) :
    Registry ι :=
  let existing := find reg id
  put reg id ⟨.revoked, existing.bind (·.supersededBy), reason, now, existing.bind (·.supersedes)⟩

/-! ## queries -/

structure Reported (ι : Type*) where
  state : State
  lifecycle : Option (Record ι)
  revoked : Bool

def attestationState (reg : Registry ι) (id : ι) (revocationResolver : Option (ι → Bool))
    (defaultState : State) : Reported ι :=
  let lifecycle := find reg id
  let revokedByRegistry := (revocationResolver.map (· id)).getD false
  let lifecycleState := (lifecycle.map (·.state)).getD defaultState
  { state := if revokedByRegistry then .revoked else lifecycleState
    lifecycle := lifecycle
    revoked := revokedByRegistry || decide (lifecycleState = .revoked) }

/-- `(:state record :active)` -/
def stateOf (reg : Registry ι) (id : ι) : State := ((find reg id).map (·.state)).getD .active

/-- the link to what supersedes an id -/
def supersededBy (reg : Registry ι) (id : ι) : Option ι := (find reg id).bind (·.supersededBy)

def findSupersededBy (reg : Registry ι) (id : ι) : List ι :=
  ((find reg id).bind (·.supersedes)).getD []

/-! ## the chain -/

structure ChainEntry (ι : Type*) where
  attestationId : ι
  state : State
  reason : Option String
deriving DecidableEq

def tracePredecessors (reg : Registry ι) : ℕ → ι → Option (List (ChainEntry ι))
  | 0, _ => none
  | fuel + 1, id => do
    let traces ← (findSupersededBy reg id).mapM fun prevId => do
      let rest ← tracePredecessors reg fuel prevId
      pure (⟨prevId, stateOf reg prevId, (find reg id).bind (·.reason)⟩ :: rest)
    pure traces.flatten

def traceSuccessors (reg : Registry ι) : ℕ → ι → Option (List (ChainEntry ι))
  | 0, _ => none
  | fuel + 1, id =>
    match supersededBy reg id with
    | none => some []
    | some nextId => do
      let rest ← traceSuccessors reg fuel nextId
      pure (⟨nextId, stateOf reg nextId, (find reg id).bind (·.reason)⟩ :: rest)

structure Chain (ι : Type*) where
  id : ι
  state : State
  predecessors : List (ChainEntry ι)
  successors : List (ChainEntry ι)
deriving DecidableEq

def supersessionChain (reg : Registry ι) (fuel : ℕ) (id : ι) : Option (Chain ι) := do
  let predecessors ← tracePredecessors reg fuel id
  let successors ← traceSuccessors reg fuel id
  pure ⟨id, stateOf reg id, predecessors, successors⟩

end

end PRF.Evidence
