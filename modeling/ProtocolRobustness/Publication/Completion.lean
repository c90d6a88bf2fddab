import ProtocolRobustness.Publication.DurableRuns
import ProtocolRobustness.Publication.LaneRuns
import Mathlib.Data.List.MinMax
import Mathlib.Tactic

/-!
# Finalizing an application

`execution/realization.clj`: what the workers of an execution report while it is open, and the
observation that is made of it; each operation is a compare-and-set loop, and one step here.
`pro_rata/finalization.clj` with `complete-after-authority!`: threads that take an execution through
its lane to the durable store and then deliver its observation, while workers and other publishers
go on.

* `Realization`            a realization;
* `recordFact`, `recordExecutorDispatch`, `recordQuiesced`   what is kept only while it is open;
* `effective`              what the phases say of the execution as a whole;
* `freeze`, `finalize`, `emit`   the three steps of its end;
* `Job`, `Thread`, `Completion`   what a thread finalizes, how far it is, and the whole system;
* `beginFinalize`, `advanceThread`   the steps of `finalize-application-bound!`;
* `beginReconcile`, `recover`   the start and the last case of `reconcile-local-projection!`;
* `Completion.move`        one move of one party.
-/

namespace PRF.Publication
open CompareAndSet PRF.Finalization Table

inductive RealizationLifecycle
  | opened
  | frozen
  | finalized
deriving DecidableEq

inductive PhaseReason
  | observerRequiresSerial
  | belowClaimantThreshold
  | other
deriving DecidableEq

/-- a fact about one phase; the keys of a fact that `effective` does not read are left out -/
structure Phase where
  executorParallelism : Option ℕ
  budgetLimited : Bool
  reason : Option PhaseReason
deriving DecidableEq

inductive Path
  | serial
  | parallel
deriving DecidableEq

inductive EffectiveReason
  | parallelBudgetLimited
  | parallel
  | serialBudgetLimited
  | serialObserver
  | serialThreshold
  | serialRequested
deriving DecidableEq

structure Effective where
  path : Path
  maxClaimantParallelism : ℕ
  parallelWorkObserved : Bool
  budgetLimited : Bool
  reason : EffectiveReason
deriving DecidableEq

/-- an observation; its root and its constants are left out -/
structure Observation (ι : Type*) where
  runtimeProfileRoot : ι
  effective : Effective
deriving DecidableEq

structure Realization (ι : Type*) where
  lifecycle : RealizationLifecycle
  phases : List Phase
  executorBackedPhases : ℕ
  successfullyQuiescedPhases : ℕ
  observation : Option (Observation ι)
  emitted : Bool
deriving DecidableEq

/-- the phases that were reported, with how many went to an executor and how many of those ended -/
def Realization.record {ι : Type*} (r : Realization ι) : List Phase × ℕ × ℕ :=
  (r.phases, r.executorBackedPhases, r.successfullyQuiescedPhases)

def realizationOpen {ι : Type*} : Realization ι := ⟨.opened, [], 0, 0, none, false⟩

def effective (phases : List Phase) : Effective :=
  let executorParallelism := phases.filterMap Phase.executorParallelism
  let maxParallelism := executorParallelism.foldl max 1
  let parallel := 1 < maxParallelism
  let budgetLimited := phases.any Phase.budgetLimited
  let reasons := phases.filterMap Phase.reason
  { path := if parallel then .parallel else .serial
    maxClaimantParallelism := maxParallelism
    parallelWorkObserved := parallel
    budgetLimited := budgetLimited
    reason :=
      if parallel ∧ budgetLimited then .parallelBudgetLimited
      else if parallel then .parallel
      else if budgetLimited then .serialBudgetLimited
      else if .observerRequiresSerial ∈ reasons then .serialObserver
      else if .belowClaimantThreshold ∈ reasons then .serialThreshold
      else .serialRequested }

section
variable {ι : Type*} (r : Realization ι)

/-- `record!` -/
def recordFact (fact : Phase) : Realization ι :=
  if r.lifecycle = .opened then { r with phases := r.phases ++ [fact] } else r

/-- the part of `record-executor-dispatch!` after the lane has admitted the phase -/
def recordExecutorDispatch (parallelism : ℕ) : Realization ι :=
  if r.lifecycle = .opened then
    { r with
      phases := r.phases ++ [⟨some parallelism, false, none⟩]
      executorBackedPhases := r.executorBackedPhases + 1 }
  else r

/-- the part of `record-quiesced!` after the lane -/
def recordQuiesced : Realization ι :=
  if r.lifecycle = .opened then
    { r with successfullyQuiescedPhases := r.successfullyQuiescedPhases + 1 }
  else r

/-- `freeze!`; `none` is an exception -/
def freeze : Option (Realization ι) :=
  if r.lifecycle = .opened then some { r with lifecycle := .frozen } else none

/-- `finalize!`, under the runtime profile that is bound -/
def finalize (runtimeProfileRoot : Option ι) : Option (Realization ι) :=
  if r.lifecycle ≠ .frozen then none
  else if r.executorBackedPhases ≠ r.successfullyQuiescedPhases then none
  else some { r with
    lifecycle := .finalized
    observation := runtimeProfileRoot.map fun root => ⟨root, effective r.phases⟩ }

/-- `emit!`: the realization, and what the sink is called with -/
def emit (sink : Bool) : Option (Realization ι × Option (Observation ι)) :=
  if r.lifecycle ≠ .finalized then none
  else if r.emitted then some (r, none)
  else
    match r.observation with
    | none => some (r, none)
    | some observation =>
      if sink then some ({ r with emitted := true }, some observation) else some (r, none)

end

/-! ## the system -/

/-- the arguments of `finalize-application-bound!`, with what is bound in its thread; the ticket id
is the one its lane will draw -/
structure Job (κ ι ε μ ν : Type) where
  realization : ν
  lane : μ
  ordering : Ordering κ ι
  binding : Binding ι
  resolved : ε
  runtimeProfileRoot : Option ι
  sink : Bool
  ticketId : ι

/-- the arguments of `reconcile-local-projection!` -/
structure Repair (κ ι ν : Type) where
  realization : ν
  conflictKey : κ
  expectedOrderingRoot : ι
  expectedBindingRoot : ι
  runtimeProfileRoot : Option ι
  sink : Bool

/-- what is left of a finalization or a repair once its publication is known -/
structure Projection (κ ι ν : Type) where
  realization : ν
  conflictKey : κ
  orderingRoot : ι
  runtimeProfileRoot : Option ι
  sink : Bool

/-- the call that a thread makes next -/
inductive Thread (κ ι ε μ ν : Type)
  | ready
  | freezing (job : Job κ ι ε μ ν) (parent : ι) (version : ℕ)
  | closing (job : Job κ ι ε μ ν) (parent : ι) (version : ℕ)
  | electing (job : Job κ ι ε μ ν) (parent : ι) (version : ℕ)
  | committing (job : Job κ ι ε μ ν) (parent : ι) (version : ℕ) (ticket : Ticket ι)
  | settling (job : Job κ ι ε μ ν) (ticket : Ticket ι) (told : Except Failure (Reply ι))
  | resolvingBinding (p : Repair κ ι ν) (head : Head ι)
  | resolvingOrdering (p : Repair κ ι ν) (head : Head ι) (binding : Binding ι)
  | recovering (p : Repair κ ι ν)
  | finalizing (p : Projection κ ι ν)
  | emitting (p : Projection κ ι ν)
  | returned
  | threw

/-- a call of the sink of a realization, and the publication it was made for -/
structure Delivery (κ ι ν : Type) where
  realization : ν
  observation : Observation ι
  conflictKey : κ
  orderingRoot : ι

/-- the store, what was published through which lane, the lanes and the realizations, the threads,
and the calls of sinks -/
structure Completion (κ ι ε τ μ ν : Type) where
  store : Store κ ι
  published : List (Option μ × (Submission κ ι ε × Except Failure (Reply ι)))
  lanes : μ → LaneState ι (Reply ι)
  realizations : ν → Realization ι
  threads : τ → Thread κ ι ε μ ν
  delivered : List (Delivery κ ι ν)

section
variable {κ ι ε τ μ ν : Type} [DecidableEq κ] [DecidableEq ι] [DecidableEq τ] [DecidableEq μ]
  [DecidableEq ν]

/-- `finalization-commitments`: what is validated of the allocation, and its root -/
structure Commitments (ι ε : Type) where
  allocationValid : ε → Bool
  allocationRoot : ε → ι

variable (R : Roots κ ι) (V : Validation κ ι ε) (C : Commitments ι ε)

def Completion.start (lanes : μ → LaneState ι (Reply ι)) : Completion κ ι ε τ μ ν :=
  ⟨Store.empty, [], lanes, fun _ => realizationOpen, fun _ => .ready, []⟩

def Completion.thread (w : Completion κ ι ε τ μ ν) (t : τ) (p : Thread κ ι ε μ ν) :
    Completion κ ι ε τ μ ν :=
  { w with threads := Function.update w.threads t p }

def Completion.lane (w : Completion κ ι ε τ μ ν) (l : μ) (s : LaneState ι (Reply ι)) :
    Completion κ ι ε τ μ ν :=
  { w with lanes := Function.update w.lanes l s }

def Completion.realization (w : Completion κ ι ε τ μ ν) (r : ν) (s : Realization ι) :
    Completion κ ι ε τ μ ν :=
  { w with realizations := Function.update w.realizations r s }

/-- a transaction of the store -/
def Completion.publish (w : Completion κ ι ε τ μ ν) (l : Option μ) (q : Submission κ ι ε) :
    Completion κ ι ε τ μ ν × Except Failure (Reply ι) :=
  let (store, told) := w.store.publish R V q
  ({ w with store := store, published := w.published ++ [(l, q, told)] }, told)

def currentFence (store : Store κ ι) (ordering : Ordering κ ι) : ι × ℕ :=
  let (head, version) :=
    (currentHeadAndVersion R store ordering.conflictKey).getD (initialHead R .v2, 0)
  (head.headRoot, version)

def validBasis (job : Job κ ι ε μ ν) : Bool :=
  C.allocationValid job.resolved
    && job.binding.root = R.binding job.binding.toBindingBody
    && job.binding.publicationOrderingRoot = job.ordering.hash
    && bindingEligible R V.closure job.binding job.ordering job.resolved

/-- `finalize-application-bound!` up to `complete-after-authority!` -/
def beginFinalize (w : Completion κ ι ε τ μ ν) (job : Job κ ι ε μ ν) : Thread κ ι ε μ ν :=
  let (parent, version) := currentFence R w.store job.ordering
  if validBasis R V C job = false then .threw
  else if some parent ≠ (w.lanes job.lane).expectedParentRoot then .threw
  else .freezing job parent version

/-- `reconcile-local-projection!` up to the first of the three reads that resolve the authority -/
def beginReconcile (w : Completion κ ι ε τ μ ν) (p : Repair κ ι ν) : Thread κ ι ε μ ν :=
  match currentHeadAndVersion R w.store p.conflictKey with
  | none => .threw
  | some (head, _) => .resolvingBinding p head

/-- the authority is one publication, and the one that is asked for -/
def Repair.Identifies (p : Repair κ ι ν) (head : Head ι) (binding : Binding ι)
    (ordering : Ordering κ ι) : Prop :=
  head.lastOrderingRoot = some binding.publicationOrderingRoot
    ∧ ordering.hash = binding.publicationOrderingRoot
    ∧ p.expectedOrderingRoot = ordering.hash
    ∧ p.expectedBindingRoot = binding.root
    ∧ head.lastOrderingRoot = some p.expectedOrderingRoot
    ∧ head.applicationBindingRoot = some p.expectedBindingRoot

instance (p : Repair κ ι ν) (head : Head ι) (binding : Binding ι) (ordering : Ordering κ ι) :
    Decidable (p.Identifies head binding ordering) := inferInstanceAs (Decidable (_ ∧ _))

def Repair.projection (p : Repair κ ι ν) : Projection κ ι ν :=
  ⟨p.realization, p.conflictKey, p.expectedOrderingRoot, p.runtimeProfileRoot, p.sink⟩

/-- the case of `reconcile-local-projection!` on the lifecycle of the realization -/
def recover (p : Repair κ ι ν) (r : Realization ι) : Thread κ ι ε μ ν :=
  match r.lifecycle with
  | .frozen => .finalizing p.projection
  | .finalized => .emitting p.projection
  | .opened => .threw

/-- the options that `complete-after-authority!` gives to `finalize-lane!` -/
def Job.options (job : Job κ ι ε μ ν) (parent : ι) : FinalizeOpts ι where
  observedParentRoot := some parent
  closedResultSetRoot := some (C.allocationRoot job.resolved)
  basisRoot := some job.binding.root
  validBasis := some true

def Job.submission (job : Job κ ι ε μ ν) (parent : ι) (version : ℕ) : Submission κ ι ε :=
  ⟨job.ordering, job.binding, job.resolved, some parent, some version⟩

def Job.projection (job : Job κ ι ε μ ν) : Projection κ ι ν :=
  ⟨job.realization, job.ordering.conflictKey, job.ordering.hash, job.runtimeProfileRoot, job.sink⟩

/-- what the callback of `complete-after-authority!` gives to the lane; the reason of a rejection is
under a key that the lane does not read -/
def writeResult : Except Failure (Reply ι) → WriteResult ι (Reply ι)
  | .ok (.committed head o b) => .returned (some (.committed head o b)) none
  | .ok (.idempotent head o b) => .returned (some (.idempotent head o b)) none
  | .ok _ => .returned none none
  | .error _ => .threw none

/-- the case of `complete-after-authority!` on the outcome of the lane -/
def afterLane (job : Job κ ι ε μ ν) : Finalization.Answer ι (Reply ι) → Thread κ ι ε μ ν
  | .committed (.committed _ _ _) _ => .finalizing job.projection
  | .committed (.idempotent _ _ _) _ => .returned
  | _ => .threw

/-- the next call of a thread -/
def advanceThread (w : Completion κ ι ε τ μ ν) (t : τ) : Completion κ ι ε τ μ ν :=
  match w.threads t with
  | .ready | .returned | .threw => w
  | .freezing job parent version =>
    match freeze (w.realizations job.realization) with
    | none => w.thread t .threw
    | some r => (w.realization job.realization r).thread t (.closing job parent version)
  | .closing job parent version =>
    match attempt (.request .closeExecution) (w.lanes job.lane) with
    | .write s _ => (w.lane job.lane s).thread t (.electing job parent version)
    | .answer _ => w.thread t .threw
  | .electing job parent version =>
    match attempt (.request (.finalizeLane job.ticketId (job.options C parent)))
        (w.lanes job.lane) with
    | .write s (.gated ticket) =>
      (w.lane job.lane s).thread t (.committing job parent version ticket)
    | _ => w.thread t .threw
  | .committing job parent version ticket =>
    let (w', told) := w.publish R V (some job.lane) (job.submission parent version)
    w'.thread t (.settling job ticket told)
  | .settling job ticket told =>
    let (s, answer) := settleLane (w.lanes job.lane) ticket (writeResult told)
    (w.lane job.lane s).thread t (afterLane job answer)
  | .resolvingBinding p head =>
    match head.applicationBindingRoot.bind (resolveBinding R w.store) with
    | none => w.thread t .threw
    | some binding => w.thread t (.resolvingOrdering p head binding)
  | .resolvingOrdering p head binding =>
    match head.lastOrderingRoot.bind (resolveOrdering R w.store) with
    | none => w.thread t .threw
    | some ordering =>
      if p.Identifies head binding ordering then w.thread t (.recovering p) else w.thread t .threw
  | .recovering p => w.thread t (recover p (w.realizations p.realization))
  | .finalizing p =>
    match finalize (w.realizations p.realization) p.runtimeProfileRoot with
    | none => w.thread t .threw
    | some r => (w.realization p.realization r).thread t (.emitting p)
  | .emitting p =>
    match emit (w.realizations p.realization) p.sink with
    | none => w.thread t .threw
    | some (r, observation) =>
      { (w.realization p.realization r).thread t .returned with
        delivered := w.delivered ++ observation.toList.map fun o =>
          ⟨p.realization, o, p.conflictKey, p.orderingRoot⟩ }

/-! ## moves -/

inductive LaneCall
  | beginContributor
  | endContributor
  | recordExecutorDispatch
  | recordQuiesced
  | closeExecution

def LaneCall.request {ι : Type} : LaneCall → Finalization.Request ι
  | .beginContributor => .beginContributor
  | .endContributor => .endContributor
  | .recordExecutorDispatch => .recordExecutorDispatch
  | .recordQuiesced => .recordQuiesced
  | .closeExecution => .closeExecution

inductive Fact
  | fact (phase : Phase)
  | executorDispatch (parallelism : ℕ)
  | quiesced

def Fact.record {ι : Type} (r : Realization ι) : Fact → Realization ι
  | .fact phase => recordFact r phase
  | .executorDispatch parallelism => recordExecutorDispatch r parallelism
  | .quiesced => Publication.recordQuiesced r

inductive Step (κ ι ε τ μ ν : Type)
  | beginFinalize (t : τ) (job : Job κ ι ε μ ν)
  | beginReconcile (t : τ) (p : Repair κ ι ν)
  | advance (t : τ)
  | die (t : τ)
  | lane (l : μ) (call : LaneCall)
  | report (r : ν) (fact : Fact)
  | publish (q : Submission κ ι ε)

/-- only a thread that is ready or has returned begins; one that dies throws -/
def Completion.move (w : Completion κ ι ε τ μ ν) : Step κ ι ε τ μ ν → Completion κ ι ε τ μ ν
  | .beginFinalize t job =>
    match w.threads t with
    | .ready | .returned | .threw => w.thread t (Publication.beginFinalize R V C w job)
    | _ => w
  | .beginReconcile t p =>
    match w.threads t with
    | .ready | .returned | .threw => w.thread t (Publication.beginReconcile R w p)
    | _ => w
  | .advance t => advanceThread R V C w t
  | .die t => w.thread t .threw
  | .lane l call =>
    match attempt (.request call.request) (w.lanes l) with
    | .write s _ => w.lane l s
    | .answer _ => w
  | .report r fact => w.realization r (fact.record (w.realizations r))
  | .publish q => (w.publish R V none q).1

def Completion.after (w : Completion κ ι ε τ μ ν) (steps : List (Step κ ι ε τ μ ν)) :
    Completion κ ι ε τ μ ν :=
  steps.foldl (Completion.move R V C) w

end

end PRF.Publication
