import ProtocolRobustness.Library.Callers

/-!
# The finalization lane

`execution/finalization_lane.clj`: one cell that the contributors of an execution and its finalizers
change by compare-and-set.  The call that wins the gate goes on alone: it runs its write function,
and then settles the lane with a `swap!`.

* `LaneState`, `laneOpen`          a lane;
* `Request`, `Op`                  the calls, and the `swap!` that ends a finalization;
* `finalizePreconditions`          why a call does not win the gate;
* `attempt`                        one turn of the loop of a call;
* `World`, `Move`                  every interleaving of the callers;
* `Change`, `attempt_change`       all that a write can do to a lane.
-/

namespace PRF.Finalization
open CompareAndSet Callers

/-! ## lanes -/

inductive Lifecycle
  | opened
  | executionClosed
  | finalizing
  | finalized
  | aborted
deriving DecidableEq

structure Ticket (ι : Type*) where
  id : ι
  laneGeneration : ℕ
  closedRoot : Option ι
  basisRoot : Option ι
  expectedParent : Option ι
deriving DecidableEq

inductive AbortReason (ι : Type*)
  | given (reason : ι)
  | writeRejected
  | writeThrew (message : Option ι)
deriving DecidableEq

structure LaneState (ι ρ : Type*) where
  lifecycle : Lifecycle
  generation : ℕ
  expectedParentRoot : Option ι
  requiresQuiescence : Bool
  contributingOpen : ℕ
  executorBackedPhases : ℕ
  quiescedPhases : ℕ
  finalizer : Option (Ticket ι)
  result : Option ρ
  abortReason : Option (AbortReason ι)
deriving DecidableEq

/-- the options of `open`; `requires-quiescence?` is true unless it is there and false -/
structure OpenOpts (ι : Type*) where
  expectedParentRoot : Option ι
  requiresQuiescence : Option Bool

/-- the options of `finalize-lane!`; `validBasis` is `none` where the key is absent -/
structure FinalizeOpts (ι : Type*) where
  observedParentRoot : Option ι
  closedResultSetRoot : Option ι
  basisRoot : Option ι
  validBasis : Option Bool
deriving DecidableEq

/-- what the write function does; `committed` is there when its value is truthy -/
inductive WriteResult (ι ρ : Type*)
  | returned (committed : Option ρ) (reason : Option ι)
  | threw (message : Option ι)

section
variable {ι ρ : Type*}

/-- `open`, with the generation that the global counter gave it -/
def laneOpen (generation : ℕ) (opts : OpenOpts ι) : LaneState ι ρ where
  lifecycle := .opened
  generation := generation
  expectedParentRoot := opts.expectedParentRoot
  requiresQuiescence := opts.requiresQuiescence.getD true
  contributingOpen := 0
  executorBackedPhases := 0
  quiescedPhases := 0
  finalizer := none
  result := none
  abortReason := none

/-! ## calls -/

/-- the random id of a ticket is drawn by its call -/
inductive Request (ι : Type*)
  | beginContributor
  | endContributor
  | recordExecutorDispatch
  | recordQuiesced
  | closeExecution
  | finalizeLane (id : ι) (opts : FinalizeOpts ι)

/-- a call, or the `swap!` of the caller that won the gate -/
inductive Op (ι ρ : Type*)
  | request (r : Request ι)
  | settle (ticket : Ticket ι) (w : WriteResult ι ρ)

inductive Rejection (ι : Type*)
  | notExecutionClosed (lifecycle : Lifecycle)
  | finalizerAlreadyActive (id : ι)
  | staleParent (expected observed : Option ι)
  | invalidFinalizationBasis
deriving DecidableEq

inductive Answer (ι ρ : Type*)
  | accepted
  | drained
  | afterClosure
  | inTerminalState (lifecycle : Lifecycle)
  | closed
  | notClosed
  | alreadyClosed (lifecycle : Lifecycle)
  | rejected (reason : Rejection ι)
  | gated (ticket : Ticket ι)
  | committed (result : ρ) (ticket : Ticket ι)
  | aborted (reason : AbortReason ι)

def makeTicket (id : ι) (s : LaneState ι ρ) (opts : FinalizeOpts ι) : Ticket ι where
  id := id
  laneGeneration := s.generation
  closedRoot := opts.closedResultSetRoot
  basisRoot := opts.basisRoot
  expectedParent := s.expectedParentRoot

/-- `(or (:reason write-result) :write-rejected)` -/
def WriteResult.reason : WriteResult ι ρ → AbortReason ι
  | .returned _ (some reason) => .given reason
  | .returned _ none => .writeRejected
  | .threw message => .writeThrew message

/-- the end of `finalize-lane!`, whatever the lane has become -/
def settleLane (s : LaneState ι ρ) (ticket : Ticket ι) :
    WriteResult ι ρ → LaneState ι ρ × Answer ι ρ
  | .returned (some result) _ =>
    ({ s with lifecycle := .finalized, result := some result }, .committed result ticket)
  | w => ({ s with lifecycle := .aborted, abortReason := some w.reason }, .aborted w.reason)

variable [DecidableEq ι]

def finalizePreconditions (s : LaneState ι ρ) (opts : FinalizeOpts ι) : Option (Rejection ι) :=
  if s.lifecycle ≠ .executionClosed then some (.notExecutionClosed s.lifecycle)
  else
    match s.finalizer with
    | some ticket => some (.finalizerAlreadyActive ticket.id)
    | none =>
      if s.expectedParentRoot.isSome ∧ s.expectedParentRoot ≠ opts.observedParentRoot then
        some (.staleParent s.expectedParentRoot opts.observedParentRoot)
      else if opts.validBasis = some false then some .invalidFinalizationBasis
      else none

/-- one turn of the loop of a call.  The gate is tested again after `finalize-preconditions`, with
the same tests -/
def attempt (d : Op ι ρ) (s : LaneState ι ρ) : Outcome (LaneState ι ρ) (Answer ι ρ) :=
  match d with
  | .request .beginContributor =>
    match s.lifecycle with
    | .opened => .write { s with contributingOpen := s.contributingOpen + 1 } .accepted
    | .executionClosed => .answer .afterClosure
    | other => .answer (.inTerminalState other)
  | .request .endContributor =>
    match s.lifecycle with
    | .opened | .executionClosed | .finalizing =>
      .write { s with contributingOpen := s.contributingOpen - 1 } .accepted
    | _ => .answer .drained
  | .request .recordExecutorDispatch =>
    match s.lifecycle with
    | .opened => .write { s with executorBackedPhases := s.executorBackedPhases + 1 } .accepted
    | .executionClosed => .answer .afterClosure
    | other => .answer (.inTerminalState other)
  | .request .recordQuiesced =>
    match s.lifecycle with
    | .opened | .executionClosed =>
      .write { s with quiescedPhases := s.quiescedPhases + 1 } .accepted
    | other => .answer (.inTerminalState other)
  | .request .closeExecution =>
    match s.lifecycle with
    | .opened =>
      if 0 < s.contributingOpen
          ∨ s.requiresQuiescence = true ∧ s.executorBackedPhases ≠ s.quiescedPhases then
        .answer .notClosed
      else .write { s with lifecycle := .executionClosed } .closed
    | other => .answer (.alreadyClosed other)
  | .request (.finalizeLane id opts) =>
    match finalizePreconditions s opts with
    | some reason => .answer (.rejected reason)
    | none =>
      let ticket := makeTicket id s opts
      .write { s with lifecycle := .finalizing, finalizer := some ticket } (.gated ticket)
  | .settle ticket w =>
    let (after, answer) := settleLane s ticket w
    .write after answer

/-! ## interleavings -/

/-- the lane, and the runs of write functions, the first first -/
structure World (κ ι ρ : Type*) where
  cell : Cell (LaneState ι ρ) κ (Op ι ρ) (Answer ι ρ)
  written : List (κ × Ticket ι)

/-- a caller that won the gate runs its write function; `none` is a throwable that
`finalize-lane!` does not catch -/
inductive Move (κ ι ρ : Type*)
  | call (client : κ) (r : Request ι)
  | turn (client : κ)
  | writeFn (client : κ) (w : Option (WriteResult ι ρ))

/-- the ticket with which a caller is inside `finalize-lane!` -/
def ticketOf : Turn (LaneState ι ρ) (Op ι ρ) (Answer ι ρ) → Option (Ticket ι)
  | .done _ (.gated ticket) => some ticket
  | _ => none

variable {κ : Type*} [DecidableEq κ]

def World.start (s : LaneState ι ρ) : World κ ι ρ := ⟨Cell.start s, []⟩

def World.move (w : World κ ι ρ) : Move κ ι ρ → World κ ι ρ
  | .call client r =>
    if ticketOf (w.cell.phase client) = none then { w with cell := w.cell.call client (.request r) }
    else w
  | .turn client => { w with cell := w.cell.turn attempt client }
  | .writeFn client result =>
    match ticketOf (w.cell.phase client) with
    | none => w
    | some ticket =>
      { cell := w.cell.moved client (result.elim .idle fun r => .called (.settle ticket r))
        written := w.written ++ [(client, ticket)] }

def World.after (w : World κ ι ρ) (moves : List (Move κ ι ρ)) : World κ ι ρ :=
  moves.foldl World.move w

/-! ## what a write can do -/

/-- the lane is ready to be closed -/
structure Ready (s : LaneState ι ρ) : Prop where
  contributors : s.contributingOpen = 0
  quiesced : s.requiresQuiescence = true → s.executorBackedPhases = s.quiescedPhases

/-- the gate is open for these options -/
structure Admits (s : LaneState ι ρ) (opts : FinalizeOpts ι) : Prop where
  lifecycle : s.lifecycle = .executionClosed
  finalizer : s.finalizer = none
  parent : s.expectedParentRoot.isSome → opts.observedParentRoot = s.expectedParentRoot
  basis : opts.validBasis ≠ some false

inductive Change : Op ι ρ → LaneState ι ρ → LaneState ι ρ → Answer ι ρ → Prop
  | begun (s : LaneState ι ρ) (h : s.lifecycle = .opened) :
      Change (.request .beginContributor) s
        { s with contributingOpen := s.contributingOpen + 1 } .accepted
  | ended (s : LaneState ι ρ)
      (h : s.lifecycle = .opened ∨ s.lifecycle = .executionClosed ∨ s.lifecycle = .finalizing) :
      Change (.request .endContributor) s
        { s with contributingOpen := s.contributingOpen - 1 } .accepted
  | dispatched (s : LaneState ι ρ) (h : s.lifecycle = .opened) :
      Change (.request .recordExecutorDispatch) s
        { s with executorBackedPhases := s.executorBackedPhases + 1 } .accepted
  | quiesced (s : LaneState ι ρ) (h : s.lifecycle = .opened ∨ s.lifecycle = .executionClosed) :
      Change (.request .recordQuiesced) s
        { s with quiescedPhases := s.quiescedPhases + 1 } .accepted
  | closed (s : LaneState ι ρ) (h : s.lifecycle = .opened) (hready : Ready s) :
      Change (.request .closeExecution) s { s with lifecycle := .executionClosed } .closed
  | gated (s : LaneState ι ρ) (id : ι) (opts : FinalizeOpts ι) (h : Admits s opts) :
      Change (.request (.finalizeLane id opts)) s
        { s with lifecycle := .finalizing, finalizer := some (makeTicket id s opts) }
        (.gated (makeTicket id s opts))
  | settled (s : LaneState ι ρ) (ticket : Ticket ι) (w : WriteResult ι ρ) :
      Change (.settle ticket w) s (settleLane s ticket w).1 (settleLane s ticket w).2

variable {s s' : LaneState ι ρ} {d : Op ι ρ} {a : Answer ι ρ}

theorem admits_of_preconditions {opts : FinalizeOpts ι}
    (h : finalizePreconditions s opts = none) : Admits s opts := by
  unfold finalizePreconditions at h
  split at h
  · cases h
  · next hclosed =>
    split at h
    · cases h
    · next hfinalizer =>
      split at h
      · cases h
      · next hparent =>
        split at h
        · cases h
        · next hbasis =>
          refine ⟨not_not.mp hclosed, hfinalizer, fun hsome => ?_, hbasis⟩
          by_contra hne
          exact hparent ⟨hsome, fun heq => hne heq.symm⟩

/-- **All that a write can do to a lane.** -/
theorem attempt_change (h : attempt d s = .write s' a) : Change d s s' a := by
  cases d with
  | settle ticket w =>
    cases h
    exact .settled s ticket w
  | request r =>
    cases r with
    | beginContributor =>
      simp only [attempt] at h
      split at h <;> cases h
      exact .begun s ‹_›
    | endContributor =>
      simp only [attempt] at h
      split at h <;> cases h
      · exact .ended s (Or.inl ‹_›)
      · exact .ended s (Or.inr (Or.inl ‹_›))
      · exact .ended s (Or.inr (Or.inr ‹_›))
    | recordExecutorDispatch =>
      simp only [attempt] at h
      split at h <;> cases h
      exact .dispatched s ‹_›
    | recordQuiesced =>
      simp only [attempt] at h
      split at h <;> cases h
      · exact .quiesced s (Or.inl ‹_›)
      · exact .quiesced s (Or.inr ‹_›)
    | closeExecution =>
      simp only [attempt] at h
      split at h
      · next hopen =>
        split at h
        · cases h
        · next hissues =>
          cases h
          push Not at hissues
          refine .closed s hopen ⟨by omega, hissues.2⟩
      · cases h
    | finalizeLane id opts =>
      simp only [attempt] at h
      cases hpre : finalizePreconditions s opts with
      | some reason =>
        rw [hpre] at h
        cases h
      | none =>
        rw [hpre] at h
        cases h
        exact .gated s id opts (admits_of_preconditions hpre)

end

end PRF.Finalization
