import ProtocolRobustness.Sew.Protocol
import ProtocolRobustness.Sew.SlashOps

/-!
# The journal of stakes

What a run debits from stakes and credits to them, one event for each movement, read off the stakes
and slash totals around the function that moves them.

* `Event`, `World.debits`   a movement of a stake;
* `World.journal`           the movements an operation makes;
* `World.penal`             what slashes and stakes are decided by; most of what happens to escrows
                            and disputes leaves it alone;
* `World.Keyed`             the slashes have distinct ids, whatever happens to them.
-/

namespace PRF.Sew
open Table Fallible

/-! ## events -/

inductive Cause
  | reversal | expiry | execution | groupExecution | timeout
deriving DecidableEq

/-- a movement of a stake; a debit has the world it happens in, what was taken of the stake and what
in all -/
inductive Event
  | debit (cause : Cause) (slashId : Option ℕ) (resolver : Address) (before : World)
      (fromStake total : ℤ)
  | credit (slashId : ℕ) (resolver : Address) (amount : ℤ)
  | registered (resolver : Address) (amount : ℤ)
  | withdrawn (resolver : Address) (amount : ℤ)

namespace World

/-- what a resolver lost between two worlds -/
def debit (w w' : World) (cause : Cause) (slashId : Option ℕ) (resolver : Address) : Event :=
  .debit cause slashId resolver w (w.stake resolver - w'.stake resolver)
    (w'.resolvers.slashTotal resolver - w.resolvers.slashTotal resolver)

/-- the same, if anything was lost -/
def debits (w w' : World) (cause : Cause) (slashId : Option ℕ) (resolver : Option Address) :
    List Event :=
  match resolver with
  | none => []
  | some r =>
    if w'.stake r = w.stake r ∧ w'.resolvers.slashTotal r = w.resolvers.slashTotal r then []
    else [w.debit w' cause slashId r]

/-- what a resolver gained between two worlds, if anything -/
def credits (w w' : World) (slashId : ℕ) (resolver : Option Address) : List Event :=
  match resolver with
  | none => []
  | some r =>
    if w'.stake r = w.stake r then [] else [.credit slashId r (w'.stake r - w.stake r)]

variable (w : World) (hash : Distribution → String) (runtime : YieldRuntime)

/-- the events of a computation, from the world it ends in -/
def eventsOf (x : Except Failure World) (events : World → List Event) : List Event :=
  match x with
  | .ok w' => events w'
  | .error _ => []

@[simp] theorem eventsOf_ok (w' : World) (events : World → List Event) :
    eventsOf (.ok w') events = events w' := rfl

/-! ## journals -/

def reversalJournal (workflowId : ℕ) (isRelease : Bool) : List Event :=
  eventsOf (w.handleReversalSlashing hash workflowId isRelease) fun w' =>
    w.debits w' .reversal (some w.slashes.nextSlashId)
      ((w.reversedDecision workflowId isRelease).map fun d => d.2.resolver)

/-- the slash of a decision that the next level reversed, when a decision confirms it -/
def vindicatedSlash (workflowId : ℕ) (isRelease : Bool) (level : ℕ) : Option (ℕ × SlashEntry) :=
  match w.disputes.previousDecisions workflowId level,
    w.disputes.previousDecisions workflowId (level + 1) with
  | some original, some next =>
    if original.isRelease ≠ next.isRelease ∧ original.isRelease = isRelease then
      (w.slashes.byContext workflowId .reversal level).bind fun slashId =>
        (w.vindicatedEntry slashId).map fun entry => (slashId, entry)
    else none
  | _, _ => none

def vindicateJournal (workflowId : ℕ) (isRelease : Bool) : List ℕ → World → List Event
  | [], _ => []
  | level :: levels, w =>
    eventsOf (vindicateLevel workflowId isRelease w level) fun w' =>
      ((w.vindicatedSlash workflowId isRelease level).elim [] fun e =>
        w.credits w' e.1 e.2.resolver) ++ vindicateJournal workflowId isRelease levels w'

def cleanupTurns (workflowId : ℕ) : List (ℕ × SlashEntry) → World → List Event
  | [], _ => []
  | e :: l, w =>
    eventsOf (w.cleanupSlash hash workflowId e.1 e.2) fun w' =>
      w.debits w' .expiry (some e.1) e.2.resolver ++ cleanupTurns workflowId l w'

def cleanupJournal (workflowId : ℕ) : List Event :=
  if w.escrowState workflowId = some .released ∨ w.escrowState workflowId = some .refunded then
    cleanupTurns hash workflowId (w.slashes.pending.filter fun e => w.expiredReversal workflowId e.2)
      w
  else []

def settleJournal (workflowId : ℕ) (isRelease : Bool) : List Event :=
  eventsOf (w.finalizeDispute runtime workflowId (direction isRelease)) fun finalized =>
    finalized.cleanupJournal hash workflowId

def resolutionJournal (workflowId : ℕ) (caller : Address) (isRelease : Bool)
    (resolutionHash : String) : List Event :=
  eventsOf ((w.archiveCurrentPendingSettlement workflowId .newResolution).accrueYield runtime
    workflowId) fun accrued =>
  accrued.reversalJournal hash workflowId isRelease ++
  eventsOf (accrued.handleReversalSlashing hash workflowId isRelease) fun slashed =>
  vindicateJournal workflowId isRelease (List.range (slashed.disputeLevel workflowId - 1)) slashed ++
  eventsOf (slashed.vindicate workflowId isRelease) fun vindicated =>
  if w.finalRound workflowId ∨ (w.getSnapshot workflowId).window ≤ 0 then
    (vindicated.recordDecision workflowId caller isRelease resolutionHash).settleJournal hash
      runtime workflowId isRelease
  else []

def pendingJournal (workflowId : ℕ) : List Event :=
  (w.settlementDue workflowId).elim [] fun pending =>
    w.settleJournal hash runtime workflowId pending.isRelease

def cancelJournal (workflowId : ℕ) : List Event :=
  (w.getTransfer workflowId).elim [] fun et =>
  eventsOf (w.finalize runtime workflowId .refunded) fun finalized =>
  eventsOf (finalized.slashOnTimeout hash workflowId et.disputeResolver et.amountAfterFee)
    fun slashed =>
  finalized.debits slashed .timeout none et.disputeResolver ++
  eventsOf ((slashed.decrementResolverCapacity
    et.disputeResolver).returnAllBondsForWorkflow workflowId) fun returned =>
  returned.cleanupJournal hash workflowId

def automateJournal (workflowId : ℕ) : List Event :=
  eventsOf (w.accrueYield runtime workflowId) fun accrued =>
  match accrued.timedAction workflowId with
  | .executePending => accrued.pendingJournal hash runtime workflowId
  | .autoCancelDisputedAutoTime | .autoCancelDisputed =>
    accrued.cancelJournal hash runtime workflowId
  | .autoRelease | .autoCancel | .none => []

/-- the world of an execution before its clean-up -/
def executionDone (w₁ : World) (resolver : Address) (total : ℤ) : World :=
  (w₁.freeze resolver w.freezeUntil).setEpoch resolver (w.resolverEpochState resolver).1
    ((w.resolverEpochState resolver).2 + total)

def executionJournal (workflowId slashId : ℕ) : List Event :=
  (w.getSlash slashId).elim [] fun entry =>
  entry.resolver.elim [] fun resolver =>
  match (w.putSlash slashId entry.executed).slashResolverStake hash resolver entry.amount none 0
      workflowId false with
  | .error _ => []
  | .ok (w₁, slashed) =>
    [w.debit w₁ .execution (some slashId) resolver]
      ++ (w.executionDone w₁ resolver slashed.total).cleanupJournal hash workflowId

def payTurns (workflowId slashId : ℕ) (entry : SlashEntry) (time : ℤ) :
    List (Address × ℤ) → GroupExecution → List Event
  | [], _ => []
  | row :: rows, acc =>
    match payMember hash workflowId entry time acc row with
    | .error _ => []
    | .ok acc' =>
      acc.world.debits acc'.world .groupExecution (some slashId) (some row.1)
        ++ payTurns workflowId slashId entry time rows acc'

def groupExecutionJournal (allocate : GroupAllocator) (workflowId slashId : ℕ) : List Event :=
  (w.getSlash slashId).elim [] fun entry =>
  match allocate entry.amount entry.members with
  | .error _ => []
  | .ok allocations =>
    payTurns hash workflowId slashId entry w.freezeUntil allocations { world := w } ++
    match allocations.foldlM (payMember hash workflowId entry w.freezeUntil) { world := w } with
    | .error _ => []
    | .ok done =>
      (done.world.putSlash slashId
        (entry.groupExecuted done.payments done.blocked)).cleanupJournal hash workflowId

/-- **The events of an operation**, when it is accepted. -/
def journal (env : Environment) (w : World) : Operation → List Event
  | .executeResolution workflowId caller isRelease resolutionHash _ =>
    w.resolutionJournal env.hash env.runtime workflowId caller isRelease resolutionHash
  | .executePendingSettlement workflowId => w.pendingJournal env.hash env.runtime workflowId
  | .autoCancelDisputedEscrow workflowId | .autoCancelDisputedOnAutoTime workflowId =>
    w.cancelJournal env.hash env.runtime workflowId
  | .automateTimedActions workflowId => w.automateJournal env.hash env.runtime workflowId
  | .executeFraudSlash workflowId slashId => w.executionJournal env.hash workflowId slashId
  | .executeFraudGroupSlash workflowId slashId =>
    w.groupExecutionJournal env.hash env.allocate workflowId slashId
  | .registerStake resolver amount => [.registered resolver amount]
  | .withdrawStake resolver amount => [.withdrawn resolver amount]
  | _ => []

/-! ## what slashes and stakes are decided by -/

/-- the clock, the configuration, the slashes, and of the resolvers all but their capacities -/
def penal (w : World) : World where
  blockTs := w.blockTs
  config := w.config
  slashes := w.slashes
  resolvers := { w.resolvers with capacities := fun _ => none }

/-- the slashes are kept under distinct ids -/
def Keyed (w : World) : Prop := (w.slashes.pending.map Prod.fst).Nodup

end World

section
variable {w w' w₁ : World} {workflowId slashId : ℕ} {entry : SlashEntry}

theorem penal_eq : w'.penal = w.penal ↔ w'.blockTs = w.blockTs ∧ w'.config = w.config ∧
    { w'.resolvers with capacities := fun _ => none }
      = { w.resolvers with capacities := fun _ => none } ∧ w'.slashes = w.slashes := by
  unfold World.penal
  simp only [World.mk.injEq, and_true, true_and]

theorem penal_of_core (h : w'.core = w.core) : w'.penal = w.penal := by
  obtain ⟨hts, hconfig, _, _, _, _, hresolvers, hslashes⟩ := core_eq.mp h
  exact penal_eq.mpr ⟨hts, hconfig, by rw [hresolvers], hslashes⟩

theorem penal_of_finalized {direction : Direction} {et : Transfer}
    (h : Finalized w w' workflowId direction et) : w'.penal = w.penal :=
  penal_eq.mpr ⟨h.blockTs, h.config, by rw [h.resolvers], h.slashes⟩

theorem penal_changeCapacity (w : World) (assigned : Option Address) (f : ℤ → ℤ) :
    (w.changeCapacity assigned f).penal = w.penal := by
  cases assigned <;> rfl

theorem penal_updateTransfer (w : World) (workflowId : ℕ) (f : Transfer → Transfer) :
    (w.updateTransfer workflowId f).penal = w.penal := by
  unfold World.updateTransfer
  split <;> rfl

theorem penal_archive (w : World) (workflowId : ℕ) (reason : SupersedeReason) :
    (w.archiveCurrentPendingSettlement workflowId reason).penal = w.penal := by
  unfold World.archiveCurrentPendingSettlement
  split <;> rfl

theorem penal_assignResolver (w : World) (workflowId : ℕ) (previous : Option Address)
    (next : Address) : (w.assignResolver workflowId previous next).penal = w.penal := by
  unfold World.assignResolver World.incrementResolverCapacity World.decrementResolverCapacity
  rw [penal_changeCapacity, penal_changeCapacity, penal_updateTransfer]

theorem penal_settleAppealBondOnResolution {isRelease : Bool}
    (h : w.settleAppealBondOnResolution workflowId isRelease = .ok w') : w'.penal = w.penal := by
  rcases settleAppealBondOnResolution_ok h with rfl | ⟨_, _, _, _, _, _, _, _, _, _, _, _, _, _, _,
    _, _, _, _, _, _, _, rfl⟩
  · rfl
  · rfl

theorem penal_returnAllBonds (h : w.returnAllBondsForWorkflow workflowId = .ok w') :
    w'.penal = w.penal := by
  refine foldlM_invariant (I := fun w₁ => w₁.penal = w.penal) ?_ rfl h
  intro w₁ record w₂ _ hw₁ hok
  rw [← hw₁]
  rcases returnBondRecord_ok hok with ⟨_, rfl⟩ | ⟨_, _, _, _, _, _, _, rfl⟩
  · rfl
  · rfl

theorem penal_postAppealBond {appellant : Address} {snap : Snapshot} {token : Token} {amount : ℤ}
    (h : w.postAppealBond workflowId appellant snap token amount = .ok w') :
    w'.penal = w.penal := by
  unfold World.postAppealBond at h
  split at h
  · cases h
  · simp only [ne_eq, ite_not, require_eq_ok, World.addHeld_ok] at h
    obtain ⟨_, _, rfl⟩ := h
    rfl

theorem penal_nextLevel {caller next : Address} {et : Transfer} {reason : SupersedeReason}
    {baseBond : ℤ} (h : w.nextLevel workflowId caller et reason baseBond next = .ok w') :
    w'.penal = w.penal := by
  unfold World.nextLevel at h
  simp only [bind_eq_ok, Except.ok.injEq] at h
  obtain ⟨w₁, h₁, rfl⟩ := h
  have hposted : w₁.penal = w.penal := by
    split at h₁
    · exact penal_postAppealBond h₁
    · rw [Except.ok.inj h₁]
  rw [penal_assignResolver, ← hposted]
  exact penal_archive w₁ workflowId reason

theorem penal_takeToNextLevel {caller : Address} {escalation : Option EscalationFn}
    {reason : SupersedeReason} {baseBond : Transfer → Snapshot → ℤ} {noResolution : Failure}
    {et : Transfer} (h : w.takeToNextLevel workflowId caller escalation reason baseBond noResolution
      et = .ok w') : w'.penal = w.penal := by
  unfold World.takeToNextLevel at h
  obtain ⟨_, h⟩ := refuse_eq_ok.mp h
  split at h
  · cases h
  · obtain ⟨_, h⟩ := refuse_eq_ok.mp h
    split at h
    · cases h
    · simp only [refuse_eq_ok, bind_eq_ok] at h
      obtain ⟨_, answer, _, h⟩ := h
      split at h
      · cases h
      · exact penal_nextLevel h

theorem vindicateLevel_ok {isRelease : Bool} {level : ℕ}
    (h : World.vindicateLevel workflowId isRelease w level = .ok w') :
    (w.vindicatedSlash workflowId isRelease level = none ∧ w' = w) ∨
    ∃ slashId entry, w.vindicatedSlash workflowId isRelease level = some (slashId, entry) ∧
      w.vindicateSlash slashId entry = .ok w' := by
  unfold World.vindicateLevel at h
  unfold World.vindicatedSlash
  cases horiginal : w.disputes.previousDecisions workflowId level with
  | none =>
    simp only [horiginal] at h
    exact Or.inl ⟨rfl, (Except.ok.inj h).symm⟩
  | some original =>
    cases hnext : w.disputes.previousDecisions workflowId (level + 1) with
    | none =>
      simp only [horiginal, hnext] at h
      exact Or.inl ⟨rfl, (Except.ok.inj h).symm⟩
    | some next =>
      simp only [horiginal, hnext] at h
      show ((if original.isRelease ≠ next.isRelease ∧ original.isRelease = isRelease then _
        else none) = none ∧ _) ∨ ∃ slashId entry, (if original.isRelease ≠ next.isRelease
          ∧ original.isRelease = isRelease then _ else none) = some (slashId, entry) ∧ _
      by_cases hconfirmed : original.isRelease ≠ next.isRelease ∧ original.isRelease = isRelease
      · rw [if_pos hconfirmed] at h ⊢
        cases hid : w.slashes.byContext workflowId .reversal level with
        | none =>
          simp only [hid] at h
          exact Or.inl ⟨rfl, (Except.ok.inj h).symm⟩
        | some slashId =>
          simp only [hid] at h
          rw [Option.bind_some]
          cases hentry : w.vindicatedEntry slashId with
          | none =>
            simp only [hentry] at h
            exact Or.inl ⟨rfl, (Except.ok.inj h).symm⟩
          | some entry =>
            simp only [hentry] at h
            exact Or.inr ⟨slashId, entry, rfl, h⟩
      · rw [if_neg hconfirmed] at h ⊢
        exact Or.inl ⟨rfl, (Except.ok.inj h).symm⟩

theorem vindicatedSlash_entry {isRelease : Bool} {level : ℕ}
    (h : w.vindicatedSlash workflowId isRelease level = some (slashId, entry)) :
    w.vindicatedEntry slashId = some entry := by
  unfold World.vindicatedSlash at h
  split at h
  · split at h
    · obtain ⟨id, _, h⟩ := Option.bind_eq_some_iff.mp h
      obtain ⟨e, he, heq⟩ := Option.map_eq_some_iff.mp h
      obtain ⟨rfl, rfl⟩ := Prod.mk.inj heq
      exact he
    · cases h
  · cases h

theorem vindicatedEntry_cases (hentry : w.vindicatedEntry slashId = some entry) :
    entry.reversible = true ∧
      (w.getSlash slashId = some entry ∨ find w.slashes.history slashId = some entry) := by
  unfold World.vindicatedEntry at hentry
  rcases hreg : (w.getSlash slashId).filter SlashEntry.reversible with _ | e
  · rw [hreg] at hentry
    obtain ⟨hget, hrev⟩ := Option.filter_eq_some_iff.mp hentry
    exact ⟨hrev, Or.inr hget⟩
  · rw [hreg] at hentry
    obtain rfl : e = entry := Option.some.inj hentry
    obtain ⟨hget, hrev⟩ := Option.filter_eq_some_iff.mp hreg
    exact ⟨hrev, Or.inl hget⟩

theorem updateSlash_cases (w : World) (slashId : ℕ) (f : SlashEntry → SlashEntry) :
    (∃ e, w.getSlash slashId = some e ∧ w.updateSlash slashId f = w.putSlash slashId (f e)) ∨
    (∃ e, find w.slashes.history slashId = some e ∧ w.updateSlash slashId f
      = { w with slashes := { w.slashes with history := put w.slashes.history slashId (f e) } }) ∨
    (w.getSlash slashId = none ∧ find w.slashes.history slashId = none ∧
      w.updateSlash slashId f = w) := by
  unfold World.updateSlash
  cases hget : w.getSlash slashId with
  | some e => exact Or.inl ⟨e, rfl, rfl⟩
  | none =>
    cases hold : find w.slashes.history slashId with
    | some e => exact Or.inr (Or.inl ⟨e, rfl, rfl⟩)
    | none => exact Or.inr (Or.inr ⟨rfl, rfl, rfl⟩)

theorem getSlash_put {entry' : SlashEntry}
    (hpending : w'.slashes.pending = put w.slashes.pending slashId entry') (id : ℕ) :
    w'.getSlash id = if slashId = id then some entry' else w.getSlash id := by
  unfold World.getSlash
  rw [hpending, find_put]

/-! ## keys -/

theorem World.Keyed.of_penal (h : w.Keyed) (hpenal : w'.penal = w.penal) : w'.Keyed := by
  unfold World.Keyed
  rw [(penal_eq.mp hpenal).2.2.2]
  exact h

theorem World.Keyed.putSlash (h : w.Keyed) (slashId : ℕ) (entry : SlashEntry) :
    (w.putSlash slashId entry).Keyed :=
  nodup_put h slashId entry

theorem World.Keyed.insertSlash (h : w.Keyed) {entry : SlashEntry} (hok : w.insertSlash entry = .ok w') :
    w'.Keyed := by
  obtain ⟨_, _, _, _, rfl⟩ := insertSlash_ok.mp hok
  exact nodup_put h _ _

theorem World.Keyed.of_slashes (h : w.Keyed) (hslashes : w'.slashes.pending = w.slashes.pending) :
    w'.Keyed := by
  unfold World.Keyed
  rw [hslashes]
  exact h

theorem World.Keyed.handleReversalSlashing {hash : Distribution → String} {isRelease : Bool}
    (h : w.Keyed) (hok : w.handleReversalSlashing hash workflowId isRelease = .ok w') :
    w'.Keyed := by
  rcases handleReversalSlashing_ok hok with rfl | ⟨_, _, _, _, _, _, _, _, _, _, hcase⟩
  · exact h
  · rcases hcase with ⟨_, hok⟩ | ⟨w₁, slashed, _, h₁, hok⟩
    · exact h.insertSlash hok
    · refine World.Keyed.insertSlash (h.of_slashes ?_) hok
      rw [(docket_eq.mp (slashResolverStake_ok h₁).2.2.2.1).2.2.2.2.1]

theorem World.Keyed.updateSlash (h : w.Keyed) (slashId : ℕ) (f : SlashEntry → SlashEntry) :
    (w.updateSlash slashId f).Keyed := by
  unfold World.updateSlash
  split
  · exact h.putSlash slashId _
  · exact h
  · exact h

theorem returnSlashAppealBond_slashes {resolver : Option Address} {token : Option Token}
    {amount : ℤ} (h : w.returnSlashAppealBond workflowId slashId resolver token amount = .ok w') :
    w'.penal = w.penal := by
  obtain ⟨_, _, _, _, _, rfl⟩ := returnSlashAppealBond_ok h
  rfl

theorem World.Keyed.vindicateSlash (h : w.Keyed) {entry : SlashEntry}
    (hok : w.vindicateSlash slashId entry = .ok w') : w'.Keyed := by
  refine vindicateSlash_rule (P := World.Keyed) hok ?_ ?_ ?_ h
  · exact fun _ _ _ h₁ => h₁
  · intro w₁ w₂ _ _ _ _ hreturned h₁
    have hw₂ : w₂.Keyed := h₁.of_penal (returnSlashAppealBond_slashes hreturned)
    exact hw₂
  · exact fun w₁ f _ h₁ => h₁.updateSlash slashId f

/-- **What a clean-up writes**: the stake, when something is slashed, and the history. -/
theorem cleanupSlash_ok {hash : Distribution → String} {slash : SlashEntry}
    (h : w.cleanupSlash hash workflowId slashId slash = .ok w') :
    (∃ (resolver : Address) (w₁ : World) (slashed : World.Slashed),
      slash.resolver = some resolver ∧ 0 < slash.amount ∧ 0 < w.stake resolver ∧
      w.slashResolverStake hash resolver slash.amount none
        (w.getSnapshot workflowId).challengeBountyBps workflowId true = .ok (w₁, slashed) ∧
      w₁.archiveSlash slashId
        { slash with status := .expiredExecuted, actualAmount := some slashed.total } = w') ∨
    ((∀ resolver, slash.resolver = some resolver → ¬ (0 < slash.amount ∧ 0 < w.stake resolver)) ∧
      w.archiveSlash slashId { slash with status := .expiredCleanedUp } = w') := by
  unfold World.cleanupSlash at h
  split at h
  · next resolver hresolver =>
    split at h
    · next hpos =>
      simp only [bind_eq_ok, Except.ok.injEq] at h
      obtain ⟨⟨w₁, slashed⟩, h₁, rfl⟩ := h
      exact Or.inl ⟨resolver, w₁, slashed, hresolver, hpos.1, hpos.2, h₁, rfl⟩
    · next hpos =>
      refine Or.inr ⟨fun r hr => ?_, Except.ok.inj h⟩
      rw [hresolver] at hr
      exact Option.some.inj hr ▸ hpos
  · next hresolver =>
    refine Or.inr ⟨fun r hr => ?_, Except.ok.inj h⟩
    rw [hresolver] at hr
    cases hr

theorem cleanupSlash_pending {hash : Distribution → String} {slash : SlashEntry}
    (h : w.cleanupSlash hash workflowId slashId slash = .ok w') :
    w'.slashes.pending = w.slashes.pending.filter (fun e => e.1 ≠ slashId) ∧
      w'.blockTs = w.blockTs := by
  rcases cleanupSlash_ok h with ⟨_, w₁, _, _, _, _, h₁, rfl⟩ | ⟨_, rfl⟩
  · obtain ⟨hts, _, _, _, hslashes, _⟩ := docket_eq.mp (slashResolverStake_ok h₁).2.2.2.1
    refine ⟨?_, hts⟩
    show w₁.slashes.pending.filter _ = _
    rw [hslashes]
  · exact ⟨rfl, rfl⟩

end

end PRF.Sew
