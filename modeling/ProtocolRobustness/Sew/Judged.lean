import ProtocolRobustness.Sew.Journal

/-!
# The ways slashes and stakes are touched

The operations on escrows and disputes touch slashes and stakes in four ways: a reversed decision is
slashed, a vindicated one credited, an expired slash cleaned up, a resolver who let a dispute time out
debited.  The operations on slashes add the proposals, appeals and executions.  A relation that holds
around each of these, and along their sequences, holds around every operation and every run.

* `FraudExecution`, `GroupExecuted`   an execution, before its clean-up;
* `World.Rewritten`                   what an appeal and its resolution write;
* `Judged`                            a relation that holds around each way;
* `Judged.step`                       it holds around every accepted operation, with its journal;
* `Judged.run`                        and along every run.
-/

namespace PRF.Sew
open Table Fallible Runs LongArith

/-! ## executions -/

/-- an accepted execution of a slash, before its clean-up -/
structure FraudExecution (hash : Distribution → String) (w : World) (workflowId slashId : ℕ)
    (entry : SlashEntry) (resolver : Address) (w₁ : World) (slashed : World.Slashed) : Prop where
  found : w.getSlash slashId = some entry
  workflow : entry.workflowId = workflowId
  kind : entry.kind ≠ .fraudGroup
  status : entry.status = .pending
  expired : entry.appealDeadline < w.blockTs
  against : entry.resolver = some resolver
  cap : 0 < w.stake resolver + (w.resolverEpochState resolver).2 →
    ((w.resolverEpochState resolver).2 + entry.amount) * 10000
      ≤ (w.stake resolver + (w.resolverEpochState resolver).2) * w.config.params.slashEpochCapBps
  slashed : (w.putSlash slashId entry.executed).slashResolverStake hash resolver entry.amount none 0
    workflowId false = .ok (w₁, slashed)

/-- an accepted execution of a group, before its clean-up -/
structure GroupExecuted (allocate : GroupAllocator) (hash : Distribution → String) (w : World)
    (workflowId slashId : ℕ) (entry : SlashEntry) (allocations : List (Address × ℤ))
    (done : World.GroupExecution) : Prop where
  found : w.getSlash slashId = some entry
  workflow : entry.workflowId = workflowId
  kind : entry.kind = .fraudGroup
  status : entry.status = .pending
  expired : entry.appealDeadline < w.blockTs
  resolved : ∀ m ∈ entry.members, ∀ a ∈ find entry.appeals m.id, a.status ≠ .appealed
  allocated : allocate entry.amount entry.members = .ok allocations
  paid : allocations.foldlM (World.payMember hash workflowId entry w.freezeUntil) { world := w }
    = .ok done

/-- a relation that holds around the turns of a clean-up -/
structure CleansUp (hash : Distribution → String) (R : World → List Event → World → Prop) : Prop where
  refl : ∀ w : World, R w [] w
  trans : ∀ {w w₁ w' : World} {j j' : List Event}, R w j w₁ → R w₁ j' w' → R w (j ++ j') w'
  cleanedUp : ∀ {w w' : World} {workflowId slashId : ℕ} {slash : SlashEntry}, w.Keyed →
    w.getSlash slashId = some slash → w.expiredReversal workflowId slash = true →
    w.cleanupSlash hash workflowId slashId slash = .ok w' →
    R w (w.debits w' .expiry (some slashId) slash.resolver) w'

/-- **A relation that holds around the ways slashes and stakes are touched**, with their events. -/
structure Judged (env : Environment) (R : World → List Event → World → Prop) : Prop
    extends CleansUp env.hash R where
  silent : ∀ {w w' : World}, w'.penal = w.penal → R w [] w'
  reversal : ∀ {w w' : World} {workflowId : ℕ} {isRelease : Bool}, w.Keyed →
    w.handleReversalSlashing env.hash workflowId isRelease = .ok w' →
    R w (w.reversalJournal env.hash workflowId isRelease) w'
  vindicated : ∀ {w w' : World} {workflowId level slashId : ℕ} {isRelease : Bool}
    {entry : SlashEntry}, w.Keyed →
    w.vindicatedSlash workflowId isRelease level = some (slashId, entry) →
    w.vindicateSlash slashId entry = .ok w' →
    R w (w.credits w' slashId entry.resolver) w'
  timedOut : ∀ {w w' : World} {workflowId : ℕ} {resolver : Option Address} {amount : ℤ}, w.Keyed →
    w.slashOnTimeout env.hash workflowId resolver amount = .ok w' →
    R w (w.debits w' .timeout none resolver) w'
  proposed : ∀ {w w' : World} {workflowId : ℕ} {caller : Option Address} {resolver : Address}
    {amount : ℤ}, w.Keyed → w.proposeFraudSlash workflowId caller resolver amount = .ok w' →
    R w [] w'
  groupProposed : ∀ {w w' : World} {workflowId : ℕ} {caller : Option Address} {ids : List Address}
    {amount : ℤ} {incidentFound : Bool}, w.Keyed →
    w.proposeFraudGroupSlash env.allocate workflowId caller ids amount incidentFound = .ok w' →
    R w [] w'
  appealed : ∀ {w w' : World} {workflowId slashId : ℕ} {caller : Address}, w.Keyed →
    w.appealSlash workflowId caller slashId = .ok w' → R w [] w'
  resolved : ∀ {w w' : World} {workflowId slashId : ℕ} {caller : Option Address}
    {upheld provenance : Bool}, w.Keyed →
    w.resolveAppeal workflowId caller upheld slashId provenance = .ok w' → R w [] w'
  memberAppealed : ∀ {w w' : World} {workflowId slashId : ℕ} {caller : Address}, w.Keyed →
    w.appealFraudGroupSlash env.allocate workflowId caller slashId = .ok w' → R w [] w'
  memberResolved : ∀ {w w' : World} {workflowId slashId : ℕ} {caller : Option Address}
    {member : Address} {upheld provenance : Bool}, w.Keyed →
    w.resolveFraudGroupAppeal workflowId caller member upheld slashId provenance = .ok w' →
    R w [] w'
  executed : ∀ {w w₁ : World} {workflowId slashId : ℕ} {entry : SlashEntry} {resolver : Address}
    {slashed : World.Slashed}, w.Keyed →
    FraudExecution env.hash w workflowId slashId entry resolver w₁ slashed →
    R w [w.debit w₁ .execution (some slashId) resolver]
      (w.executionDone w₁ resolver slashed.total)
  groupExecuted : ∀ {w : World} {workflowId slashId : ℕ} {entry : SlashEntry}
    {allocations : List (Address × ℤ)} {done : World.GroupExecution}, w.Keyed →
    GroupExecuted env.allocate env.hash w workflowId slashId entry allocations done →
    R w (World.payTurns env.hash workflowId slashId entry w.freezeUntil allocations { world := w })
      (done.world.putSlash slashId (entry.groupExecuted done.payments done.blocked))
  registered : ∀ {w : World} {resolver : Address} {amount : ℤ}, 0 < amount →
    R w [.registered resolver amount] (w.addStake resolver amount (HostInt.ofInt amount).big)
  withdrawn : ∀ {w : World} {resolver : Address} {amount : ℤ}, 0 < amount →
    amount ≤ w.stake resolver →
      R w [.withdrawn resolver amount] (w.addStake resolver (-amount) (HostInt.ofInt amount).big)
  advanced : ∀ {w : World} {time : ℤ}, w.blockTs ≤ time → R w [] { w with blockTs := time }

/-! ## operations -/

section
variable {env : Environment} {R : World → List Event → World → Prop} {w w' w₁ : World}
  {workflowId : ℕ} {j j' : List Event}

/-- the relation holds, and the slashes stay under distinct ids -/
def Moved (R : World → List Event → World → Prop) (w : World) (j : List Event) (w' : World) : Prop :=
  w.Keyed → w'.Keyed ∧ R w j w'

namespace CleansUp
variable {hash : Distribution → String}

theorem moved_trans (h : CleansUp hash R) (h₁ : Moved R w j w₁) (h₂ : Moved R w₁ j' w') :
    Moved R w (j ++ j') w' := by
  intro hkeyed
  obtain ⟨hkeyed₁, hr₁⟩ := h₁ hkeyed
  obtain ⟨hkeyed₂, hr₂⟩ := h₂ hkeyed₁
  exact ⟨hkeyed₂, h.trans hr₁ hr₂⟩

theorem moved_cleanupTurns (h : CleansUp hash R) (l : List (ℕ × SlashEntry))
    (hl : (l.map Prod.fst).Nodup)
    (hfound : ∀ e ∈ l, w.getSlash e.1 = some e.2 ∧ w.expiredReversal workflowId e.2 = true)
    (hok : l.foldlM (fun w e => w.cleanupSlash hash workflowId e.1 e.2) w = .ok w') :
    Moved R w (World.cleanupTurns hash workflowId l w) w' := by
  induction l generalizing w with
  | nil =>
    rw [← Except.ok.inj hok]
    exact fun hkeyed => ⟨hkeyed, h.refl w⟩
  | cons e l ih =>
    rw [List.foldlM_cons, bind_eq_ok] at hok
    obtain ⟨w₁, h₁, hrest⟩ := hok
    obtain ⟨hpending, hts⟩ := cleanupSlash_pending h₁
    rw [List.map_cons, List.nodup_cons] at hl
    obtain ⟨he, hexpired⟩ := hfound e List.mem_cons_self
    rw [World.cleanupTurns, h₁, World.eventsOf_ok]
    refine h.moved_trans (fun hkeyed => ⟨?_, h.cleanedUp hkeyed he hexpired h₁⟩)
      (ih hl.2 (fun e' he' => ?_) hrest)
    · unfold World.Keyed
      rw [hpending]
      exact nodup_filter hkeyed _
    · obtain ⟨hfind, hexpired'⟩ := hfound e' (List.mem_cons_of_mem _ he')
      have hne : e'.1 ≠ e.1 := fun heq => hl.1 (heq ▸ List.mem_map_of_mem he')
      constructor
      · have hfilter := find_filter (fun k => decide (k ≠ e.1)) w.slashes.pending e'.1
        rw [World.getSlash, hpending, hfilter, if_pos (by simpa using hne)]
        exact hfind
      · unfold World.expiredReversal
        rw [hts]
        exact hexpired'

theorem moved_cleanup (h : CleansUp hash R)
    (hok : w.cleanupOrphanedSlashes hash workflowId = .ok w') :
    Moved R w (w.cleanupJournal hash workflowId) w' := by
  intro hkeyed
  unfold World.cleanupOrphanedSlashes at hok
  unfold World.cleanupJournal
  split at hok
  · next hended =>
    rw [if_pos hended]
    refine h.moved_cleanupTurns _ (nodup_filter hkeyed _) (fun e he => ?_) hok hkeyed
    obtain ⟨hmem, hexpired⟩ := List.mem_filter.mp he
    exact ⟨find_of_mem hkeyed hmem, hexpired⟩
  · next hended =>
    rw [if_neg hended, ← Except.ok.inj hok]
    exact ⟨hkeyed, h.refl w⟩

end CleansUp

namespace Judged

theorem quiet (h : Judged env R) (hpenal : w'.penal = w.penal) : Moved R w [] w' :=
  fun hkeyed => ⟨hkeyed.of_penal hpenal, h.silent hpenal⟩

theorem quiet_trans (h : Judged env R) (hpenal : w₁.penal = w.penal) (h₂ : Moved R w₁ j w') :
    Moved R w j w' :=
  h.moved_trans (h.quiet hpenal) h₂

theorem moved_reversal (h : Judged env R) {isRelease : Bool}
    (hok : w.handleReversalSlashing env.hash workflowId isRelease = .ok w') :
    Moved R w (w.reversalJournal env.hash workflowId isRelease) w' :=
  fun hkeyed => ⟨hkeyed.handleReversalSlashing hok, h.reversal hkeyed hok⟩

theorem moved_trans (h : Judged env R) (h₁ : Moved R w j w₁) (h₂ : Moved R w₁ j' w') :
    Moved R w (j ++ j') w' :=
  h.toCleansUp.moved_trans h₁ h₂

theorem moved_cleanup (h : Judged env R)
    (hok : w.cleanupOrphanedSlashes env.hash workflowId = .ok w') :
    Moved R w (w.cleanupJournal env.hash workflowId) w' :=
  h.toCleansUp.moved_cleanup hok

theorem moved_vindicateLevel (h : Judged env R) {isRelease : Bool} {level : ℕ}
    (hok : World.vindicateLevel workflowId isRelease w level = .ok w') :
    Moved R w ((w.vindicatedSlash workflowId isRelease level).elim [] fun e =>
      w.credits w' e.1 e.2.resolver) w' := by
  rcases vindicateLevel_ok hok with ⟨hnone, rfl⟩ | ⟨slashId, entry, hsome, hslash⟩
  · rw [hnone]
    exact h.quiet rfl
  · rw [hsome]
    exact fun hkeyed => ⟨hkeyed.vindicateSlash hslash, h.vindicated hkeyed hsome hslash⟩

theorem moved_vindicate (h : Judged env R) {isRelease : Bool} (levels : List ℕ)
    (hok : levels.foldlM (World.vindicateLevel workflowId isRelease) w = .ok w') :
    Moved R w (World.vindicateJournal workflowId isRelease levels w) w' := by
  induction levels generalizing w with
  | nil =>
    rw [← Except.ok.inj hok]
    exact h.quiet rfl
  | cons level levels ih =>
    rw [List.foldlM_cons, bind_eq_ok] at hok
    obtain ⟨w₁, h₁, hrest⟩ := hok
    rw [World.vindicateJournal, h₁, World.eventsOf_ok]
    exact h.moved_trans (h.moved_vindicateLevel h₁) (ih hrest)

theorem moved_settle (h : Judged env R) {isRelease : Bool}
    (hok : w.settleDispute env.runtime env.hash workflowId isRelease = .ok w') :
    Moved R w (w.settleJournal env.hash env.runtime workflowId isRelease) w' := by
  unfold World.settleDispute at hok
  obtain ⟨w₁, h₁, hok⟩ := bind_eq_ok.mp hok
  rw [World.settleJournal, h₁, World.eventsOf_ok]
  refine h.quiet_trans ?_ (h.moved_cleanup hok)
  unfold World.finalizeDispute World.finalizeEscrowAccounting at h₁
  simp only [bind_eq_ok, Except.ok.injEq] at h₁
  obtain ⟨w₂, h₂, rfl⟩ := h₁
  obtain ⟨et, hfin⟩ := finalize_core h₂
  rw [World.decrementResolverCapacity, penal_changeCapacity, penal_of_finalized hfin]

theorem moved_resolution (h : Judged env R) {caller : Address} {isRelease : Bool}
    {resolutionHash : String}
    (hok : w.applyResolutionTransition env.runtime env.hash workflowId caller isRelease
      resolutionHash = .ok w') :
    Moved R w (w.resolutionJournal env.hash env.runtime workflowId caller isRelease resolutionHash)
      w' := by
  unfold World.applyResolutionTransition at hok
  simp only [refuse_eq_ok, bind_eq_ok] at hok
  obtain ⟨_, _, _, w₁, h₁, w₂, h₂, w₃, h₃, hok⟩ := hok
  unfold World.resolutionJournal
  simp only [h₁, h₂, h₃, World.eventsOf_ok]
  have hdecided : (w₃.recordDecision workflowId caller isRelease resolutionHash).penal
      = w₃.penal := by
    unfold World.recordDecision
    rw [penal_updateTransfer]
    rfl
  refine h.quiet_trans ((penal_of_core (accrueYield_core h₁)).trans (penal_archive _ _ _))
    (h.moved_trans (h.moved_reversal h₂) (h.moved_trans (h.moved_vindicate _ h₃) ?_))
  split at hok
  · next hfinal =>
    rw [if_pos hfinal]
    exact h.quiet_trans hdecided (h.moved_settle hok)
  · next hfinal =>
    rw [if_neg hfinal]
    obtain ⟨w₅, h₅, hok⟩ := bind_eq_ok.mp hok
    rw [← Except.ok.inj hok]
    have hsettled : w₅.penal = w₃.penal :=
      (penal_settleAppealBondOnResolution h₅).trans hdecided
    exact h.quiet (hsettled : (w₅.setPending workflowId _).penal = w₃.penal)

theorem moved_pending (h : Judged env R)
    (hok : w.executePendingSettlement env.runtime env.hash workflowId = .ok w') :
    Moved R w (w.pendingJournal env.hash env.runtime workflowId) w' := by
  unfold World.executePendingSettlement at hok
  simp only [refuse_eq_ok] at hok
  obtain ⟨_, _, hok⟩ := hok
  split at hok
  · cases hok
  · next pending hdue =>
    simp only [refuse_eq_ok] at hok
    rw [World.pendingJournal, hdue]
    exact h.moved_settle hok.2.2.2

theorem moved_cancel (h : Judged env R)
    (hok : w.cancelDisputedEscrowNow env.runtime env.hash workflowId = .ok w') :
    Moved R w (w.cancelJournal env.hash env.runtime workflowId) w' := by
  unfold World.cancelDisputedEscrowNow at hok
  split at hok
  · cases hok
  · next et het =>
    simp only [bind_eq_ok] at hok
    obtain ⟨w₁, h₁, w₂, h₂, w₃, h₃, hok⟩ := hok
    unfold World.cancelJournal
    rw [het]
    simp only [Option.elim_some, h₁, h₂, h₃, World.eventsOf_ok]
    obtain ⟨et', hfin⟩ := finalize_core h₁
    have htimed : Moved R w₁ (w₁.debits w₂ .timeout none et.disputeResolver) w₂ := by
      refine fun hkeyed => ⟨hkeyed.of_slashes ?_, h.timedOut hkeyed h₂⟩
      rw [(docket_eq.mp (slashOnTimeout_docket h₂)).2.2.2.2.1]
    have hreturned : w₃.penal = w₂.penal := by
      rw [penal_returnAllBonds h₃, World.decrementResolverCapacity, penal_changeCapacity]
    exact h.quiet_trans (penal_of_finalized hfin)
      (h.moved_trans htimed (h.quiet_trans hreturned (h.moved_cleanup hok)))

theorem moved_autoCancel (h : Judged env R)
    (hok : w.autoCancelDisputedEscrow env.runtime env.hash workflowId = .ok w') :
    Moved R w (w.cancelJournal env.hash env.runtime workflowId) w' := by
  unfold World.autoCancelDisputedEscrow at hok
  simp only [refuse_eq_ok] at hok
  exact h.moved_cancel hok.2.2.2.2

theorem moved_autoTime (h : Judged env R)
    (hok : w.autoCancelDisputedOnAutoTime env.runtime env.hash workflowId = .ok w') :
    Moved R w (w.cancelJournal env.hash env.runtime workflowId) w' := by
  unfold World.autoCancelDisputedOnAutoTime at hok
  simp only [refuse_eq_ok] at hok
  exact h.moved_cancel hok.2.2.2.2

theorem moved_automate (h : Judged env R)
    (hok : w.automateTimedActions env.runtime env.hash workflowId = .ok w') :
    Moved R w (w.automateJournal env.hash env.runtime workflowId) w' := by
  unfold World.automateTimedActions at hok
  simp only [refuse_eq_ok, bind_eq_ok] at hok
  obtain ⟨_, w₁, h₁, hok⟩ := hok
  unfold World.automateJournal
  rw [h₁, World.eventsOf_ok]
  refine h.quiet_trans (penal_of_core (accrueYield_core h₁)) ?_
  cases haction : w₁.timedAction workflowId with
  | executePending =>
    rw [haction] at hok
    exact h.moved_pending hok
  | autoCancelDisputedAutoTime =>
    rw [haction] at hok
    exact h.moved_autoTime hok
  | autoCancelDisputed =>
    rw [haction] at hok
    exact h.moved_autoCancel hok
  | autoRelease =>
    rw [haction] at hok
    obtain ⟨et, hfin⟩ := finalize_core hok
    exact h.quiet (penal_of_finalized hfin)
  | autoCancel =>
    rw [haction] at hok
    obtain ⟨et, hfin⟩ := finalize_core hok
    exact h.quiet (penal_of_finalized hfin)
  | none =>
    rw [haction] at hok
    exact h.quiet (congrArg World.penal (Except.ok.inj hok).symm)

end Judged

/-! ## operations on slashes -/

theorem payMember_slashes {hash : Distribution → String} {entry : SlashEntry} {time : ℤ}
    {rows : List (Address × ℤ)} {acc acc' : World.GroupExecution}
    (hok : rows.foldlM (World.payMember hash workflowId entry time) acc = .ok acc') :
    acc'.world.slashes = acc.world.slashes :=
  foldlM_invariant (I := fun a => a.world.slashes = acc.world.slashes)
    (fun _ _ _ _ ha h' => ((docket_eq.mp (payMember_docket h')).2.2.2.2.1).trans ha) rfl hok

/-- the entry is all that was written on the registry, and no resolver was touched -/
structure World.Rewritten (w w' : World) (slashId : ℕ) (entry : SlashEntry) : Prop where
  pending : w'.slashes.pending = put w.slashes.pending slashId entry
  history : w'.slashes.history = w.slashes.history
  byContext : w'.slashes.byContext = w.slashes.byContext
  nextSlashId : w'.slashes.nextSlashId = w.slashes.nextSlashId
  resolvers : w'.resolvers = w.resolvers

namespace World.Rewritten
variable {w₁ : World} {slashId : ℕ} {entry : SlashEntry} {token : Option Token} {amount : ℤ}

theorem keyed (h : w.Rewritten w' slashId entry) (hkeyed : w.Keyed) : w'.Keyed :=
  (hkeyed.putSlash slashId entry).of_slashes h.pending

theorem posted {caller : Address}
    (hok : w₁.postSlashAppealBond workflowId slashId caller token amount = .ok w')
    (h : w.Rewritten w₁ slashId entry) : w.Rewritten w' slashId entry := by
  obtain ⟨_, _, _, rfl⟩ := postSlashAppealBond_ok hok
  exact ⟨h.pending, h.history, h.byContext, h.nextSlashId, h.resolvers⟩

theorem returned {resolver : Option Address}
    (hok : w₁.returnSlashAppealBond workflowId slashId resolver token amount = .ok w')
    (h : w.Rewritten w₁ slashId entry) : w.Rewritten w' slashId entry := by
  obtain ⟨_, _, _, _, _, rfl⟩ := returnSlashAppealBond_ok hok
  exact ⟨h.pending, h.history, h.byContext, h.nextSlashId, h.resolvers⟩

theorem forfeited {resolver : Option Address}
    (hok : w₁.forfeitSlashAppealBond workflowId slashId resolver token amount = .ok w')
    (h : w.Rewritten w₁ slashId entry) : w.Rewritten w' slashId entry := by
  unfold World.forfeitSlashAppealBond at hok
  split at hok
  · obtain ⟨w₂, h₂, rfl⟩ := map_eq_ok.mp hok
    obtain ⟨_, _, _, rfl⟩ := World.subHeld_ok.mp h₂
    exact ⟨h.pending, h.history, h.byContext, h.nextSlashId, h.resolvers⟩
  · cases hok

end World.Rewritten

theorem rewritten_appealSlash {slashId : ℕ} {caller : Address} {entry : SlashEntry}
    (hfound : w.getSlash slashId = some entry)
    (hok : w.appealSlash workflowId caller slashId = .ok w') :
    w.Rewritten w' slashId (entry.appealed (w.slashAppealBond workflowId)) := by
  obtain ⟨_, hfound', _, _, _, _, hcase⟩ := appealSlash_ok hok
  obtain rfl := Option.some.inj (hfound.symm.trans hfound')
  rcases hcase with ⟨_, rfl⟩ | ⟨_, hpost⟩
  · exact ⟨rfl, rfl, rfl, rfl, rfl⟩
  · exact .posted hpost ⟨rfl, rfl, rfl, rfl, rfl⟩

theorem rewritten_resolveAppeal {slashId : ℕ} {caller : Option Address} {upheld provenance : Bool}
    {entry : SlashEntry} (hfound : w.getSlash slashId = some entry)
    (hok : w.resolveAppeal workflowId caller upheld slashId provenance = .ok w') :
    w.Rewritten w' slashId (entry.resolved upheld) := by
  obtain ⟨_, hfound', _, _, _, hcase⟩ := resolveAppeal_ok hok
  obtain rfl := Option.some.inj (hfound.symm.trans hfound')
  rcases hcase with ⟨_, rfl⟩ | ⟨_, _, hret⟩ | ⟨_, _, hret⟩
  · exact ⟨rfl, rfl, rfl, rfl, rfl⟩
  · exact .returned hret ⟨rfl, rfl, rfl, rfl, rfl⟩
  · exact .forfeited hret ⟨rfl, rfl, rfl, rfl, rfl⟩

theorem rewritten_memberAppeal {slashId : ℕ} {caller : Address} {allocate : GroupAllocator}
    {entry : SlashEntry} (hfound : w.getSlash slashId = some entry)
    (hok : w.appealFraudGroupSlash allocate workflowId caller slashId = .ok w') :
    ∃ debit, w.Rewritten w' slashId
      (entry.withAppeal caller (memberAppeal debit (w.slashAppealBond workflowId))) := by
  obtain ⟨_, debit, hfound', _, _, _, _, _, _, appealed, rfl, hcase⟩ := appealFraudGroupSlash_ok hok
  obtain rfl := Option.some.inj (hfound.symm.trans hfound')
  refine ⟨debit, ?_⟩
  rcases hcase with ⟨_, rfl⟩ | ⟨_, hpost⟩
  · exact ⟨rfl, rfl, rfl, rfl, rfl⟩
  · exact .posted hpost ⟨rfl, rfl, rfl, rfl, rfl⟩

theorem rewritten_memberResolution {slashId : ℕ} {caller : Option Address} {member : Address}
    {upheld provenance : Bool} {entry : SlashEntry} (hfound : w.getSlash slashId = some entry)
    (hok : w.resolveFraudGroupAppeal workflowId caller member upheld slashId provenance = .ok w') :
    ∃ appeal, find entry.appeals member = some appeal ∧ appeal.status = .appealed ∧
      w.Rewritten w' slashId (entry.withAppeal member (appeal.resolved upheld)) := by
  obtain ⟨_, appeal, hfound', _, _, happeal, hstatus, resolved, rfl, hcase⟩ :=
    resolveFraudGroupAppeal_ok hok
  obtain rfl := Option.some.inj (hfound.symm.trans hfound')
  refine ⟨appeal, happeal, hstatus, ?_⟩
  rcases hcase with ⟨_, rfl⟩ | ⟨_, _, hret⟩ | ⟨_, _, hret⟩
  · exact ⟨rfl, rfl, rfl, rfl, rfl⟩
  · exact .returned hret ⟨rfl, rfl, rfl, rfl, rfl⟩
  · exact .forfeited hret ⟨rfl, rfl, rfl, rfl, rfl⟩

/-! ## operations on escrows and disputes that slash nobody -/

theorem penal_cancelAs {runtime : YieldRuntime} {strategy : Option CancelStrategy}
    {agree : Except Failure World} (hagree : ∀ w₁, agree = .ok w₁ → w₁.penal = w.penal)
    (hok : w.cancelAs runtime workflowId strategy agree = .ok w') : w'.penal = w.penal := by
  unfold World.cancelAs at hok
  obtain ⟨_, hok⟩ := refuse_eq_ok.mp hok
  split at hok
  · obtain ⟨et, hfin⟩ := finalize_core hok
    exact penal_of_finalized hfin
  · obtain ⟨w₁, h₁, hok⟩ := bind_eq_ok.mp hok
    split at hok
    · obtain ⟨et, hfin⟩ := finalize_core hok
      exact (penal_of_finalized hfin).trans (hagree w₁ h₁)
    · exact Except.ok.inj hok ▸ hagree w₁ h₁

theorem penal_senderCancel {runtime : YieldRuntime} {caller : Address}
    {strategy : Option CancelStrategy}
    (hok : w.senderCancel runtime workflowId caller strategy = .ok w') : w'.penal = w.penal := by
  unfold World.senderCancel at hok
  split at hok
  · cases hok
  · next et het =>
    simp only [refuse_eq_ok] at hok
    refine penal_cancelAs (fun w₁ h₁ => ?_) hok.2.2
    unfold World.setSenderAgreeToCancel at h₁
    rw [het] at h₁
    simp only [refuse_eq_ok, Except.ok.injEq] at h₁
    obtain ⟨_, _, rfl⟩ := h₁
    rfl

theorem penal_recipientCancel {runtime : YieldRuntime} {caller : Address}
    {strategy : Option CancelStrategy}
    (hok : w.recipientCancel runtime workflowId caller strategy = .ok w') : w'.penal = w.penal := by
  unfold World.recipientCancel at hok
  split at hok
  · cases hok
  · next et het =>
    simp only [refuse_eq_ok] at hok
    refine penal_cancelAs (fun w₁ h₁ => ?_) hok.2.2
    unfold World.setRecipientAgreeToCancel at h₁
    rw [het] at h₁
    simp only [refuse_eq_ok, Except.ok.injEq] at h₁
    obtain ⟨_, _, rfl⟩ := h₁
    rfl

theorem penal_release {runtime : YieldRuntime} {caller : Address} {strategy : Option ReleaseStrategy}
    (hok : w.release runtime workflowId caller strategy = .ok w') : w'.penal = w.penal := by
  unfold World.release at hok
  split at hok
  · cases hok
  · simp only [refuse_eq_ok, bind_eq_ok] at hok
    obtain ⟨_, _, _, hok⟩ := hok
    obtain ⟨et, hfin⟩ := finalize_core hok
    exact penal_of_finalized hfin

theorem penal_partialRelease {caller : Address} {amount : ℤ} {strategy : Option ReleaseStrategy}
    (hok : w.partialRelease workflowId caller amount strategy = .ok w') : w'.penal = w.penal := by
  unfold World.partialRelease at hok
  split at hok
  · cases hok
  · next et het =>
    simp only [refuse_eq_ok, bind_eq_ok] at hok
    obtain ⟨_, _, _, _, _, _, w₁, h₁, hok⟩ := hok
    have hpenal := penal_of_core (subHeld_core h₁)
    split at hok
    · simp only [bind_eq_ok, Except.ok.injEq] at hok
      obtain ⟨w₃, h₃, rfl⟩ := hok
      rw [penal_updateTransfer]
      refine Eq.trans ?_ hpenal
      unfold World.applyTransition at h₃
      split at h₃
      · cases h₃
      · simp only [refuse_eq_ok, Except.ok.injEq] at h₃
        rw [← h₃.2]
        rfl
    · rw [← Except.ok.inj hok]
      exact hpenal

theorem penal_raiseDispute {caller : Address} (hok : w.raiseDispute workflowId caller = .ok w') :
    w'.penal = w.penal := by
  unfold World.raiseDispute at hok
  split at hok
  · cases hok
  · cases hok
  · next w₁ et h₁ het =>
    simp only [refuse_eq_ok, Except.ok.injEq] at hok
    obtain ⟨_, _, _, rfl⟩ := hok
    rw [World.incrementResolverCapacity, penal_changeCapacity]
    unfold World.transitionToDisputed at h₁
    rw [het] at h₁
    simp only [refuse_eq_ok, Except.ok.injEq] at h₁
    obtain ⟨_, _, rfl⟩ := h₁
    rfl

theorem penal_rotateDisputeResolver {newResolver : Option Address}
    (hok : w.rotateDisputeResolver workflowId newResolver = .ok w') : w'.penal = w.penal := by
  unfold World.rotateDisputeResolver at hok
  split at hok
  · cases hok
  · simp only [refuse_eq_ok] at hok
    obtain ⟨_, _, hok⟩ := hok
    split at hok
    · cases hok
    · split at hok
      · rw [Except.ok.inj hok]
      · rw [← Except.ok.inj hok, penal_assignResolver]
        rfl

theorem penal_executeResolutionRefused {runtime : YieldRuntime} {caller : Address}
    {resolutionHash : String} {module : Option ResolutionModuleFn}
    (hok : w.executeResolutionRefused runtime workflowId caller resolutionHash module = .ok w') :
    w'.penal = w.penal := by
  unfold World.executeResolutionRefused at hok
  simp only [refuse_eq_ok, bind_eq_ok, Except.ok.injEq] at hok
  obtain ⟨_, _, _, _, w₁, h₁, rfl⟩ := hok
  rw [penal_updateTransfer, penal_of_core (accrueYield_core h₁)]

theorem penal_challengeResolution {caller : Address} {escalation : Option EscalationFn}
    (hok : w.challengeResolution workflowId caller escalation = .ok w') : w'.penal = w.penal := by
  unfold World.challengeResolution at hok
  split at hok
  · cases hok
  · exact penal_takeToNextLevel (refuse_eq_ok.mp hok).2

theorem penal_escalateDispute {caller : Address} {escalation : Option EscalationFn}
    (hok : w.escalateDispute workflowId caller escalation = .ok w') : w'.penal = w.penal := by
  unfold World.escalateDispute at hok
  split at hok
  · cases hok
  · simp only [refuse_eq_ok] at hok
    exact penal_takeToNextLevel hok.2.2

namespace Judged

/-! ## executions -/

theorem moved_execution (h : Judged env R) {slashId : ℕ}
    (hok : w.executeFraudSlash env.hash workflowId slashId = .ok w') :
    Moved R w (w.executionJournal env.hash workflowId slashId) w' := by
  obtain ⟨entry, resolver, w₁, slashed, hfound, hwf, hkind, hstatus, htime, hresolver, hcap, h₁,
    hclean⟩ := executeFraudSlash_ok hok
  unfold World.executionJournal
  rw [hfound, Option.elim_some, hresolver, Option.elim_some, h₁]
  have hexecuted : Moved R w [w.debit w₁ .execution (some slashId) resolver]
      (w.executionDone w₁ resolver slashed.total) := by
    refine fun hkeyed => ⟨?_, h.executed hkeyed
      ⟨hfound, hwf, hkind, hstatus, htime, hresolver, hcap, h₁⟩⟩
    have hslashes := (docket_eq.mp (slashResolverStake_ok h₁).2.2.2.1).2.2.2.2.1
    have hput : (w.putSlash slashId entry.executed).Keyed := hkeyed.putSlash slashId _
    exact hput.of_slashes (congrArg Slashes.pending hslashes)
  exact h.moved_trans hexecuted (h.moved_cleanup hclean)

theorem moved_groupExecution (h : Judged env R) {slashId : ℕ}
    (hok : w.executeFraudGroupSlash env.allocate env.hash workflowId slashId = .ok w') :
    Moved R w (w.groupExecutionJournal env.hash env.allocate workflowId slashId) w' := by
  obtain ⟨entry, allocations, done, hfound, hwf, hkind, hstatus, htime, happeals, hallocate, hdone,
    hclean⟩ := executeFraudGroupSlash_ok hok
  unfold World.groupExecutionJournal
  rw [hfound, Option.elim_some, hallocate]
  dsimp only
  rw [hdone]
  have hexecuted : Moved R w (World.payTurns env.hash workflowId slashId entry w.freezeUntil
      allocations { world := w })
      (done.world.putSlash slashId (entry.groupExecuted done.payments done.blocked)) := by
    refine fun hkeyed => ⟨?_, h.groupExecuted hkeyed
      ⟨hfound, hwf, hkind, hstatus, htime, happeals, hallocate, hdone⟩⟩
    have hworld : done.world.Keyed :=
      hkeyed.of_slashes (congrArg Slashes.pending (payMember_slashes hdone))
    exact hworld.putSlash slashId _
  exact h.moved_trans hexecuted (h.moved_cleanup hclean)

/-! ## steps and runs -/

/-- **What holds around each way slashes and stakes are touched holds around every operation.** -/
theorem step (h : Judged env R) {op : Operation} (hok : Sew.step env w op = .ok w') :
    Moved R w (w.journal env op) w' := by
  cases op with
  | createEscrow =>
    obtain ⟨et, hnew⟩ := createEscrow_ok hok
    exact h.quiet (penal_eq.mpr ⟨hnew.blockTs, hnew.config, by rw [hnew.resolvers], hnew.slashes⟩)
  | release => exact h.quiet (penal_release hok)
  | partialRelease => exact h.quiet (penal_partialRelease hok)
  | senderCancel => exact h.quiet (penal_senderCancel hok)
  | recipientCancel => exact h.quiet (penal_recipientCancel hok)
  | withdrawEscrow =>
    obtain ⟨et, _, _, rfl⟩ := withdrawEscrow_ok hok
    exact h.quiet rfl
  | withdrawFees =>
    obtain ⟨_, _, _, rfl⟩ := withdrawFees_ok.mp hok
    exact h.quiet rfl
  | raiseDispute => exact h.quiet (penal_raiseDispute hok)
  | rotateDisputeResolver => exact h.quiet (penal_rotateDisputeResolver hok)
  | submitEvidence =>
    have hok' := hok
    simp only [Sew.step, World.submitEvidence, refuse_eq_ok, Except.ok.injEq] at hok'
    obtain ⟨_, _, _, rfl⟩ := hok'
    exact h.quiet rfl
  | executeResolution =>
    have hok' := hok
    simp only [Sew.step, World.executeResolution, refuse_eq_ok] at hok'
    exact h.moved_resolution hok'.2.2.2.2.2
  | executeResolutionRefused => exact h.quiet (penal_executeResolutionRefused hok)
  | executePendingSettlement => exact h.moved_pending hok
  | challengeResolution => exact h.quiet (penal_challengeResolution hok)
  | escalateDispute => exact h.quiet (penal_escalateDispute hok)
  | autoCancelDisputedEscrow => exact h.moved_autoCancel hok
  | autoCancelDisputedOnAutoTime => exact h.moved_autoTime hok
  | automateTimedActions => exact h.moved_automate hok
  | proposeFraudSlash =>
    exact fun hkeyed => ⟨hkeyed.insertSlash (proposeFraudSlash_ok hok).2.2, h.proposed hkeyed hok⟩
  | proposeFraudGroupSlash =>
    exact fun hkeyed => ⟨hkeyed.insertSlash (proposeFraudGroupSlash_ok hok).2.2.2.2,
      h.groupProposed hkeyed hok⟩
  | appealSlash =>
    obtain ⟨_, hfound, _⟩ := appealSlash_ok hok
    exact fun hkeyed => ⟨(rewritten_appealSlash hfound hok).keyed hkeyed, h.appealed hkeyed hok⟩
  | resolveAppeal =>
    obtain ⟨_, hfound, _⟩ := resolveAppeal_ok hok
    exact fun hkeyed => ⟨(rewritten_resolveAppeal hfound hok).keyed hkeyed, h.resolved hkeyed hok⟩
  | appealFraudGroupSlash =>
    obtain ⟨_, _, hfound, _⟩ := appealFraudGroupSlash_ok hok
    obtain ⟨_, hwritten⟩ := rewritten_memberAppeal hfound hok
    exact fun hkeyed => ⟨hwritten.keyed hkeyed, h.memberAppealed hkeyed hok⟩
  | resolveFraudGroupAppeal =>
    obtain ⟨_, _, hfound, _⟩ := resolveFraudGroupAppeal_ok hok
    obtain ⟨_, _, _, hwritten⟩ := rewritten_memberResolution hfound hok
    exact fun hkeyed => ⟨hwritten.keyed hkeyed, h.memberResolved hkeyed hok⟩
  | executeFraudSlash => exact h.moved_execution hok
  | executeFraudGroupSlash => exact h.moved_groupExecution hok
  | registerStake =>
    obtain ⟨hpos, _, rfl⟩ := registerStake_ok.mp hok
    exact fun hkeyed => ⟨hkeyed, h.registered hpos⟩
  | withdrawStake =>
    obtain ⟨hpos, hle, rfl⟩ := withdrawStake_ok.mp hok
    exact fun hkeyed => ⟨hkeyed, h.withdrawn hpos hle⟩
  | advanceTime =>
    obtain ⟨htime, rfl⟩ := advanceTime_ok.mp hok
    exact fun hkeyed => ⟨hkeyed, h.advanced htime⟩

/-- **And around every run**, with the events of its accepted operations. -/
theorem run (h : Judged env R) (hkeyed : w.Keyed) (ops : List Operation) :
    R w (emitted (Sew.step env) (World.journal env) w ops) (Runs.run (Sew.step env) w ops) :=
  run_emitted (I := World.Keyed) (fun _ => h.silent rfl) (fun _ _ _ _ _ => h.trans)
    (fun _ _ _ hw hok => h.step hok hw) hkeyed ops

end Judged

end

end PRF.Sew
