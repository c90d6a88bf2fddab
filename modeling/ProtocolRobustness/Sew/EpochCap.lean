import ProtocolRobustness.Library.Windows
import ProtocolRobustness.Sew.AppealBonds
import ProtocolRobustness.Sew.GroupSlash

/-!
# Slashes of an epoch

What a resolver is slashed for by executions is accumulated over epochs, and may not be more than a
share of its stake.  The slash of one resolver starts from nothing in a new epoch; the slash of a
group adds to what is recorded, of whatever epoch that is, and adds the amount that is allocated
where another may be taken.

* `penalties`          what a resolver was slashed for, with the times;
* `EpochsExact`        the records are what accumulates over windows of time, under the cap;
* `World.pays`, `turnsSafe`, `EpochSafe`   the payments that are recorded as they are made;
* `EpochBooks`         the records and the penalties of a run;
* `epochs_exact`       then the records of every run are exact.
-/

namespace PRF.Sew
open Table Fallible Runs Windows

/-! ## penalties -/

/-- the penalty an execution takes of a resolver, with its time -/
def Event.penalty (resolver : Address) : Event → Option (ℤ × ℤ)
  | .debit .execution _ r before _ total | .debit .groupExecution _ r before _ total =>
    if r = resolver then some (before.blockTs, total) else none
  | _ => none

def penalties (resolver : Address) (events : List Event) : List (ℤ × ℤ) :=
  events.filterMap (Event.penalty resolver)

def World.epochDuration (w : World) : ℤ :=
  w.config.params.slashEpochDurationSeconds.getD
    (w.config.params.freezeDurationDays * w.config.params.tickSeconds)

def World.withinCap (w : World) (resolver : Address) : Prop :=
  w.resolvers.epochSlashed resolver * 10000
    ≤ (w.stake resolver + w.resolvers.epochSlashed resolver) * w.config.params.slashEpochCapBps

instance (w : World) (resolver : Address) : Decidable (w.withinCap resolver) :=
  inferInstanceAs (Decidable (_ ≤ _))

/-- what a run records for the epochs -/
structure EpochsExact (env : Environment) (w : World) (ops : List Operation) : Prop where
  /-- at every point of the run -/
  accumulated : ∀ n resolver, Accumulated w.epochDuration (run (step env) w (ops.take n)).blockTs
    (penalties resolver (emitted (step env) (World.journal env) w (ops.take n)))
    ((run (step env) w (ops.take n)).resolvers.epochStart resolver)
    ((run (step env) w (ops.take n)).resolvers.epochSlashed resolver)
  /-- right after each execution -/
  capped : Along (step env) (fun w op => ∀ resolver, penalties resolver (w.journal env op) ≠ [] →
    (after (step env) w op).withinCap resolver) w ops

/-! ## payments that are recorded as they are made -/

section
variable (env : Environment) (hash : Distribution → String)

/-- what is taken for an amount is not more, because of a double -/
def notRoundedUp (amount : ℤ) : Bool := (throughDouble amount).all fun total => total ≤ amount

namespace World
variable (w : World)

/-- no other slash of the resolver is enforced when the slash is executed -/
def enforcesNothing (workflowId slashId : ℕ) (resolver : Address) : Bool :=
  !(w.escrowState workflowId = some .released || w.escrowState workflowId = some .refunded)
    || w.slashes.pending.all fun e => e.1 = slashId || !(w.expiredReversal workflowId e.2)
      || e.2.resolver ≠ some resolver || e.2.amount ≤ 0

/-- a turn of the execution of a group takes something of the member -/
def pays (workflowId : ℕ) (entry : SlashEntry) (row : Address × ℤ) : Bool :=
  (entry.settled row.1).isNone && !entry.stayed row.1
    && !(w.resolverHasOtherActiveDisputes (some row.1) workflowId)
    && row.2 ≤ w.stake row.1
    && ((w.resolverEpochState row.1).2 + row.2) * 10000
      ≤ (w.stake row.1 + (w.resolverEpochState row.1).2) * w.config.params.slashEpochCapBps

/-- the amount goes through a double unchanged, nothing is recorded of an epoch that is over, and no
other slash of the member is enforced -/
def paysSafely (workflowId slashId : ℕ) (row : Address × ℤ) : Bool :=
  throughDouble row.2 = some row.2
    && (w.resolverEpochState row.1).2 = w.resolvers.epochSlashed row.1
    && w.enforcesNothing workflowId slashId row.1

end World

/-- every turn that pays does so safely -/
def turnsSafe (workflowId slashId : ℕ) (entry : SlashEntry) (time : ℤ) :
    List (Address × ℤ) → World.GroupExecution → Bool
  | [], _ => true
  | row :: rows, acc =>
    (!acc.world.pays workflowId entry row || acc.world.paysSafely workflowId slashId row) &&
    match World.payMember hash workflowId entry time acc row with
    | .error _ => true
    | .ok acc' => turnsSafe workflowId slashId entry time rows acc'

/-- **An execution records what it takes**: of a resolver, that the penalty is not rounded up, and of
a group, that its turns are safe. -/
def EpochSafe (w : World) : Operation → Bool
  | .executeFraudSlash workflowId slashId =>
    (w.getSlash slashId).all fun entry => entry.resolver.all fun resolver =>
      notRoundedUp (min (w.stake resolver) entry.amount)
        && w.enforcesNothing workflowId slashId resolver
  | .executeFraudGroupSlash workflowId slashId =>
    (w.getSlash slashId).all fun entry =>
      match env.allocate entry.amount entry.members with
      | .error _ => true
      | .ok rows => turnsSafe env.hash workflowId slashId entry w.freezeUntil rows { world := w }
  | _ => true

end

section
variable {env : Environment} {hash : Distribution → String} {w w' w₁ : World}
  {past j j' : List Event} {workflowId slashId : ℕ} {resolver r : Address} {entry : SlashEntry}
  {config : Config} {slashed : World.Slashed}

theorem penalties_append (resolver : Address) (j j' : List Event) :
    penalties resolver (j ++ j') = penalties resolver j ++ penalties resolver j' :=
  List.filterMap_append

theorem resolverEpochState_eq (w : World) (resolver : Address) : w.resolverEpochState resolver
    = opened w.epochDuration w.blockTs (w.resolvers.epochStart resolver)
      (w.resolvers.epochSlashed resolver) := by
  unfold World.resolverEpochState opened
  cases w.resolvers.epochStart resolver <;> rfl

/-- the records of the epochs, and the penalties that were taken -/
structure EpochBooks (config : Config) (past : List Event) (w : World) : Prop where
  config : w.config = config
  accounts : ∀ resolver, Accumulated w.epochDuration w.blockTs (penalties resolver past)
    (w.resolvers.epochStart resolver) (w.resolvers.epochSlashed resolver)
  coverage : ∀ senior, 0 ≤ w.resolvers.reservedCoverage senior

/-- what executions are decided by, besides slashes, disputes and stakes -/
structure SameEpochs (w w' : World) : Prop where
  config : w'.config = w.config
  blockTs : w'.blockTs = w.blockTs
  epochStart : w'.resolvers.epochStart = w.resolvers.epochStart
  epochSlashed : w'.resolvers.epochSlashed = w.resolvers.epochSlashed
  coverage : (∀ senior, 0 ≤ w.resolvers.reservedCoverage senior) →
    ∀ senior, 0 ≤ w'.resolvers.reservedCoverage senior

namespace SameEpochs

theorem refl (w : World) : SameEpochs w w := ⟨rfl, rfl, rfl, rfl, fun h => h⟩

theorem trans (h₁ : SameEpochs w w₁) (h₂ : SameEpochs w₁ w') : SameEpochs w w' where
  config := h₂.config.trans h₁.config
  blockTs := h₂.blockTs.trans h₁.blockTs
  epochStart := h₂.epochStart.trans h₁.epochStart
  epochSlashed := h₂.epochSlashed.trans h₁.epochSlashed
  coverage h := h₂.coverage (h₁.coverage h)

theorem of_resolvers (hresolvers : w'.resolvers = w.resolvers) (hdesk : w'.desk = w.desk) :
    SameEpochs w w' := by
  obtain ⟨hts, hconfig, _⟩ := desk_eq.mp hdesk
  exact ⟨hconfig, hts, by rw [hresolvers], by rw [hresolvers], fun h => by rw [hresolvers]; exact h⟩

end SameEpochs

theorem EpochBooks.same (h : EpochBooks config past w) (hsame : SameEpochs w w')
    (hj : ∀ resolver, penalties resolver j = []) : EpochBooks config (past ++ j) w' where
  config := hsame.config.trans h.config
  accounts resolver := by
    unfold World.epochDuration
    rw [hsame.config, hsame.blockTs, hsame.epochStart, hsame.epochSlashed, penalties_append, hj,
      List.append_nil]
    exact h.accounts resolver
  coverage := hsame.coverage h.coverage

/-! ## slashes of a stake -/

theorem coverageShare_bounds (hcoverage : ∀ senior, 0 ≤ w.resolvers.reservedCoverage senior)
    {total : ℤ} (htotal : 0 ≤ total) :
    0 ≤ w.coverageShare resolver total ∧ w.coverageShare resolver total ≤ total := by
  unfold World.coverageShare
  split
  · exact ⟨le_min htotal (hcoverage _), min_le_left _ _⟩
  · exact ⟨le_rfl, htotal⟩

theorem slash_coverage (hcoverage : ∀ senior, 0 ≤ w.resolvers.reservedCoverage senior)
    (total : ℤ) (senior : Address) :
    0 ≤ (w.resolvers.slash resolver total
      (w.coverageShare resolver total)).reservedCoverage senior := by
  unfold Resolvers.slash World.coverageShare
  dsimp only
  cases w.resolvers.senior resolver with
  | none => exact hcoverage senior
  | some s =>
    dsimp only
    split
    · rw [addAt_apply]
      split
      · next hsenior =>
        have hshare := min_le_right total (w.resolvers.reservedCoverage s)
        rw [← hsenior]
        omega
      · exact hcoverage senior
    · exact hcoverage senior

variable {amount bountyBps : ℤ} {challenger : Option Address} {skip : Bool}

theorem slashResolverStake_epochs
    (h : w.slashResolverStake hash resolver amount challenger bountyBps workflowId skip
      = .ok (w₁, slashed)) : SameEpochs w w₁ := by
  obtain ⟨_, _, hresolvers, hdocket, _⟩ := slashResolverStake_ok h
  obtain ⟨hts, hconfig, _⟩ := docket_eq.mp hdocket
  refine ⟨hconfig, hts, by rw [hresolvers]; rfl, by rw [hresolvers]; rfl, fun hcoverage => ?_⟩
  rw [hresolvers]
  exact slash_coverage hcoverage slashed.total

theorem slashResolverStake_others
    (h : w.slashResolverStake hash resolver amount challenger bountyBps workflowId skip
      = .ok (w₁, slashed)) (hr : r ≠ resolver) : w₁.stake r = w.stake r := by
  unfold World.stake
  rw [(slashResolverStake_ok h).2.2.1]
  unfold Resolvers.slash
  dsimp only
  rw [addAt_apply, if_neg (Ne.symm hr)]

theorem withinCap_arith {stake recorded total bound share cap : ℤ} (hstake : 0 ≤ stake)
    (hrecorded : 0 ≤ recorded) (htotal : 0 ≤ total) (hbound : total ≤ bound) (hshare : 0 ≤ share)
    (hcap : 0 < stake + recorded → (recorded + bound) * 10000 ≤ (stake + recorded) * cap)
    (hempty : stake = 0 → total = 0 ∧ share = 0) :
    (recorded + total) * 10000 ≤ (stake - (total - share) + (recorded + total)) * cap := by
  rcases (add_nonneg hstake hrecorded).lt_or_eq with hpos | hzero
  · have hchecked := hcap hpos
    have hcappos : 0 ≤ cap := by
      by_contra hneg
      have := mul_neg_of_pos_of_neg hpos (not_le.mp hneg)
      omega
    have hcovered := mul_nonneg hshare hcappos
    calc (recorded + total) * 10000 ≤ (recorded + bound) * 10000 := by omega
      _ ≤ (stake + recorded) * cap := hchecked
      _ ≤ (stake + recorded) * cap + share * cap := by omega
      _ = (stake - (total - share) + (recorded + total)) * cap := by ring
  · obtain ⟨rfl, rfl⟩ := hempty (by omega)
    have hnone : recorded = 0 := by omega
    have hstake0 : stake = 0 := by omega
    rw [hnone, hstake0]
    omega

/-- **A payment is recorded as it is made**: what is recorded is what accumulates, under the cap. -/
theorem EpochBooks.pay (h : EpochBooks config past w) (w₀ : World) (time : ℤ) {bound : ℤ}
    (hw₀ : w₀.resolvers = w.resolvers) (hdesk : w₀.desk = w.desk)
    (h₁ : w₀.slashResolverStake hash resolver amount challenger bountyBps workflowId skip
      = .ok (w₁, slashed))
    (hbound : slashed.total ≤ bound)
    (hcap : 0 < w.stake resolver + (w.resolverEpochState resolver).2 →
      ((w.resolverEpochState resolver).2 + bound) * 10000
        ≤ (w.stake resolver + (w.resolverEpochState resolver).2)
          * w.config.params.slashEpochCapBps)
    (hj : penalties resolver j = [(w.blockTs, slashed.total)] ∨
      slashed.total = 0 ∧ penalties resolver j = [])
    (hothers : ∀ r, r ≠ resolver → penalties r j = []) :
    EpochBooks config (past ++ j)
      ((w₁.freeze resolver time).setEpoch resolver (w.resolverEpochState resolver).1
        ((w.resolverEpochState resolver).2 + slashed.total)) ∧
    ((w₁.freeze resolver time).setEpoch resolver (w.resolverEpochState resolver).1
      ((w.resolverEpochState resolver).2 + slashed.total)).withinCap resolver := by
  have hsame := (SameEpochs.of_resolvers hw₀ hdesk).trans (slashResolverStake_epochs h₁)
  have htotal := slashResolverStake_nonneg h₁
  have hslashable := (slashResolverStake_ok h₁).1
  obtain ⟨hstake, hamount⟩ := slashableAmount_nonneg htotal hslashable
  have hstake' : w₀.stake resolver = w.stake resolver := congrFun (congrArg Resolvers.stakes hw₀) _
  have hshare : 0 ≤ w₀.coverageShare resolver slashed.total ∧
      w₀.coverageShare resolver slashed.total ≤ slashed.total :=
    coverageShare_bounds (by rw [hw₀]; exact h.coverage) htotal
  have hopened := (h.accounts resolver).opens
  rw [← resolverEpochState_eq] at hopened
  constructor
  · refine ⟨hsame.config.trans h.config, fun r => ?_, hsame.coverage h.coverage⟩
    show Accumulated w₁.epochDuration w₁.blockTs (penalties r (past ++ j))
      (Function.update w₁.resolvers.epochStart resolver _ r)
      (Function.update w₁.resolvers.epochSlashed resolver _ r)
    unfold World.epochDuration
    rw [hsame.config, hsame.blockTs, hsame.epochStart, hsame.epochSlashed, penalties_append]
    by_cases hr : r = resolver
    · rw [hr, Function.update_self, Function.update_self]
      rcases hj with hj | ⟨hzero, hj⟩
      · rw [hj, resolverEpochState_eq]
        exact (h.accounts resolver).add htotal
      · rw [hj, hzero, List.append_nil, add_zero]
        exact hopened
    · rw [hothers r hr, List.append_nil, Function.update_of_ne hr, Function.update_of_ne hr]
      exact h.accounts r
  · have hpaid := (slashResolverStake_debit h₁ rfl).1
    have hcapped := withinCap_arith (hstake' ▸ hstake) hopened.amount_nonneg htotal hbound hshare.1
      hcap fun hempty => ?_
    · unfold World.withinCap
      show Function.update w₁.resolvers.epochSlashed resolver _ resolver * 10000
        ≤ (w₁.stake resolver + Function.update w₁.resolvers.epochSlashed resolver _ resolver)
          * w₁.config.params.slashEpochCapBps
      rw [Function.update_self, hsame.config]
      rw [hstake'] at hpaid
      have hleft : w₁.stake resolver
          = w.stake resolver - (slashed.total - w₀.coverageShare resolver slashed.total) := by omega
      rw [hleft]
      exact hcapped
    · rw [hstake', hempty, slashableAmount_zero hamount, Except.ok.injEq] at hslashable
      omega

/-! ## clean-ups -/

theorem cleanupSlash_epochs {slash : SlashEntry}
    (hok : w.cleanupSlash hash workflowId slashId slash = .ok w') : SameEpochs w w' := by
  rcases cleanupSlash_ok hok with ⟨_, w₁, _, _, _, _, h₁, rfl⟩ | ⟨_, rfl⟩
  · have hsame := slashResolverStake_epochs h₁
    exact ⟨hsame.config, hsame.blockTs, hsame.epochStart, hsame.epochSlashed, hsame.coverage⟩
  · exact ⟨rfl, rfl, rfl, rfl, fun h => h⟩

theorem cleanup_epochs (hok : w.cleanupOrphanedSlashes hash workflowId = .ok w') :
    SameEpochs w w' := by
  unfold World.cleanupOrphanedSlashes at hok
  split at hok
  · exact foldlM_invariant (I := SameEpochs w)
      (fun w₁ e w₂ _ hw₁ hok => hw₁.trans (cleanupSlash_epochs hok)) (SameEpochs.refl w) hok
  · rw [Except.ok.inj hok]
    exact SameEpochs.refl w'

theorem penalties_expiry {slash : Option ℕ} {against : Option Address} :
    penalties r (w.debits w' .expiry slash against) = [] := by
  refine List.filterMap_eq_nil_iff.mpr fun e he => ?_
  obtain ⟨resolver, _, rfl⟩ := mem_debits he
  rfl

theorem penalties_cleanupTurns (l : List (ℕ × SlashEntry)) (w : World) :
    penalties r (World.cleanupTurns hash workflowId l w) = [] := by
  induction l generalizing w with
  | nil => rfl
  | cons e l ih =>
    rw [World.cleanupTurns]
    unfold World.eventsOf
    split
    · rw [penalties_append, penalties_expiry, ih]
      rfl
    · rfl

theorem penalties_cleanupJournal (w : World) :
    penalties r (w.cleanupJournal hash workflowId) = [] := by
  unfold World.cleanupJournal
  split
  · exact penalties_cleanupTurns _ w
  · rfl

/-- the stake of a resolver of whom nothing else is enforced -/
theorem cleanup_stake (w₁ : World) {entry' : SlashEntry}
    (hnothing : w.enforcesNothing workflowId slashId resolver = true) (hdesk : w₁.desk = w.desk)
    (hpending : w₁.slashes.pending = put w.slashes.pending slashId entry')
    (hentry' : ¬ (entry'.status = .pending ∧ entry'.kind = .reversal))
    (hok : w₁.cleanupOrphanedSlashes hash workflowId = .ok w') :
    w'.stake resolver = w₁.stake resolver := by
  obtain ⟨hts, _, hescrows, _⟩ := desk_eq.mp hdesk
  unfold World.cleanupOrphanedSlashes at hok
  split at hok
  · next hover =>
    have hsettled : w.escrowState workflowId = some .released
        ∨ w.escrowState workflowId = some .refunded := by
      unfold World.escrowState World.getTransfer at hover ⊢
      rw [← hescrows]
      exact hover
    unfold World.enforcesNothing at hnothing
    have hall : ∀ e ∈ w.slashes.pending, e.1 ≠ slashId → w.expiredReversal workflowId e.2 = true →
        e.2.resolver = some resolver → e.2.amount ≤ 0 := by
      intro e he hid hexpired hresolver
      simp only [Bool.or_eq_true, decide_eq_true_eq, Bool.not_eq_true', List.all_eq_true] at hnothing
      rcases hnothing with hopen | hnothing
      · rcases hsettled with hstate | hstate <;> simp [hstate] at hopen
      · simpa [hid, hexpired, hresolver] using hnothing e he
    refine foldlM_invariant (I := fun w₂ => w₂.stake resolver = w₁.stake resolver) ?_ rfl hok
    intro w₂ e w₃ he hw₂ hclean
    rw [← hw₂]
    obtain ⟨hmem, hexpired⟩ := List.mem_filter.mp he
    rcases cleanupSlash_ok hclean with ⟨r, w₄, slashed, hr, hamount, _, h₄, rfl⟩ | ⟨_, rfl⟩
    · show w₄.stake resolver = _
      refine slashResolverStake_others h₄ fun heq => ?_
      have hexpired' : w.expiredReversal workflowId e.2 = true := by
        unfold World.expiredReversal at hexpired ⊢
        rw [← hts]
        exact hexpired
      rw [hpending] at hmem
      rcases mem_put hmem with rfl | ⟨hmem, hid⟩
      · unfold World.expiredReversal at hexpired
        simp only [Bool.and_eq_true, decide_eq_true_eq] at hexpired
        exact hentry' ⟨hexpired.1.1.1, hexpired.1.2⟩
      · exact absurd (hall e hmem hid hexpired' (heq ▸ hr)) hamount.not_ge
    · rfl
  · rw [Except.ok.inj hok]

/-! ## executions -/

/-- **The slash of one resolver** is recorded as it is made. -/
theorem epoch_execution (h : EpochBooks config past w)
    (hsafe : EpochSafe env w (.executeFraudSlash workflowId slashId) = true)
    (hok : w.executeFraudSlash env.hash workflowId slashId = .ok w') :
    EpochBooks config (past ++ w.executionJournal env.hash workflowId slashId) w' ∧
    ∀ r, penalties r (w.executionJournal env.hash workflowId slashId) ≠ [] → w'.withinCap r := by
  obtain ⟨entry, resolver, w₁, slashed, hfound, hwf, hkind, hstatus, htime, hresolver, hcap, h₁,
    hclean⟩ := executeFraudSlash_ok hok
  unfold EpochSafe at hsafe
  dsimp only at hsafe
  rw [hfound, Option.all_some, hresolver, Option.all_some, Bool.and_eq_true] at hsafe
  obtain ⟨hdown, hnothing⟩ := hsafe
  have hthrough := slashableAmount_eq (slashResolverStake_nonneg h₁) (slashResolverStake_ok h₁).1
  have hbound : slashed.total ≤ entry.amount := by
    have hstake : (w.putSlash slashId entry.executed).stake resolver = w.stake resolver := rfl
    rw [hstake] at hthrough
    unfold notRoundedUp at hdown
    rw [hthrough, Option.all_some, decide_eq_true_eq] at hdown
    exact hdown.trans (min_le_right _ _)
  have hevent : Event.penalty resolver (w.debit w₁ .execution (some slashId) resolver)
      = some (w.blockTs, slashed.total) := by
    have htotal := (slashResolverStake_debit h₁ rfl).2
    refine (if_pos rfl).trans (congrArg (fun n => some (w.blockTs, n)) ?_)
    exact htotal
  have hpenalty : penalties resolver [w.debit w₁ .execution (some slashId) resolver]
      = [(w.blockTs, slashed.total)] := by
    rw [penalties, List.filterMap_cons, hevent]
    rfl
  have hothers : ∀ r, r ≠ resolver →
      penalties r [w.debit w₁ .execution (some slashId) resolver] = [] := by
    intro r hr
    refine List.filterMap_eq_nil_iff.mpr fun e he => ?_
    rw [List.mem_singleton.mp he]
    exact if_neg (Ne.symm hr)
  obtain ⟨hbooks, hwithin⟩ := h.pay (w.putSlash slashId entry.executed) w.freezeUntil rfl rfl h₁
    hbound hcap (Or.inl hpenalty) hothers
  unfold World.executionJournal
  rw [hfound, Option.elim_some, hresolver, Option.elim_some, h₁]
  dsimp only
  have hsame := cleanup_epochs hclean
  constructor
  · rw [← List.append_assoc]
    exact hbooks.same hsame fun _ => penalties_cleanupJournal _
  · intro r hr
    rw [penalties_append, penalties_cleanupJournal, List.append_nil] at hr
    have hres : r = resolver := by
      by_contra hne
      exact hr (hothers r hne)
    subst hres
    have hdocket := (slashResolverStake_ok h₁).2.2.2.1
    have hpending : w₁.slashes.pending = put w.slashes.pending slashId entry.executed :=
      congrArg Slashes.pending (docket_eq.mp hdocket).2.2.2.2.1
    have hdesk : w₁.desk = (w.putSlash slashId entry.executed).desk := desk_of_docket hdocket
    have hstake := cleanup_stake (w.executionDone w₁ r slashed.total) hnothing hdesk hpending
      (fun hboth => nomatch hboth.1) hclean
    unfold World.withinCap at hwithin ⊢
    rw [hstake, hsame.epochSlashed, hsame.config]
    exact hwithin

variable {acc acc' : World.GroupExecution} {row : Address × ℤ} {rows : List (Address × ℤ)} {time : ℤ}

theorem payMember_pays (hok : World.payMember hash workflowId entry time acc row = .ok acc') :
    acc'.world = acc.world ∨ acc.world.pays workflowId entry row = true ∧
      ∃ (w₁ : World) (slashed : World.Slashed),
        acc.world.slashResolverStake hash row.1 row.2 none 0 workflowId false = .ok (w₁, slashed) ∧
        acc'.world = (w₁.freeze row.1 time).setEpoch row.1 (acc.world.resolverEpochState row.1).1
          (w₁.resolvers.epochSlashed row.1 + row.2) := by
  unfold World.payMember at hok
  dsimp only at hok
  split at hok
  · exact Or.inl (Except.ok.inj hok ▸ rfl)
  · next hprior =>
    split at hok
    · exact Or.inl (Except.ok.inj hok ▸ rfl)
    · next hstayed =>
      split at hok
      · cases hok
      · exact Or.inl (Except.ok.inj hok ▸ rfl)
      · next hfree =>
        obtain ⟨⟨w₁, slashed⟩, h₁, hacc'⟩ := bind_eq_ok.mp hok
        refine Or.inr ⟨?_, w₁, slashed, h₁, Except.ok.inj hacc' ▸ rfl⟩
        have hsettled : entry.settled row.1 = none := hprior
        have hstayed' : entry.stayed row.1 = false := by simpa [SlashEntry.stayed] using hstayed
        split at hfree
        · cases hfree
        · next hblocked =>
          have hcap : ((acc.world.resolverEpochState row.1).2 + row.2) * 10000 ≤ _ :=
            le_of_exceedsEpochCap hfree
          unfold World.pays
          rw [hsettled, hstayed']
          simp only [not_or, not_lt, Bool.not_eq_true] at hblocked
          simp [hblocked, hcap]

/-- what the execution of a group does to the epochs -/
structure GroupRecorded (config : Config) (past : List Event) (workflowId slashId : ℕ)
    (acc : World.GroupExecution) (j : List Event) (acc' : World.GroupExecution) : Prop where
  books : EpochBooks config (past ++ j) acc'.world
  kept : ∀ r, acc.world.withinCap r → acc'.world.withinCap r
  capped : ∀ r, penalties r j ≠ [] → acc'.world.withinCap r
  alone : ∀ r, penalties r j ≠ [] → acc'.world.enforcesNothing workflowId slashId r = true

theorem enforcesNothing_congr (hdocket : w'.docket = w.docket) :
    w'.enforcesNothing workflowId slashId r = w.enforcesNothing workflowId slashId r := by
  obtain ⟨hts, _, hescrows, _, hslashes, _⟩ := docket_eq.mp hdocket
  unfold World.enforcesNothing World.escrowState World.getTransfer World.expiredReversal
  rw [hts, hescrows, hslashes]

/-- **One turn** records what it takes. -/
theorem epoch_turn (slashId : ℕ) (h : EpochBooks config past acc.world)
    (hsafe : acc.world.pays workflowId entry row = true →
      acc.world.paysSafely workflowId slashId row = true)
    (hok : World.payMember hash workflowId entry time acc row = .ok acc') :
    GroupRecorded config past workflowId slashId acc
      (acc.world.debits acc'.world .groupExecution (some slashId) (some row.1)) acc' := by
  have hdocket := payMember_docket hok
  rcases payMember_pays hok with hsame | ⟨hpays, w₁, slashed, h₁, hworld⟩
  · rw [hsame, debits_same rfl]
    refine ⟨?_, fun r hr => hsame ▸ hr, fun r hr => absurd rfl hr, fun r hr => absurd rfl hr⟩
    rw [hsame]
    exact h.same (SameEpochs.refl _) fun r => rfl
  · have hsafely := hsafe hpays
    unfold World.paysSafely at hsafely
    simp only [Bool.and_eq_true, decide_eq_true_eq] at hsafely
    obtain ⟨⟨hthrough, hrecorded⟩, hnothing⟩ := hsafely
    unfold World.pays at hpays
    simp only [Bool.and_eq_true, decide_eq_true_eq] at hpays
    obtain ⟨⟨_, hstake⟩, hcap⟩ := hpays
    have hslashable := (slashResolverStake_ok h₁).1
    have hnonneg := slashableAmount_nonneg (slashResolverStake_nonneg h₁) hslashable
    have htotal : slashed.total = row.2 :=
      Option.some.inj ((slashableAmount_of_le hnonneg.2 hstake hslashable).symm.trans hthrough)
    have hslashed := (slashResolverStake_debit h₁ rfl).2
    have hwritten : w₁.resolvers.epochSlashed row.1 + row.2
        = (acc.world.resolverEpochState row.1).2 + slashed.total := by
      rw [(slashResolverStake_epochs h₁).epochSlashed, hrecorded, htotal]
    rw [hwritten] at hworld
    have hj : penalties row.1 (acc.world.debits acc'.world .groupExecution (some slashId) (some row.1))
          = [(acc.world.blockTs, slashed.total)] ∨
        slashed.total = 0 ∧ penalties row.1
          (acc.world.debits acc'.world .groupExecution (some slashId) (some row.1)) = [] := by
      rw [hworld]
      unfold World.debits
      dsimp only
      split
      · next hsame =>
        refine Or.inr ⟨?_, rfl⟩
        have hunchanged : w₁.resolvers.slashTotal row.1 = acc.world.resolvers.slashTotal row.1 :=
          hsame.2
        omega
      · have hevent : Event.penalty row.1 (acc.world.debit ((w₁.freeze row.1 time).setEpoch row.1
              (acc.world.resolverEpochState row.1).1
              ((acc.world.resolverEpochState row.1).2 + slashed.total)) .groupExecution
              (some slashId) row.1) = some (acc.world.blockTs, slashed.total) := by
          refine (if_pos rfl).trans (congrArg (fun n => some (acc.world.blockTs, n)) ?_)
          exact hslashed
        refine Or.inl ?_
        rw [penalties, List.filterMap_cons, hevent]
        rfl
    have hothers : ∀ r, r ≠ row.1 → penalties r
        (acc.world.debits acc'.world .groupExecution (some slashId) (some row.1)) = [] := by
      intro r hr
      refine List.filterMap_eq_nil_iff.mpr fun e he => ?_
      obtain ⟨_, hrow, rfl⟩ := mem_debits he
      exact if_neg (Option.some.inj hrow ▸ Ne.symm hr)
    obtain ⟨hbooks, hwithin⟩ := h.pay acc.world time rfl rfl h₁ (htotal.le) (fun _ => hcap) hj hothers
    rw [← hworld] at hbooks hwithin
    have honly : ∀ r, penalties r (acc.world.debits acc'.world .groupExecution (some slashId)
        (some row.1)) ≠ [] → r = row.1 := by
      intro r hr
      by_contra hne
      exact hr (hothers r hne)
    refine ⟨hbooks, fun r hr => ?_, fun r hr => honly r hr ▸ hwithin, fun r hr => ?_⟩
    · by_cases hrow : r = row.1
      · exact hrow ▸ hwithin
      · have hsame := slashResolverStake_epochs h₁
        unfold World.withinCap at hr ⊢
        rw [hworld]
        show Function.update w₁.resolvers.epochSlashed row.1 _ r * 10000
          ≤ (w₁.stake r + Function.update w₁.resolvers.epochSlashed row.1 _ r)
            * w₁.config.params.slashEpochCapBps
        rw [Function.update_of_ne hrow, slashResolverStake_others h₁ hrow, hsame.epochSlashed,
          hsame.config]
        exact hr
    · rw [enforcesNothing_congr hdocket, honly r hr]
      exact hnothing

/-- **The turns of a group** record what they take. -/
theorem epoch_turns (h : EpochBooks config past acc.world)
    (hsafe : turnsSafe hash workflowId slashId entry time rows acc = true)
    (hok : rows.foldlM (World.payMember hash workflowId entry time) acc = .ok acc') :
    GroupRecorded config past workflowId slashId acc
      (World.payTurns hash workflowId slashId entry time rows acc) acc' := by
  induction rows generalizing acc past with
  | nil =>
    rw [← Except.ok.inj hok]
    exact ⟨h.same (SameEpochs.refl _) fun r => rfl, fun r hr => hr, fun r hr => absurd rfl hr,
      fun r hr => absurd rfl hr⟩
  | cons row rows ih =>
    rw [List.foldlM_cons, bind_eq_ok] at hok
    obtain ⟨acc₁, h₁, hrest⟩ := hok
    rw [turnsSafe, h₁, Bool.and_eq_true] at hsafe
    obtain ⟨hfirst, hsafe⟩ := hsafe
    have hturn := epoch_turn slashId h (fun hpays => by simpa [hpays] using hfirst) h₁
    have hturns := ih hturn.books hsafe hrest
    rw [World.payTurns, h₁]
    dsimp only
    have hdocket : acc'.world.docket = acc₁.world.docket :=
      foldlM_invariant (I := fun a => a.world.docket = acc₁.world.docket)
        (fun a row a' _ ha hok => (payMember_docket hok).trans ha) rfl hrest
    refine ⟨?_, fun r hr => hturns.kept r (hturn.kept r hr), fun r hr => ?_, fun r hr => ?_⟩
    · rw [← List.append_assoc]
      exact hturns.books
    · rw [penalties_append] at hr
      rcases not_and_or.mp ((not_congr List.append_eq_nil_iff).mp hr) with hr | hr
      · exact hturns.kept r (hturn.capped r hr)
      · exact hturns.capped r hr
    · rw [penalties_append] at hr
      rcases not_and_or.mp ((not_congr List.append_eq_nil_iff).mp hr) with hr | hr
      · rw [enforcesNothing_congr hdocket]
        exact hturn.alone r hr
      · exact hturns.alone r hr

/-- **The slash of a group** is recorded as it is made. -/
theorem epoch_groupExecution (h : EpochBooks config past w)
    (hsafe : EpochSafe env w (.executeFraudGroupSlash workflowId slashId) = true)
    (hok : w.executeFraudGroupSlash env.allocate env.hash workflowId slashId = .ok w') :
    EpochBooks config
      (past ++ w.groupExecutionJournal env.hash env.allocate workflowId slashId) w' ∧
    ∀ r, penalties r (w.groupExecutionJournal env.hash env.allocate workflowId slashId) ≠ [] →
      w'.withinCap r := by
  obtain ⟨entry, rows, done, hfound, _, hkind, _, _, _, hallocated, hdone, hclean⟩ :=
    executeFraudGroupSlash_ok hok
  unfold EpochSafe at hsafe
  dsimp only at hsafe
  rw [hfound, Option.all_some, hallocated] at hsafe
  obtain ⟨hbooks, _, hcapped, halone⟩ := epoch_turns h hsafe hdone
  unfold World.groupExecutionJournal
  rw [hfound, Option.elim_some, hallocated]
  dsimp only
  rw [hdone]
  have hsame := cleanup_epochs hclean
  constructor
  · have hput : EpochBooks config (past ++ World.payTurns env.hash workflowId slashId entry
        w.freezeUntil rows { world := w })
        (done.world.putSlash slashId (entry.groupExecuted done.payments done.blocked)) :=
      ⟨hbooks.config, hbooks.accounts, hbooks.coverage⟩
    rw [← List.append_assoc]
    exact hput.same hsame fun _ => penalties_cleanupJournal _
  · intro r hr
    rw [penalties_append, penalties_cleanupJournal, List.append_nil] at hr
    have hstake := cleanup_stake (done.world.putSlash slashId
      (entry.groupExecuted done.payments done.blocked)) (halone r hr) rfl rfl
      (fun hboth => by rw [SlashEntry.groupExecuted, hkind] at hboth; nomatch hboth.2) hclean
    have hwithin := hcapped r hr
    unfold World.withinCap at hwithin ⊢
    rw [hstake, hsame.epochSlashed, hsame.config]
    exact hwithin

/-! ## steps and runs -/

theorem quiet_slashes (hok : w.insertSlash entry = .ok w') : SameEpochs w w' := by
  have hdesk := insertSlash_desk hok
  obtain ⟨_, _, _, _, rfl⟩ := insertSlash_ok.mp hok
  exact .of_resolvers rfl hdesk

theorem epoch_step (h : EpochBooks config past w) {op : Operation} (hon : op.onSlashes = true)
    (hsafe : EpochSafe env w op = true) (hok : step env w op = .ok w') :
    EpochBooks config (past ++ w.journal env op) w' ∧
    ∀ r, penalties r (w.journal env op) ≠ [] → w'.withinCap r := by
  have hquiet : ∀ {j : List Event}, (∀ r, penalties r j = []) → SameEpochs w w' →
      EpochBooks config (past ++ j) w' ∧ ∀ r, penalties r j ≠ [] → w'.withinCap r :=
    fun hj hsame => ⟨h.same hsame hj, fun r hr => absurd (hj r) hr⟩
  cases op with
  | proposeFraudSlash => exact hquiet (fun _ => rfl) (quiet_slashes (proposeFraudSlash_ok hok).2.2)
  | proposeFraudGroupSlash =>
    exact hquiet (fun _ => rfl) (quiet_slashes (proposeFraudGroupSlash_ok hok).2.2.2.2)
  | appealSlash =>
    obtain ⟨_, hfound, _⟩ := appealSlash_ok hok
    exact hquiet (fun _ => rfl)
      (.of_resolvers (rewritten_appealSlash hfound hok).resolvers (appealSlash_desk hok))
  | resolveAppeal =>
    obtain ⟨_, hfound, _⟩ := resolveAppeal_ok hok
    exact hquiet (fun _ => rfl)
      (.of_resolvers (rewritten_resolveAppeal hfound hok).resolvers (resolveAppeal_desk hok))
  | appealFraudGroupSlash =>
    obtain ⟨_, _, hfound, _⟩ := appealFraudGroupSlash_ok hok
    obtain ⟨_, hwritten⟩ := rewritten_memberAppeal hfound hok
    exact hquiet (fun _ => rfl) (.of_resolvers hwritten.resolvers (appealFraudGroupSlash_desk hok))
  | resolveFraudGroupAppeal =>
    obtain ⟨_, _, hfound, _⟩ := resolveFraudGroupAppeal_ok hok
    obtain ⟨_, _, _, hwritten⟩ := rewritten_memberResolution hfound hok
    exact hquiet (fun _ => rfl) (.of_resolvers hwritten.resolvers (resolveFraudGroupAppeal_desk hok))
  | executeFraudSlash => exact epoch_execution h hsafe hok
  | executeFraudGroupSlash => exact epoch_groupExecution h hsafe hok
  | registerStake =>
    obtain ⟨_, _, rfl⟩ := registerStake_ok.mp hok
    exact hquiet (fun _ => rfl) ⟨rfl, rfl, rfl, rfl, fun hcoverage => hcoverage⟩
  | withdrawStake =>
    obtain ⟨_, _, rfl⟩ := withdrawStake_ok.mp hok
    exact hquiet (fun _ => rfl) ⟨rfl, rfl, rfl, rfl, fun hcoverage => hcoverage⟩
  | advanceTime time =>
    obtain ⟨htime, rfl⟩ := advanceTime_ok.mp hok
    have hj : w.journal env (.advanceTime time) = [] := rfl
    rw [hj, List.append_nil]
    exact ⟨⟨h.config, fun r => (h.accounts r).advance htime, h.coverage⟩, fun r hr => absurd rfl hr⟩
  | _ => cases hon

theorem epoch_run (h : EpochBooks config past w) {ops : List Operation}
    (hon : ∀ op ∈ ops, op.onSlashes = true)
    (hsafe : Along (step env) (fun w op => EpochSafe env w op = true) w ops) :
    EpochBooks config (past ++ emitted (step env) (World.journal env) w ops)
      (run (step env) w ops) ∧
    Along (step env) (fun w op => ∀ r, penalties r (w.journal env op) ≠ [] →
      (after (step env) w op).withinCap r) w ops := by
  induction ops generalizing w past with
  | nil =>
    rw [emitted, List.append_nil]
    exact ⟨h, trivial⟩
  | cons op ops ih =>
    obtain ⟨hop, hops⟩ := List.forall_mem_cons.mp hon
    rw [run_cons, emitted]
    rcases after_cases (step env) w op with ⟨w₁, hstep, hafter⟩ | ⟨hno, hafter⟩
    · have hok : (step env w op).isOk = true := by
        rw [hstep]
        rfl
      obtain ⟨hbooks, hcapped⟩ := epoch_step h hop (hsafe.1 hok) hstep
      have hrest := hsafe.2
      rw [hafter] at hrest ⊢
      obtain ⟨hrun, halong⟩ := ih hbooks hops hrest
      rw [if_pos hok, ← List.append_assoc]
      refine ⟨hrun, fun _ r hr => ?_, ?_⟩
      · rw [hafter]
        exact hcapped r hr
      · rw [hafter]
        exact halong
    · have hrest := hsafe.2
      rw [hafter] at hrest ⊢
      obtain ⟨hrun, halong⟩ := ih h hops hrest
      rw [if_neg hno, List.nil_append]
      refine ⟨hrun, fun hok => absurd hok hno, ?_⟩
      rw [hafter]
      exact halong

/-- **When executions record what they take, the records of the epochs are exact**, in every run of
operations on slashes and stakes. -/
theorem epochs_exact (env : Environment) (hstart : ∀ r, w.resolvers.epochStart r = none)
    (hnothing : ∀ r, w.resolvers.epochSlashed r = 0)
    (hcoverage : ∀ senior, 0 ≤ w.resolvers.reservedCoverage senior) {ops : List Operation}
    (hon : ∀ op ∈ ops, op.onSlashes = true)
    (hsafe : Along (step env) (fun w op => EpochSafe env w op = true) w ops) :
    EpochsExact env w ops := by
  have hbooks : EpochBooks w.config [] w := by
    refine ⟨rfl, fun r => ?_, hcoverage⟩
    rw [hstart, hnothing]
    exact Accumulated.fresh _ _
  refine ⟨fun n r => ?_, (epoch_run hbooks hon hsafe).2⟩
  have hrun := (epoch_run hbooks (fun op hop => hon op (List.mem_of_mem_take hop))
    (hsafe.take n)).1
  have haccount := hrun.accounts r
  unfold World.epochDuration at haccount
  rw [hrun.config] at haccount
  exact haccount

end

/-- a slash of the judge, and from a time on another one as a group -/
def slashedAgain (time : ℤ) : List Operation :=
  [.proposeFraudSlash 0 (some "gov") "judge" 100, .advanceTime 101, .executeFraudSlash 0 0,
    .advanceTime time, .proposeFraudGroupSlash 0 (some "gov") ["judge"] 100 true,
    .advanceTime (time + 101), .executeFraudGroupSlash 0 1]

theorem epochs_exact_slashedAgain :
    EpochsExact allocatingEnvironment (judgedTogether 10000 0) (slashedAgain 200) :=
  epochs_exact allocatingEnvironment (fun _ => rfl) (fun _ => rfl) (fun _ => le_rfl) (by decide)
    (by decide +kernel)

/-- In the epoch that begins with the second slash 100 is taken, and 200 is recorded. -/
theorem epochs_exact_counterexample :
    ¬ EpochsExact allocatingEnvironment (judgedTogether 10000 0) (slashedAgain 300000) := by
  rintro ⟨haccumulated, _⟩
  have hlast := haccumulated 7 "judge"
  have hsum := hlast.sum_since (s := 300101) (by decide) (by decide +kernel)
  revert hsum
  decide +kernel

end PRF.Sew
