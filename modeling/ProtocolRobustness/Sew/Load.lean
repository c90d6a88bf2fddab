import ProtocolRobustness.Sew.Protocol
import ProtocolRobustness.Sew.SlashOps

/-!
# The load of the resolvers

A resolver with a capacity counts its active disputes.  Disputes are raised, handed on and ended in
different places; the counter is right after every run because each of these changes what one escrow
counts for, and the counter with it.

* `World.activeDisputes`    the disputed escrows of a resolver;
* `Counted`                 every counter is the number of these escrows;
* `Counted.change`          a change of one escrow with the matching change of the counters;
* `step_counted`            every operation keeps the counters right;
* `resolver_load_exact`     and so does every run.
-/

namespace PRF.Sew
open Table Fallible Runs

/-- the resolver in charge of a disputed escrow -/
def Transfer.inCharge (et : Transfer) : Option Address :=
  if et.escrowState = .disputed then et.disputeResolver else none

namespace World
variable (w : World)

/-- the disputed escrows whose dispute resolver is the given one -/
def activeDisputes (resolver : Address) : List (ℕ × Transfer) :=
  w.escrows.transfers.filter fun e =>
    e.2.escrowState = .disputed && e.2.disputeResolver = some resolver

/-- the resolver in charge of a workflow -/
def inCharge (workflowId : ℕ) : Option Address := (w.getTransfer workflowId).bind Transfer.inCharge

/-- what an escrow counts for a resolver -/
def countsFor (resolver : Address) (charge : Option Address) : ℤ :=
  if charge = some resolver then 1 else 0

/-- the number of active disputes, as a sum over the escrows -/
def load (resolver : Address) : ℤ :=
  sumBy (fun _ et => countsFor resolver et.inCharge) w.escrows.transfers

end World

/-- **Every counter is the number of active disputes.**  The ids of the escrows are distinct and
below the next one. -/
structure Counted (w : World) : Prop where
  nodup : (w.escrows.transfers.map Prod.fst).Nodup
  fresh : ∀ workflowId, w.escrows.nextWorkflowId ≤ workflowId → w.getTransfer workflowId = none
  count : ∀ resolver c, w.resolvers.capacities resolver = some c → c.currentActive = w.load resolver

section
variable {w w' : World} {workflowId : ℕ} {et et' : Transfer} {resolver : Address}

theorem load_eq_length (w : World) (resolver : Address) :
    w.load resolver = (w.activeDisputes resolver).length := by
  unfold World.load World.activeDisputes World.countsFor Transfer.inCharge
  induction w.escrows.transfers with
  | nil => rfl
  | cons e m ih =>
    rw [sumBy_cons, ih, List.filter_cons]
    by_cases hstate : e.2.escrowState = .disputed
    · by_cases hresolver : e.2.disputeResolver = some resolver
      · simp [hstate, hresolver, add_comm]
      · simp [hstate, hresolver]
    · simp [hstate]

theorem countsFor_nonneg (resolver : Address) (charge : Option Address) :
    0 ≤ World.countsFor resolver charge := by
  unfold World.countsFor
  split <;> omega

theorem entryBy_inCharge (w : World) (workflowId : ℕ) (resolver : Address) :
    entryBy (fun _ et => World.countsFor resolver et.inCharge) w.escrows.transfers workflowId
      = World.countsFor resolver (w.inCharge workflowId) := by
  unfold entryBy World.inCharge World.getTransfer World.countsFor
  cases find w.escrows.transfers workflowId <;> simp

theorem one_le_load (h : w.inCharge workflowId = some resolver) : 1 ≤ w.load resolver := by
  unfold World.inCharge at h
  obtain ⟨et, het, hcharge⟩ := Option.bind_eq_some_iff.mp h
  have hone : World.countsFor resolver et.inCharge = 1 := by
    rw [hcharge]
    exact if_pos rfl
  have hle := le_sumBy (f := fun _ (et : Transfer) => World.countsFor resolver et.inCharge)
    (fun e _ => countsFor_nonneg resolver e.2.inCharge) (mem_of_find het)
  exact hone ▸ hle

/-! ## changes -/

/-- only the escrows, the next id and the capacities count -/
theorem Counted.frame (h : Counted w) (htransfers : w'.escrows.transfers = w.escrows.transfers)
    (hnext : w'.escrows.nextWorkflowId = w.escrows.nextWorkflowId)
    (hcapacities : w'.resolvers.capacities = w.resolvers.capacities) : Counted w' := by
  refine ⟨htransfers ▸ h.nodup, fun wf hwf => ?_, fun r c hc => ?_⟩
  · rw [World.getTransfer, htransfers]
    exact h.fresh wf (hnext ▸ hwf)
  · rw [World.load, htransfers]
    exact h.count r c (hcapacities ▸ hc)

theorem Counted.of_desk (h : Counted w) (hdesk : w'.desk = w.desk) : Counted w' := by
  obtain ⟨_, _, hescrows, _, hcapacities⟩ := desk_eq.mp hdesk
  exact h.frame (by rw [hescrows]) (by rw [hescrows]) hcapacities

/-- **One escrow changes, and the counters follow** what it counts for. -/
theorem Counted.change (h : Counted w) (et' : Transfer)
    (htransfers : w'.escrows.transfers = put w.escrows.transfers workflowId et')
    (hnext : w.escrows.nextWorkflowId ≤ w'.escrows.nextWorkflowId)
    (hknown : workflowId < w'.escrows.nextWorkflowId)
    (hcapacities : ∀ r c', w'.resolvers.capacities r = some c' → ∃ c,
      w.resolvers.capacities r = some c ∧ c'.currentActive = c.currentActive
        - World.countsFor r (w.inCharge workflowId) + World.countsFor r et'.inCharge) :
    Counted w' := by
  refine ⟨htransfers ▸ nodup_put h.nodup workflowId et', fun wf hwf => ?_, fun r c' hc' => ?_⟩
  · rw [World.getTransfer, htransfers, find_put, if_neg (by omega)]
    exact h.fresh wf (by omega)
  · obtain ⟨c, hc, hcount⟩ := hcapacities r c' hc'
    rw [hcount, h.count r c hc, World.load, World.load, htransfers, sumBy_put h.nodup,
      entryBy_inCharge]

/-- an escrow changes that counts for the same resolver as before -/
theorem Counted.same (h : Counted w) (et' : Transfer)
    (htransfers : w'.escrows.transfers = put w.escrows.transfers workflowId et')
    (hnext : w.escrows.nextWorkflowId ≤ w'.escrows.nextWorkflowId)
    (hknown : workflowId < w'.escrows.nextWorkflowId)
    (hcapacities : w'.resolvers.capacities = w.resolvers.capacities)
    (hcharge : w.inCharge workflowId = et'.inCharge) : Counted w' := by
  refine h.change et' htransfers hnext hknown fun r c' hc' => ⟨c', hcapacities ▸ hc', ?_⟩
  rw [hcharge, sub_add_cancel]

theorem Counted.known (h : Counted w) (het : w.getTransfer workflowId = some et) :
    workflowId < w.escrows.nextWorkflowId := by
  by_contra hge
  rw [h.fresh workflowId (not_lt.mp hge)] at het
  cases het

theorem inCharge_of_some (het : w.getTransfer workflowId = some et) :
    w.inCharge workflowId = et.inCharge := by
  rw [World.inCharge, het]
  rfl

theorem Counted.putTransfer (h : Counted w) (het : w.getTransfer workflowId = some et)
    (hcharge : et.inCharge = et'.inCharge) : Counted (w.putTransfer workflowId et') := by
  refine h.same et' ?_ le_rfl (h.known het) rfl ((inCharge_of_some het).trans hcharge)
  rfl

theorem Counted.updateTransfer (h : Counted w) {f : Transfer → Transfer}
    (hf : ∀ et, (f et).inCharge = et.inCharge) : Counted (w.updateTransfer workflowId f) := by
  unfold World.updateTransfer
  split
  · exact h
  · next et het => exact h.putTransfer het (hf et).symm

theorem getTransfer_updateTransfer (w : World) (workflowId : ℕ) (f : Transfer → Transfer) :
    (w.updateTransfer workflowId f).getTransfer workflowId = (w.getTransfer workflowId).map f := by
  unfold World.updateTransfer
  split
  · next het => rw [het, Option.map_none]
  · next et het => rw [getTransfer_putTransfer, if_pos rfl, het, Option.map_some]

/-! ## counters -/

theorem capacities_changeCapacity (w : World) (assigned : Option Address) (f : ℤ → ℤ) (r : Address) :
    (w.changeCapacity assigned f).resolvers.capacities r
      = (w.resolvers.capacities r).map fun c =>
        if assigned = some r then { c with currentActive := f c.currentActive } else c := by
  unfold World.changeCapacity
  cases assigned with
  | none => simp
  | some a =>
    by_cases hr : a = r
    · subst hr
      simp
    · simp [Function.update_of_ne (Ne.symm hr), hr]

theorem escrows_changeCapacity (w : World) (assigned : Option Address) (f : ℤ → ℤ) :
    (w.changeCapacity assigned f).escrows = w.escrows := by
  cases assigned <;> rfl

theorem count_decrement (h : Counted w) {charge : Option Address}
    (hcharge : w.inCharge workflowId = charge) {r : Address} {c : Capacity} (hc : w.resolvers.capacities r = some c) :
    (if charge = some r then max 0 (c.currentActive - 1) else c.currentActive)
      = c.currentActive - World.countsFor r charge := by
  unfold World.countsFor
  by_cases hr : charge = some r
  · have hpos := one_le_load (hcharge.trans hr)
    have hcount := h.count r c hc
    rw [if_pos hr, if_pos hr]
    omega
  · rw [if_neg hr, if_neg hr, sub_zero]

/-! ## settlements -/

theorem inCharge_of_not_disputed (h : et.escrowState ≠ .disputed) : et.inCharge = none := if_neg h

theorem inCharge_of_disputed (h : et.escrowState = .disputed) : et.inCharge = et.disputeResolver :=
  if_pos h

theorem inCharge_ended (et : Transfer) (direction : Direction) :
    (et.ended direction).inCharge = none := by
  cases direction <;> rfl

/-- the settlement of an escrow without a dispute -/
theorem Counted.finalized (h : Counted w) {direction : Direction}
    (hfin : Finalized w w' workflowId direction et) (hstate : et.escrowState ≠ .disputed) :
    Counted w' := by
  refine h.same (et.ended direction) (by rw [hfin.escrows]) (by rw [hfin.escrows]) ?_
    (by rw [hfin.resolvers])
    ((inCharge_of_some hfin.found).trans ?_)
  · rw [hfin.escrows]
    exact h.known hfin.found
  · rw [inCharge_of_not_disputed hstate, inCharge_ended]

theorem Counted.finalizedDispute (h : Counted w) {direction : Direction} {w₁ : World}
    (hfin : Finalized w w₁ workflowId direction et) (hstate : et.escrowState = .disputed)
    (hdesk : w'.desk = w₁.desk) : Counted (w'.decrementResolverCapacity et.disputeResolver) := by
  obtain ⟨_, _, hescrows, _, hcapacities⟩ := desk_eq.mp hdesk
  have hescrows' : (w'.decrementResolverCapacity et.disputeResolver).escrows
      = { w.escrows with transfers := put w.escrows.transfers workflowId (et.ended direction) } := by
    rw [World.decrementResolverCapacity, escrows_changeCapacity, hescrows, hfin.escrows]
  have hcharge : w.inCharge workflowId = et.disputeResolver :=
    (inCharge_of_some hfin.found).trans (inCharge_of_disputed hstate)
  refine h.change (et.ended direction) (by rw [hescrows']) (by rw [hescrows']) ?_ ?_
  · rw [hescrows']
    exact h.known hfin.found
  · intro r c' hc'
    rw [World.decrementResolverCapacity, capacities_changeCapacity, hcapacities, hfin.resolvers,
      Option.map_eq_some_iff] at hc'
    obtain ⟨c, hc, rfl⟩ := hc'
    refine ⟨c, hc, ?_⟩
    rw [hcharge, inCharge_ended, ← count_decrement h hcharge hc]
    split <;> simp [World.countsFor]

theorem Counted.assignResolver (h : Counted w) (het : w.getTransfer workflowId = some et)
    (hstate : et.escrowState = .disputed) (next : Address) :
    Counted (w.assignResolver workflowId et.disputeResolver next) := by
  have hcharge : w.inCharge workflowId = et.disputeResolver :=
    (inCharge_of_some het).trans (inCharge_of_disputed hstate)
  have hescrows : (w.assignResolver workflowId et.disputeResolver next).escrows
      = (w.putTransfer workflowId { et with disputeResolver := some next }).escrows := by
    rw [World.assignResolver, World.incrementResolverCapacity, World.decrementResolverCapacity,
      escrows_changeCapacity, escrows_changeCapacity, updateTransfer_some het]
  have hnew : ({ et with disputeResolver := some next } : Transfer).inCharge = some next :=
    if_pos hstate
  refine h.change { et with disputeResolver := some next } (by rw [hescrows]; rfl)
    (by rw [hescrows]; rfl) ?_ ?_
  · rw [hescrows]
    exact h.known het
  · intro r c' hc'
    rw [World.assignResolver, World.incrementResolverCapacity, World.decrementResolverCapacity,
      capacities_changeCapacity, capacities_changeCapacity, updateTransfer_some het,
      Option.map_map, Option.map_eq_some_iff] at hc'
    obtain ⟨c, hc, rfl⟩ := hc'
    refine ⟨c, hc, ?_⟩
    have hdown := count_decrement h hcharge hc
    rw [hcharge, hnew, ← hdown]
    unfold World.countsFor
    simp only [Function.comp]
    split <;> split <;> simp

/-! ## the operations -/

variable {runtime : YieldRuntime} {hash : Distribution → String}

theorem Counted.created (h : Counted w) {settings : Settings} {snapshot : Snapshot}
    (hnew : Created w w' et settings snapshot) : Counted w' := by
  refine h.same et (by rw [hnew.escrows]) (by rw [hnew.escrows]; exact Nat.le_succ _)
    (by rw [hnew.escrows]; exact Nat.lt_succ_self _) (by rw [hnew.resolvers]) ?_
  rw [World.inCharge, h.fresh _ le_rfl, inCharge_of_not_disputed (by rw [hnew.pending]; decide)]
  rfl

theorem Counted.of_core (h : Counted w) (hcore : w'.core = w.core) : Counted w' :=
  h.of_desk (desk_of_docket (docket_of_core hcore))

theorem finalize_pending_counted (h : Counted w) (het : w.getTransfer workflowId = some et)
    (hstate : et.escrowState = .pending) {direction : Direction}
    (hok : w.finalize runtime workflowId direction = .ok w') : Counted w' := by
  obtain ⟨et', hfin⟩ := finalize_core hok
  obtain rfl : et' = et := Option.some.inj (hfin.found.symm.trans het)
  exact h.finalized hfin (by rw [hstate]; decide)

theorem release_counted (h : Counted w) {caller : Address} {strategy : Option ReleaseStrategy}
    (hok : w.release runtime workflowId caller strategy = .ok w') : Counted w' := by
  unfold World.release at hok
  split at hok
  · cases hok
  · next et het =>
    simp only [ne_eq, ite_not, require_eq_ok, bind_eq_ok] at hok
    obtain ⟨hstate, _, _, hok⟩ := hok
    exact finalize_pending_counted h het hstate hok

theorem getTransfer_of_core (hcore : w'.core = w.core) (workflowId : ℕ) :
    w'.getTransfer workflowId = w.getTransfer workflowId := by
  rw [World.getTransfer, (core_eq.mp hcore).2.2.1]
  rfl

theorem getTransfer_of_desk (hdesk : w'.desk = w.desk) (workflowId : ℕ) :
    w'.getTransfer workflowId = w.getTransfer workflowId := by
  rw [World.getTransfer, (desk_eq.mp hdesk).2.2.1]
  rfl

theorem partialRelease_counted (h : Counted w) {caller : Address} {amount : ℤ}
    {strategy : Option ReleaseStrategy}
    (hok : w.partialRelease workflowId caller amount strategy = .ok w') : Counted w' := by
  unfold World.partialRelease at hok
  split at hok
  · cases hok
  · next et het =>
    simp only [ne_eq, ite_not, require_eq_ok, refuse_eq_ok, bind_eq_ok] at hok
    obtain ⟨hstate, _, _, _, _, _, w₁, h₁, hok⟩ := hok
    have hcore := subHeld_core h₁
    obtain ⟨_, _, hescrows, _, _, _, hresolvers, _⟩ := core_eq.mp hcore
    have hcounted : Counted w₁ :=
      h.frame (by rw [hescrows]) (by rw [hescrows]) (by rw [hresolvers])
    have het₁ : w₁.getTransfer workflowId = some et := (getTransfer_of_core hcore workflowId).trans het
    set w₂ := (w₁.recordClaimable workflowId .settlementPrincipal et.recipient amount).recordSettled
      et.token .released amount with hw₂
    have hcounted₂ : Counted w₂ := hcounted.of_core rfl
    have het₂ : w₂.getTransfer workflowId = some et := het₁
    have hpending : et.inCharge = none := inCharge_of_not_disputed (by rw [hstate]; decide)
    split at hok
    · simp only [bind_eq_ok, Except.ok.injEq] at hok
      obtain ⟨w₃, h₃, rfl⟩ := hok
      obtain ⟨_, rfl⟩ := (applyTransition_ok het₂).mp h₃
      have hput := getTransfer_putTransfer w₂ workflowId workflowId
        { et with escrowState := .released }
      rw [if_pos rfl] at hput
      rw [updateTransfer_some hput]
      refine Counted.putTransfer (Counted.putTransfer hcounted₂ het₂ ?_) hput ?_
      · rw [hpending]
        rfl
      · rfl
    · rw [← Except.ok.inj hok]
      exact hcounted₂

theorem cancelAs_counted (h : Counted w) {strategy : Option CancelStrategy}
    {agree : Except Failure World} (het : w.getTransfer workflowId = some et)
    (hstate : et.escrowState = .pending)
    (hagree : ∀ w₁, agree = .ok w₁ → Counted w₁ ∧ ∃ et₁, w₁.getTransfer workflowId = some et₁ ∧
      et₁.escrowState = .pending)
    (hok : w.cancelAs runtime workflowId strategy agree = .ok w') : Counted w' := by
  unfold World.cancelAs at hok
  obtain ⟨_, hok⟩ := refuse_eq_ok.mp hok
  split at hok
  · exact finalize_pending_counted h het hstate hok
  · obtain ⟨w₁, h₁, hok⟩ := bind_eq_ok.mp hok
    obtain ⟨hcounted, et₁, het₁, hstate₁⟩ := hagree w₁ h₁
    split at hok
    · exact finalize_pending_counted hcounted het₁ hstate₁ hok
    · rw [← Except.ok.inj hok]
      exact hcounted

theorem putPending_counted (h : Counted w) (het : w.getTransfer workflowId = some et)
    (hstate : et.escrowState = .pending) (hstate' : et'.escrowState = .pending) :
    Counted (w.putTransfer workflowId et') ∧
      ∃ et₁, (w.putTransfer workflowId et').getTransfer workflowId = some et₁ ∧
        et₁.escrowState = .pending := by
  refine ⟨h.putTransfer het ?_, et', ?_, hstate'⟩
  · rw [inCharge_of_not_disputed (by rw [hstate]; decide),
      inCharge_of_not_disputed (by rw [hstate']; decide)]
  · rw [getTransfer_putTransfer, if_pos rfl]

theorem senderCancel_counted (h : Counted w) {caller : Address} {strategy : Option CancelStrategy}
    (hok : w.senderCancel runtime workflowId caller strategy = .ok w') : Counted w' := by
  unfold World.senderCancel at hok
  split at hok
  · cases hok
  · next et het =>
    simp only [ne_eq, ite_not, require_eq_ok] at hok
    obtain ⟨_, hstate, hok⟩ := hok
    refine cancelAs_counted h het hstate (fun w₁ h₁ => ?_) hok
    unfold World.setSenderAgreeToCancel at h₁
    rw [het] at h₁
    simp only [ne_eq, ite_not, require_eq_ok, Except.ok.injEq] at h₁
    obtain ⟨_, _, rfl⟩ := h₁
    exact putPending_counted h het hstate hstate

theorem recipientCancel_counted (h : Counted w) {caller : Address}
    {strategy : Option CancelStrategy}
    (hok : w.recipientCancel runtime workflowId caller strategy = .ok w') : Counted w' := by
  unfold World.recipientCancel at hok
  split at hok
  · cases hok
  · next et het =>
    simp only [ne_eq, ite_not, require_eq_ok] at hok
    obtain ⟨_, hstate, hok⟩ := hok
    refine cancelAs_counted h het hstate (fun w₁ h₁ => ?_) hok
    unfold World.setRecipientAgreeToCancel at h₁
    rw [het] at h₁
    simp only [ne_eq, ite_not, require_eq_ok, Except.ok.injEq] at h₁
    obtain ⟨_, _, rfl⟩ := h₁
    exact putPending_counted h het hstate hstate

/-! ## disputes -/

theorem inCharge_setRaiseDisputeStatus (caller : Address) (et : Transfer) :
    (World.setRaiseDisputeStatus caller { et with escrowState := .disputed }).inCharge
      = et.disputeResolver := by
  unfold World.setRaiseDisputeStatus Transfer.inCharge
  split <;> rfl

theorem raiseDispute_counted (h : Counted w) {caller : Address}
    (hok : w.raiseDispute workflowId caller = .ok w') : Counted w' := by
  unfold World.raiseDispute at hok
  split at hok
  · cases hok
  · cases hok
  · next w₁ et h₁ het =>
    simp only [refuse_eq_ok, Except.ok.injEq] at hok
    obtain ⟨_, _, _, rfl⟩ := hok
    unfold World.transitionToDisputed at h₁
    rw [het] at h₁
    simp only [ne_eq, ite_not, require_eq_ok, refuse_eq_ok, Except.ok.injEq] at h₁
    obtain ⟨hstate, _, rfl⟩ := h₁
    refine h.change _ ((congrArg Escrows.transfers (escrows_changeCapacity _ _ _)).trans rfl)
      ?_ ?_ ?_
    · rw [World.incrementResolverCapacity, escrows_changeCapacity]
      rfl
    · rw [World.incrementResolverCapacity, escrows_changeCapacity]
      exact h.known het
    · intro r c' hc'
      rw [World.incrementResolverCapacity, capacities_changeCapacity, Option.map_eq_some_iff] at hc'
      obtain ⟨c, hc, rfl⟩ := hc'
      refine ⟨c, hc, ?_⟩
      rw [inCharge_of_some het, inCharge_of_not_disputed (by rw [hstate]; decide),
        inCharge_setRaiseDisputeStatus]
      unfold World.countsFor
      split <;> simp

theorem rotateDisputeResolver_counted (h : Counted w) {newResolver : Option Address}
    (hok : w.rotateDisputeResolver workflowId newResolver = .ok w') : Counted w' := by
  unfold World.rotateDisputeResolver at hok
  split at hok
  · cases hok
  · next et het =>
    simp only [ne_eq, ite_not, require_eq_ok, refuse_eq_ok] at hok
    obtain ⟨hstate, _, hok⟩ := hok
    split at hok
    · cases hok
    · next next _ =>
      split at hok
      · exact Except.ok.inj hok ▸ h
      · rw [← Except.ok.inj hok]
        apply Counted.assignResolver
        · exact h.frame rfl rfl rfl
        · exact het
        · exact hstate

theorem submitEvidence_counted (h : Counted w) (hok : w.submitEvidence workflowId = .ok w') :
    Counted w' := by
  unfold World.submitEvidence at hok
  simp only [refuse_eq_ok, Except.ok.injEq] at hok
  obtain ⟨_, _, _, rfl⟩ := hok
  exact h.frame rfl rfl rfl

/-! ## decisions -/

theorem archive_escrows (w : World) (workflowId : ℕ) (reason : SupersedeReason) :
    (w.archiveCurrentPendingSettlement workflowId reason).escrows = w.escrows ∧
      (w.archiveCurrentPendingSettlement workflowId reason).resolvers = w.resolvers := by
  unfold World.archiveCurrentPendingSettlement
  split
  · exact ⟨rfl, rfl⟩
  · exact ⟨rfl, rfl⟩

theorem archive_counted (h : Counted w) (reason : SupersedeReason) :
    Counted (w.archiveCurrentPendingSettlement workflowId reason) := by
  obtain ⟨hescrows, hresolvers⟩ := archive_escrows w workflowId reason
  exact h.frame (by rw [hescrows]) (by rw [hescrows]) (by rw [hresolvers])

theorem settleDispute_counted {hash : Distribution → String} (h : Counted w)
    (het : w.getTransfer workflowId = some et) (hstate : et.escrowState = .disputed)
    {isRelease : Bool} (hok : w.settleDispute runtime hash workflowId isRelease = .ok w') :
    Counted w' := by
  unfold World.settleDispute World.finalizeDispute World.finalizeEscrowAccounting at hok
  simp only [bind_eq_ok, Except.ok.injEq, het, Option.bind_some] at hok
  obtain ⟨w₂, ⟨w₁, h₁, rfl⟩, hok⟩ := hok
  obtain ⟨et₁, hfin⟩ := finalize_core h₁
  obtain rfl : et₁ = et := Option.some.inj (hfin.found.symm.trans het)
  exact (h.finalizedDispute hfin hstate rfl).of_desk (cleanupOrphanedSlashes_desk hok)

theorem recordDecision_counted (h : Counted w) (het : w.getTransfer workflowId = some et)
    (hstate : et.escrowState = .disputed) (caller : Address) (isRelease : Bool)
    (resolutionHash : String) :
    Counted (w.recordDecision workflowId caller isRelease resolutionHash) ∧
      ∃ et', (w.recordDecision workflowId caller isRelease resolutionHash).getTransfer workflowId
        = some et' ∧ et'.escrowState = .disputed := by
  unfold World.recordDecision
  constructor
  · apply Counted.updateTransfer
    · exact h.frame rfl rfl rfl
    · intro et
      rfl
  · rw [getTransfer_updateTransfer]
    exact ⟨_, congrArg (Option.map _) het, hstate⟩

theorem applyResolutionTransition_counted {hash : Distribution → String} (h : Counted w)
    {caller : Address} {isRelease : Bool} {resolutionHash : String}
    (hok : w.applyResolutionTransition runtime hash workflowId caller isRelease resolutionHash
      = .ok w') : Counted w' := by
  unfold World.applyResolutionTransition at hok
  simp only [refuse_eq_ok, bind_eq_ok, not_not] at hok
  obtain ⟨_, hactive, _, w₁, h₁, w₂, h₂, w₃, h₃, hok⟩ := hok
  obtain ⟨et, het, hstate⟩ := disputeActive_iff.mp hactive
  have hcounted₃ : Counted w₃ :=
    (((archive_counted h .newResolution).of_core (accrueYield_core h₁)).of_desk
      (handleReversalSlashing_desk h₂)).of_desk (vindicate_desk h₃)
  have het₃ : w₃.getTransfer workflowId = some et := by
    rw [getTransfer_of_desk (vindicate_desk h₃), getTransfer_of_desk (handleReversalSlashing_desk h₂),
      getTransfer_of_core (accrueYield_core h₁), World.getTransfer, (archive_escrows _ _ _).1]
    exact het
  obtain ⟨hcounted₄, et', het₄, hstate₄⟩ :=
    recordDecision_counted hcounted₃ het₃ hstate caller isRelease resolutionHash
  split at hok
  · exact settleDispute_counted hcounted₄ het₄ hstate₄ hok
  · simp only [bind_eq_ok, Except.ok.injEq] at hok
    obtain ⟨w₅, h₅, rfl⟩ := hok
    exact (hcounted₄.of_desk (desk_of_docket (settleAppealBondOnResolution_docket h₅))).frame rfl
      rfl rfl

theorem executeResolution_counted {hash : Distribution → String} (h : Counted w)
    {caller : Address} {isRelease : Bool} {resolutionHash : String}
    {module : Option ResolutionModuleFn}
    (hok : w.executeResolution runtime hash workflowId caller isRelease resolutionHash module
      = .ok w') : Counted w' := by
  unfold World.executeResolution at hok
  simp only [refuse_eq_ok] at hok
  obtain ⟨_, _, _, _, _, hok⟩ := hok
  exact applyResolutionTransition_counted h hok

theorem executeResolutionRefused_counted (h : Counted w) {caller : Address}
    {resolutionHash : String} {module : Option ResolutionModuleFn}
    (hok : w.executeResolutionRefused runtime workflowId caller resolutionHash module = .ok w') :
    Counted w' := by
  unfold World.executeResolutionRefused at hok
  simp only [refuse_eq_ok, bind_eq_ok, Except.ok.injEq, not_not] at hok
  obtain ⟨_, _, _, _, w₁, h₁, rfl⟩ := hok
  exact (h.of_core (accrueYield_core h₁)).updateTransfer fun _ => rfl

theorem executePendingSettlement_counted {hash : Distribution → String} (h : Counted w)
    (hok : w.executePendingSettlement runtime hash workflowId = .ok w') : Counted w' := by
  unfold World.executePendingSettlement at hok
  simp only [refuse_eq_ok] at hok
  obtain ⟨_, _, hok⟩ := hok
  split at hok
  · cases hok
  · simp only [refuse_eq_ok, not_not] at hok
    obtain ⟨hactive, _, _, hok⟩ := hok
    obtain ⟨et, het, hstate⟩ := disputeActive_iff.mp hactive
    exact settleDispute_counted h het hstate hok

/-! ## the next level -/

theorem nextLevel_counted (h : Counted w) (het : w.getTransfer workflowId = some et)
    (hstate : et.escrowState = .disputed) {caller : Address} {reason : SupersedeReason}
    {baseBond : ℤ} {next : Address}
    (hok : w.nextLevel workflowId caller et reason baseBond next = .ok w') : Counted w' := by
  unfold World.nextLevel at hok
  simp only [bind_eq_ok, Except.ok.injEq] at hok
  obtain ⟨w₁, h₁, rfl⟩ := hok
  have hdesk : w₁.desk = w.desk := by
    split at h₁
    · exact desk_of_docket (postAppealBond_docket h₁)
    · rw [Except.ok.inj h₁]
  obtain ⟨hescrows, _⟩ := archive_escrows w₁ workflowId reason
  have het₁ : (w₁.archiveCurrentPendingSettlement workflowId reason).getTransfer workflowId
      = some et := by
    rw [World.getTransfer, hescrows]
    exact (getTransfer_of_desk hdesk workflowId).trans het
  apply Counted.assignResolver
  · exact (archive_counted (h.of_desk hdesk) reason).frame rfl rfl rfl
  · exact het₁
  · exact hstate

theorem takeToNextLevel_counted (h : Counted w) (het : w.getTransfer workflowId = some et)
    (hstate : et.escrowState = .disputed) {caller : Address} {escalation : Option EscalationFn}
    {reason : SupersedeReason} {baseBond : Transfer → Snapshot → ℤ} {noResolution : Failure}
    (hok : w.takeToNextLevel workflowId caller escalation reason baseBond noResolution et
      = .ok w') : Counted w' := by
  unfold World.takeToNextLevel at hok
  obtain ⟨_, hok⟩ := refuse_eq_ok.mp hok
  split at hok
  · cases hok
  · obtain ⟨_, hok⟩ := refuse_eq_ok.mp hok
    split at hok
    · cases hok
    · simp only [refuse_eq_ok, bind_eq_ok] at hok
      obtain ⟨_, answer, _, hok⟩ := hok
      split at hok
      · cases hok
      · exact nextLevel_counted h het hstate hok

theorem challengeResolution_counted (h : Counted w) {caller : Address}
    {escalation : Option EscalationFn}
    (hok : w.challengeResolution workflowId caller escalation = .ok w') : Counted w' := by
  unfold World.challengeResolution at hok
  split at hok
  · cases hok
  · next et het =>
    simp only [ne_eq, ite_not, require_eq_ok] at hok
    exact takeToNextLevel_counted h het hok.1 hok.2

theorem escalateDispute_counted (h : Counted w) {caller : Address}
    {escalation : Option EscalationFn}
    (hok : w.escalateDispute workflowId caller escalation = .ok w') : Counted w' := by
  unfold World.escalateDispute at hok
  split at hok
  · cases hok
  · next et het =>
    simp only [ne_eq, ite_not, require_eq_ok, refuse_eq_ok] at hok
    exact takeToNextLevel_counted h het hok.1 hok.2.2

/-! ## time -/

theorem cancelDisputedEscrowNow_counted {hash : Distribution → String} (h : Counted w)
    (hactive : w.disputeActive workflowId = true)
    (hok : w.cancelDisputedEscrowNow runtime hash workflowId = .ok w') : Counted w' := by
  obtain ⟨et, het, hstate⟩ := disputeActive_iff.mp hactive
  unfold World.cancelDisputedEscrowNow at hok
  rw [het] at hok
  simp only [bind_eq_ok] at hok
  obtain ⟨w₁, h₁, w₂, h₂, w₃, h₃, h₄⟩ := hok
  obtain ⟨et₁, hfin⟩ := finalize_core h₁
  obtain rfl : et₁ = et := Option.some.inj (hfin.found.symm.trans het)
  have hcounted := h.finalizedDispute hfin hstate (desk_of_docket (slashOnTimeout_docket h₂))
  exact (hcounted.of_desk (desk_of_docket (returnAllBondsForWorkflow_docket h₃))).of_desk
    (cleanupOrphanedSlashes_desk h₄)

theorem autoCancelDisputedEscrow_counted {hash : Distribution → String} (h : Counted w)
    (hok : w.autoCancelDisputedEscrow runtime hash workflowId = .ok w') : Counted w' := by
  unfold World.autoCancelDisputedEscrow at hok
  simp only [refuse_eq_ok, not_not] at hok
  obtain ⟨_, hactive, _, _, hok⟩ := hok
  exact cancelDisputedEscrowNow_counted h hactive hok

theorem autoCancelDisputedOnAutoTime_counted {hash : Distribution → String} (h : Counted w)
    (hok : w.autoCancelDisputedOnAutoTime runtime hash workflowId = .ok w') : Counted w' := by
  unfold World.autoCancelDisputedOnAutoTime at hok
  simp only [refuse_eq_ok, not_not] at hok
  obtain ⟨_, hactive, _, _, hok⟩ := hok
  exact cancelDisputedEscrowNow_counted h hactive hok

theorem timedAction_pending {action : World.TimedAction} (h : w.timedAction workflowId = action)
    (haction : action = .autoRelease ∨ action = .autoCancel) :
    ∃ et, w.getTransfer workflowId = some et ∧ et.escrowState = .pending := by
  subst h
  unfold World.timedAction at haction
  have hdue : w.autoReleaseDue workflowId = true ∨ w.autoCancelDue workflowId = true := by
    split at haction
    · simp at haction
    · split at haction
      · simp at haction
      · split at haction
        · simp at haction
        · split at haction
          · next hdue => exact Or.inl hdue
          · split at haction
            · next hdue => exact Or.inr hdue
            · simp at haction
  unfold World.autoReleaseDue World.autoCancelDue at hdue
  simp only [Option.any_eq_true, Bool.and_eq_true, decide_eq_true_eq] at hdue
  rcases hdue with ⟨et, het, ⟨hstate, _⟩, _⟩ | ⟨et, het, ⟨hstate, _⟩, _⟩
  · exact ⟨et, het, hstate⟩
  · exact ⟨et, het, hstate⟩

theorem automateTimedActions_counted {hash : Distribution → String} (h : Counted w)
    (hok : w.automateTimedActions runtime hash workflowId = .ok w') : Counted w' := by
  unfold World.automateTimedActions at hok
  simp only [refuse_eq_ok, bind_eq_ok] at hok
  obtain ⟨_, w₁, h₁, hok⟩ := hok
  have hcounted := h.of_core (accrueYield_core h₁)
  split at hok
  · exact executePendingSettlement_counted hcounted hok
  · exact autoCancelDisputedOnAutoTime_counted hcounted hok
  · exact autoCancelDisputedEscrow_counted hcounted hok
  · next haction =>
    obtain ⟨et, het, hstate⟩ := timedAction_pending haction (Or.inl rfl)
    exact finalize_pending_counted hcounted het hstate hok
  · next haction =>
    obtain ⟨et, het, hstate⟩ := timedAction_pending haction (Or.inr rfl)
    exact finalize_pending_counted hcounted het hstate hok
  · exact Except.ok.inj hok ▸ hcounted

/-! ## steps and runs -/

theorem step_counted (env : Environment) (h : Counted w) {op : Operation}
    (hok : step env w op = .ok w') : Counted w' := by
  cases op with
  | createEscrow =>
    obtain ⟨et, hnew⟩ := createEscrow_ok hok
    exact h.created hnew
  | release => exact release_counted h hok
  | partialRelease => exact partialRelease_counted h hok
  | senderCancel => exact senderCancel_counted h hok
  | recipientCancel => exact recipientCancel_counted h hok
  | withdrawEscrow =>
    obtain ⟨et, _, _, rfl⟩ := withdrawEscrow_ok hok
    exact h.frame rfl rfl rfl
  | withdrawFees =>
    obtain ⟨_, _, _, rfl⟩ := withdrawFees_ok.mp hok
    exact h.frame rfl rfl rfl
  | raiseDispute => exact raiseDispute_counted h hok
  | rotateDisputeResolver => exact rotateDisputeResolver_counted h hok
  | submitEvidence => exact submitEvidence_counted h hok
  | executeResolution => exact executeResolution_counted h hok
  | executeResolutionRefused => exact executeResolutionRefused_counted h hok
  | executePendingSettlement => exact executePendingSettlement_counted h hok
  | challengeResolution => exact challengeResolution_counted h hok
  | escalateDispute => exact escalateDispute_counted h hok
  | autoCancelDisputedEscrow => exact autoCancelDisputedEscrow_counted h hok
  | autoCancelDisputedOnAutoTime => exact autoCancelDisputedOnAutoTime_counted h hok
  | automateTimedActions => exact automateTimedActions_counted h hok
  | proposeFraudSlash => exact h.of_desk (proposeFraudSlash_desk hok)
  | proposeFraudGroupSlash => exact h.of_desk (proposeFraudGroupSlash_desk hok)
  | appealSlash => exact h.of_desk (appealSlash_desk hok)
  | resolveAppeal => exact h.of_desk (resolveAppeal_desk hok)
  | appealFraudGroupSlash => exact h.of_desk (appealFraudGroupSlash_desk hok)
  | resolveFraudGroupAppeal => exact h.of_desk (resolveFraudGroupAppeal_desk hok)
  | executeFraudSlash => exact h.of_desk (executeFraudSlash_desk hok)
  | executeFraudGroupSlash => exact h.of_desk (executeFraudGroupSlash_desk hok)
  | registerStake =>
    obtain ⟨_, _, rfl⟩ := registerStake_ok.mp hok
    exact h.frame rfl rfl rfl
  | withdrawStake =>
    obtain ⟨_, _, rfl⟩ := withdrawStake_ok.mp hok
    exact h.frame rfl rfl rfl
  | advanceTime =>
    obtain ⟨_, rfl⟩ := advanceTime_ok.mp hok
    exact h.frame rfl rfl rfl

end

/-- the ids of the escrows are distinct and below the next one, and nothing is in dispute -/
structure Undisputed (w : World) : Prop where
  nodup : (w.escrows.transfers.map Prod.fst).Nodup
  fresh : ∀ workflowId, w.escrows.nextWorkflowId ≤ workflowId → w.getTransfer workflowId = none
  calm : ∀ e ∈ w.escrows.transfers, e.2.escrowState ≠ .disputed

/-- resolvers whose capacity is configured before a dispute have nothing to do -/
theorem Undisputed.counted {w : World} (h : Undisputed w)
    (hcapacities : ∀ r c, w.resolvers.capacities r = some c → c.currentActive = 0) : Counted w where
  nodup := h.nodup
  fresh := h.fresh
  count r c hc := by
    rw [hcapacities r c hc, World.load, sumBy_eq_zero]
    intro e he
    rw [inCharge_of_not_disputed (h.calm e he)]
    rfl

/-- **The load of a resolver is the number of its disputes**, after every run from a world without
disputes; a dispute that is in its hands is counted. -/
theorem resolver_load_exact (env : Environment) {w : World} (hw : Undisputed w)
    (hcapacities : ∀ r c, w.resolvers.capacities r = some c → c.currentActive = 0)
    (ops : List Operation) (resolver : Address) (c : Capacity)
    (hc : (run (step env) w ops).resolvers.capacities resolver = some c) :
    c.currentActive = ((run (step env) w ops).activeDisputes resolver).length ∧
      ∀ workflowId, (run (step env) w ops).inCharge workflowId = some resolver →
        1 ≤ c.currentActive := by
  have hcounted : Counted (run (step env) w ops) :=
    run_induction (fun w op w' hw hok => step_counted env hw hok) (hw.counted hcapacities) ops
  have hcount := hcounted.count resolver c hc
  refine ⟨hcount.trans (load_eq_length _ resolver), fun workflowId hcharge => ?_⟩
  rw [hcount]
  exact one_le_load hcharge

/-- two escrows of one resolver, and another resolver; both take two disputes -/
def twoPending : World :=
  let et : Transfer := { token := "USDC", sender := "s", recipient := "r", amountAfterFee := 100
                         disputeResolver := some "judge" }
  { emptyWorld {} 0 with
    escrows := { transfers := [(0, et), (1, et)], nextWorkflowId := 2 }
    resolvers := { capacities := fun r => if r = "judge" ∨ r = "clerk" then some ⟨2, 0⟩ else none } }

theorem twoPending_undisputed : Undisputed twoPending where
  nodup := by decide
  fresh := fun workflowId h => by
    have hlow : 2 ≤ workflowId := h
    rw [World.getTransfer, find_eq_none_iff]
    simp [twoPending, emptyWorld]
    omega
  calm := fun e he => by
    rcases List.mem_cons.mp he with rfl | he
    · decide
    · rw [List.mem_singleton.mp he]
      decide

/-- both disputes are raised, one is handed to the other resolver and one is resolved -/
theorem resolver_load_exact_twoPending :
    let w := run (step bareEnvironment) twoPending
      [.raiseDispute 0 "s", .raiseDispute 1 "s", .rotateDisputeResolver 0 (some "clerk"),
        .executeResolution 1 "judge" true "h" none]
    ((0 : ℤ) = (w.activeDisputes "judge").length
        ∧ ∀ workflowId, w.inCharge workflowId = some "judge" → (1 : ℤ) ≤ 0)
      ∧ (1 : ℤ) = (w.activeDisputes "clerk").length
        ∧ ∀ workflowId, w.inCharge workflowId = some "clerk" → (1 : ℤ) ≤ 1 :=
  have hcapacities : ∀ r c, twoPending.resolvers.capacities r = some c → c.currentActive = 0 :=
    fun r c hc => by
      have hsome : (if r = "judge" ∨ r = "clerk" then some (⟨2, 0⟩ : Capacity) else none) = some c :=
        hc
      split at hsome
      · rw [← Option.some.inj hsome]
      · cases hsome
  ⟨resolver_load_exact bareEnvironment twoPending_undisputed hcapacities _ "judge" ⟨2, 0⟩
      (by decide +kernel),
    resolver_load_exact bareEnvironment twoPending_undisputed hcapacities _ "clerk" ⟨2, 1⟩
      (by decide +kernel)⟩

end PRF.Sew
