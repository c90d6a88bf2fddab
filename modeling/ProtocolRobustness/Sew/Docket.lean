import ProtocolRobustness.Sew.BondOps
import ProtocolRobustness.Sew.Resolution
import ProtocolRobustness.Sew.Settlement

/-!
# What stays on the docket

The docket of a world is its escrows, its disputes, its slashes and the capacities of its resolvers:
what decides who is in charge of what.  Slashing, bonds, yield and custody leave the docket alone.

* `World.docket`     a world without its ledgers, bonds, pools and stakes;
* `World.desk`       the same without its slashes;
* `slashResolverStake_ok`   what a slash of a stake writes;
* `vindicateSlash_rule`     what a vindication of a slash keeps;
* `settleAppealBondOnResolution_docket`, `returnAllBondsForWorkflow_docket`,
  `postAppealBond_docket`   the bond operations leave the docket alone.
-/

namespace PRF.Sew
open Table Fallible

/-- a world without ledgers, bonds, pools and stakes -/
def World.docket (w : World) : World where
  blockTs := w.blockTs
  config := w.config
  escrows := w.escrows
  disputes := w.disputes
  slashes := w.slashes
  resolvers := { capacities := w.resolvers.capacities }

/-- the docket without the slashes -/
def World.desk (w : World) : World := { w.docket with slashes := {} }

section
variable {w w' : World}

theorem docket_eq : w'.docket = w.docket ↔ w'.blockTs = w.blockTs ∧ w'.config = w.config ∧
    w'.escrows = w.escrows ∧ w'.disputes = w.disputes ∧ w'.slashes = w.slashes ∧
    w'.resolvers.capacities = w.resolvers.capacities := by
  unfold World.docket
  simp only [World.mk.injEq, Resolvers.mk.injEq, and_true, true_and]
  tauto

theorem docket_of_core (h : w'.core = w.core) : w'.docket = w.docket := by
  obtain ⟨hts, hconfig, hescrows, hdisputes, _, _, hresolvers, hslashes⟩ := core_eq.mp h
  exact docket_eq.mpr ⟨hts, hconfig, hescrows, hdisputes, hslashes, by rw [hresolvers]⟩

theorem desk_of_docket (h : w'.docket = w.docket) : w'.desk = w.desk := by
  unfold World.desk
  rw [h]

theorem desk_eq : w'.desk = w.desk ↔ w'.blockTs = w.blockTs ∧ w'.config = w.config ∧
    w'.escrows = w.escrows ∧ w'.disputes = w.disputes ∧
    w'.resolvers.capacities = w.resolvers.capacities := by
  unfold World.desk World.docket
  simp only [World.mk.injEq, Resolvers.mk.injEq, and_true, true_and]

/-! ## slashes of stakes -/

variable {hash : Distribution → String} {workflowId : ℕ}

theorem distributeSlashedFunds_docket {amount bountyBps : ℤ} {challenger : Option Address}
    {wf : Option ℕ} (h : w.distributeSlashedFunds hash amount challenger bountyBps wf = .ok w') :
    w'.docket = w.docket ∧ w'.resolvers = w.resolvers ∧ w'.held = w.held ∧ w'.bonds = w.bonds := by
  obtain ⟨dist, _, hcase⟩ := World.distributeSlashedFunds_ok h
  split at hcase
  · subst hcase
    exact ⟨rfl, rfl, rfl, rfl⟩
  · subst hcase
    exact ⟨rfl, rfl, rfl, rfl⟩

/-- what a slash takes from the coverage a senior has reserved -/
def World.coverageShare (w : World) (resolver : Address) (actual : ℤ) : ℤ :=
  match w.resolvers.senior resolver with
  | some senior => min actual (w.resolvers.reservedCoverage senior)
  | none => 0

/-- the resolvers after a slash of a stake -/
def Resolvers.slash (resolvers : Resolvers) (resolver : Address) (actual share : ℤ) : Resolvers :=
  { resolvers with
    stakes := addAt resolvers.stakes resolver (-(actual - share))
    bigStakes := Function.update resolvers.bigStakes resolver true
    registered := Function.update resolvers.registered resolver true
    slashTotal := addAt resolvers.slashTotal resolver actual
    reservedCoverage :=
      match resolvers.senior resolver with
      | some senior =>
        if 0 < share then addAt resolvers.reservedCoverage senior (-share)
        else resolvers.reservedCoverage
      | none => resolvers.reservedCoverage }

/-- **What a slash of a stake writes**: the stake, the coverage of the senior and the total of the
slashes; besides these the pools, claims and custody. -/
theorem slashResolverStake_ok {resolver : Address} {amount bountyBps : ℤ}
    {challenger : Option Address} {skip : Bool} {slashed : World.Slashed}
    (h : w.slashResolverStake hash resolver amount challenger bountyBps workflowId skip
      = .ok (w', slashed)) :
    slashableAmount (w.stake resolver) amount = .ok slashed.total ∧
      slashed.fromStake = slashed.total - w.coverageShare resolver slashed.total ∧
      w'.resolvers
        = w.resolvers.slash resolver slashed.total (w.coverageShare resolver slashed.total) ∧
      w'.docket = w.docket ∧ w'.bonds = w.bonds := by
  unfold World.slashResolverStake at h
  simp only [bind_eq_ok, refuse_eq_ok, Except.ok.injEq, Prod.mk.injEq] at h
  obtain ⟨actual, hactual, _, w₁, h₁, w₃, h₃, rfl, rfl⟩ := h
  obtain ⟨hdocket₁, hresolvers₁, hheld₁, hbonds₁⟩ := distributeSlashedFunds_docket h₁
  have hcore₃ : w₃.core = (w₁.addSlashTotal resolver actual).core := by
    split at h₃
    · exact subHeld_core h₃
    · rw [Except.ok.inj h₃]
  obtain ⟨_, _, _, _, hbonds₃, _, hresolvers₃, _⟩ := core_eq.mp hcore₃
  have hdocket₃ : w₃.docket = w₁.docket := by
    rw [docket_of_core hcore₃]
    rfl
  have hshare : (if (w.resolvers.senior resolver).isSome = true
      then min actual (((w.resolvers.senior resolver).map w.resolvers.reservedCoverage).getD 0)
      else 0) = w.coverageShare resolver actual := by
    unfold World.coverageShare
    cases w.resolvers.senior resolver <;> rfl
  rw [hshare] at h₁ hresolvers₁ hdocket₁ hbonds₁
  refine ⟨hactual, by rw [hshare], ?_, ?_, ?_⟩
  · rw [hresolvers₃]
    dsimp only [World.addSlashTotal]
    rw [hresolvers₁]
    unfold Resolvers.slash World.coverageShare World.addStake addAt
    cases w.resolvers.senior resolver with
    | none => simp
    | some senior =>
      simp only
      split
      · simp [sub_eq_add_neg]
      · simp
  · rw [hdocket₃, hdocket₁]
    unfold World.addStake
    split <;> (try split) <;> rfl
  · rw [hbonds₃]
    show w₁.bonds = _
    rw [hbonds₁]
    unfold World.addStake
    split <;> (try split) <;> rfl

theorem slashOnTimeout_docket {resolver : Option Address} {amount : ℤ}
    (h : w.slashOnTimeout hash workflowId resolver amount = .ok w') : w'.docket = w.docket := by
  unfold World.slashOnTimeout at h
  split at h
  · rw [Except.ok.inj h]
  · split at h
    · rw [Except.ok.inj h]
    · simp only [bind_eq_ok, Except.ok.injEq] at h
      obtain ⟨actual, _, w₁, h₁, rfl⟩ := h
      exact (distributeSlashedFunds_docket h₁).1

/-! ## bonds -/

theorem settleAppealBondOnResolution_docket {isRelease : Bool}
    (h : w.settleAppealBondOnResolution workflowId isRelease = .ok w') : w'.docket = w.docket := by
  rcases settleAppealBondOnResolution_ok h with rfl | ⟨_, _, _, _, _, _, _, _, _, _, _, _, _, _, _,
    _, _, _, _, _, _, _, rfl⟩
  · rfl
  · rfl

theorem returnAllBondsForWorkflow_docket (h : w.returnAllBondsForWorkflow workflowId = .ok w') :
    w'.docket = w.docket := by
  refine foldlM_invariant (I := fun w₁ => w₁.docket = w.docket) ?_ rfl h
  intro w₁ record w₂ _ hw₁ hok
  rw [← hw₁]
  rcases returnBondRecord_ok hok with ⟨_, rfl⟩ | ⟨_, _, _, _, _, _, _, rfl⟩
  · rfl
  · rfl

theorem postAppealBond_docket {appellant : Address} {snap : Snapshot} {token : Token} {amount : ℤ}
    (h : w.postAppealBond workflowId appellant snap token amount = .ok w') :
    w'.docket = w.docket := by
  unfold World.postAppealBond at h
  split at h
  · cases h
  · simp only [ne_eq, ite_not, require_eq_ok, World.addHeld_ok] at h
    obtain ⟨_, _, rfl⟩ := h
    rfl

/-! ## the registry of slashes -/

theorem cleanupSlash_desk {slashId : ℕ} {slash : SlashEntry}
    (h : w.cleanupSlash hash workflowId slashId slash = .ok w') : w'.desk = w.desk := by
  unfold World.cleanupSlash at h
  split at h
  · split at h
    · simp only [bind_eq_ok, Except.ok.injEq] at h
      obtain ⟨⟨w₁, slashed⟩, h₁, rfl⟩ := h
      exact (desk_of_docket (slashResolverStake_ok h₁).2.2.2.1 : w₁.desk = w.desk)
    · rw [← Except.ok.inj h]
      rfl
  · rw [← Except.ok.inj h]
    rfl

theorem cleanupOrphanedSlashes_desk (h : w.cleanupOrphanedSlashes hash workflowId = .ok w') :
    w'.desk = w.desk := by
  unfold World.cleanupOrphanedSlashes at h
  split at h
  · exact foldlM_invariant (I := fun w₁ => w₁.desk = w.desk)
      (fun w₁ e w₂ _ hw₁ hok => (cleanupSlash_desk hok).trans hw₁) rfl h
  · rw [Except.ok.inj h]

theorem insertSlash_desk {entry : SlashEntry} (h : w.insertSlash entry = .ok w') :
    w'.desk = w.desk := by
  unfold World.insertSlash at h
  simp only [refuse_eq_ok, Except.ok.injEq] at h
  obtain ⟨_, _, _, _, rfl⟩ := h
  rfl

def SlashEntry.executedNow (entry : SlashEntry) (total : ℤ) : SlashEntry :=
  { entry with
    status := .executed
    appealDeadline := 0
    actualAmount := some total }

theorem handleReversalSlashing_ok {isRelease : Bool}
    (h : w.handleReversalSlashing hash workflowId isRelease = .ok w') :
    w' = w ∨ ∃ (level : ℕ) (decision : Decision) (amount : ℤ) (entry : SlashEntry),
      w.reversedDecision workflowId isRelease = some (level, decision) ∧
      w.reversalSlashExists workflowId level = false ∧
      w.reversalSlashActive workflowId decision.resolver = false ∧
      amount = bpsAmount (w.stake decision.resolver) (w.getSnapshot workflowId).reversalSlashBps ∧
      0 < amount ∧
      entry = w.reversalEntry w.slashes.nextSlashId workflowId level decision.resolver amount ∧
      ((w.disputes.evidenceUpdated workflowId = true ∧ w.insertSlash entry = .ok w') ∨
        ∃ (w₁ : World) (slashed : World.Slashed),
          w.disputes.evidenceUpdated workflowId = false ∧
          w.slashResolverStake hash decision.resolver amount
            (w.disputes.challengers workflowId level) (w.getSnapshot workflowId).challengeBountyBps
            workflowId true = .ok (w₁, slashed) ∧
          w₁.insertSlash (entry.executedNow slashed.total) = .ok w') := by
  unfold World.handleReversalSlashing at h
  split at h
  · exact Or.inl (Except.ok.inj h).symm
  · next level decision hreversed =>
    dsimp only at h
    split at h
    · exact Or.inl (Except.ok.inj h).symm
    · next hnew =>
      obtain ⟨hexists, hactive⟩ := not_or.mp hnew
      replace h := (refuse_eq_ok.mp h).2
      split at h
      · exact Or.inl (Except.ok.inj h).symm
      · next hamount =>
        obtain ⟨slashId, hid, h⟩ := bind_eq_ok.mp h
        have hnext : slashId = w.slashes.nextSlashId := by
          unfold World.allocateSlashId at hid
          exact (Except.ok.inj (refuse_eq_ok.mp hid).2).symm
        subst hnext
        refine Or.inr ⟨level, decision, _, _, hreversed, by simpa using hexists,
          by simpa using hactive, rfl, not_le.mp hamount, rfl, ?_⟩
        split at h
        · next hevidence => exact Or.inl ⟨hevidence, h⟩
        · next hevidence =>
          obtain ⟨⟨w₁, slashed⟩, h₁, h⟩ := bind_eq_ok.mp h
          exact Or.inr ⟨w₁, slashed, by simpa using hevidence, h₁, h⟩

theorem handleReversalSlashing_desk {isRelease : Bool}
    (h : w.handleReversalSlashing hash workflowId isRelease = .ok w') : w'.desk = w.desk := by
  rcases handleReversalSlashing_ok h with rfl | ⟨_, _, _, _, _, _, _, _, _, _, hcase⟩
  · rfl
  · rcases hcase with ⟨_, h⟩ | ⟨w₁, slashed, _, h₁, h⟩
    · exact insertSlash_desk h
    · rw [insertSlash_desk h, desk_of_docket (slashResolverStake_ok h₁).2.2.2.1]

theorem updateSlash_desk (w : World) (slashId : ℕ) (f : SlashEntry → SlashEntry) :
    (w.updateSlash slashId f).desk = w.desk := by
  unfold World.updateSlash
  split <;> rfl

theorem returnSlashAppealBond_desk {slashId : ℕ} {resolver : Option Address}
    {token : Option Token} {amount : ℤ}
    (h : w.returnSlashAppealBond workflowId slashId resolver token amount = .ok w') :
    w'.desk = w.desk := by
  unfold World.returnSlashAppealBond at h
  split at h
  · obtain ⟨w₁, h₁, rfl⟩ := map_eq_ok.mp h
    have hcore := subHeld_core h₁
    exact (desk_of_docket (docket_of_core hcore) : w₁.desk = w.desk)
  · cases h

structure SlashEntry.SameContext (entry entry' : SlashEntry) : Prop where
  slashId : entry'.slashId = entry.slashId
  workflowId : entry'.workflowId = entry.workflowId
  kind : entry'.kind = entry.kind
  level : entry'.level = entry.level

/-- **The rule for one vindication**: a credit, the return of a bond and updates of the entry, which
leave its context alone. -/
theorem vindicateSlash_rule {P : World → Prop} {slashId : ℕ} {entry : SlashEntry}
    (hok : w.vindicateSlash slashId entry = .ok w')
    (hcredit : ∀ resolver amount, entry.resolver = some resolver → P w →
      P (w.creditVindicated resolver amount))
    (hreturn : ∀ {w₁ w₂ : World} {workflowId resolver token amount},
      w₁.returnSlashAppealBond workflowId slashId resolver token amount = .ok w₂ → P w₁ →
      P (w₂.setCustody slashId none))
    (hupdate : ∀ (w₁ : World) f, (∀ e : SlashEntry, e.SameContext (f e)) → P w₁ →
      P (w₁.updateSlash slashId f))
    (h : P w) : P w' := by
  unfold World.vindicateSlash at hok
  split at hok
  · exact Except.ok.inj hok ▸ h
  · next resolver hresolver =>
    dsimp only at hok
    split at hok
    · split at hok
      · rw [← Except.ok.inj hok]
        exact hupdate _ _ (fun e => ⟨rfl, rfl, rfl, rfl⟩) (hcredit resolver _ hresolver h)
      · exact Except.ok.inj hok ▸ h
    · have hvoided := hupdate w (fun e => { e with status := .reversed })
        (fun e => ⟨rfl, rfl, rfl, rfl⟩) h
      split at hok
      · obtain ⟨w₁, h₁, rfl⟩ := map_eq_ok.mp hok
        exact hupdate _ _ (fun e => ⟨rfl, rfl, rfl, rfl⟩) (hreturn h₁ hvoided)
      · exact Except.ok.inj hok ▸ hvoided

theorem vindicateSlash_desk {slashId : ℕ} {entry : SlashEntry}
    (h : w.vindicateSlash slashId entry = .ok w') : w'.desk = w.desk := by
  refine vindicateSlash_rule (P := fun w₁ => w₁.desk = w.desk) h ?_ ?_ ?_ rfl
  · exact fun _ _ _ h₁ => h₁
  · exact fun hreturned h₁ => (returnSlashAppealBond_desk hreturned).trans h₁
  · exact fun w₁ f _ h₁ => (updateSlash_desk w₁ slashId f).trans h₁

theorem vindicate_desk {isRelease : Bool} (h : w.vindicate workflowId isRelease = .ok w') :
    w'.desk = w.desk := by
  refine foldlM_invariant (I := fun w₁ => w₁.desk = w.desk) ?_ rfl h
  intro w₁ level w₂ _ hw₁ hok
  refine Eq.trans ?_ hw₁
  unfold World.vindicateLevel at hok
  split at hok
  · split at hok
    · split at hok
      · rw [Except.ok.inj hok]
      · split at hok
        · rw [Except.ok.inj hok]
        · exact vindicateSlash_desk hok
    · rw [Except.ok.inj hok]
  · rw [Except.ok.inj hok]

/-! ## new escrows -/

/-- a pending escrow was created, and the rest of the core is as it was -/
structure Created (w w' : World) (et : Transfer) (settings : Settings) (snapshot : Snapshot) : Prop where
  pending : et.escrowState = .pending
  blockTs : w'.blockTs = w.blockTs
  config : w'.config = w.config
  escrows : w'.escrows =
    { w.escrows with
      transfers := put w.escrows.transfers w.escrows.nextWorkflowId et
      settings := Function.update w.escrows.settings w.escrows.nextWorkflowId settings
      snapshots := Function.update w.escrows.snapshots w.escrows.nextWorkflowId snapshot
      nextWorkflowId := w.escrows.nextWorkflowId + 1 }
  disputes : w'.disputes = w.disputes
  bonds : w'.bonds = w.bonds
  pools : w'.pools = w.pools
  resolvers : w'.resolvers = w.resolvers
  slashes : w'.slashes = w.slashes

theorem createEscrow_ok {runtime : YieldRuntime} {caller : Address} {token : Option Token}
    {recipient : Option Address} {amount : ℤ} {settings : Settings} {snapshot : Snapshot}
    (h : w.createEscrow runtime caller token recipient amount settings snapshot = .ok w') :
    ∃ et, Created w w' et settings snapshot := by
  unfold World.createEscrow at h
  split at h
  · cases h
  · split at h
    · cases h
    · split at h
      · cases h
      · simp only [refuse_eq_ok, bind_eq_ok] at h
        obtain ⟨_, _, _, _, _, _, _, w₁, h₁, h⟩ := h
        have hcore : w'.core = w₁.core := by
          split at h
          · rw [← Except.ok.inj h]
            rfl
          · split at h
            · obtain ⟨effect, _, rfl⟩ := map_eq_ok.mp h
              rfl
            · rw [← Except.ok.inj h]
              rfl
        rw [addHeld_core h₁] at hcore
        obtain ⟨hts, hconfig, hescrows, hdisputes, hbonds, hpools, hresolvers, hslashes⟩ :=
          core_eq.mp hcore
        refine ⟨_, ?_, hts, hconfig, hescrows, hdisputes, hbonds, hpools, hresolvers, hslashes⟩
        rfl

/-! ## withdrawals -/

theorem withdrawEscrow_ok {address : Address} (h : w.withdrawEscrow workflowId address = .ok w') :
    ∃ et, w.getTransfer workflowId = some et ∧ w.claims.withdrawable workflowId address ≠ 0 ∧
      { w with
        claims := w.claims.clearAddress workflowId address
        bonds := w.bonds.markClaimsWithdrawn workflowId address
        totals :=
          { w.totals with
            withdrawn := addAt w.totals.withdrawn et.token
              (w.claims.withdrawable workflowId address) } } = w' := by
  unfold World.withdrawEscrow at h
  obtain ⟨_, h⟩ := refuse_eq_ok.mp h
  split at h
  · cases h
  · next et het =>
    simp only [refuse_eq_ok, Except.ok.injEq] at h
    obtain ⟨_, hamount, _, h⟩ := h
    exact ⟨et, het, hamount, h⟩

theorem withdrawFees_ok {token : Token} {recipient : Address} :
    w.withdrawFees token recipient = .ok w' ↔ ¬ w.config.reentrancyGuard = true ∧
      w.totals.fees token ≠ 0 ∧ token ∉ w.config.tokenLiquidityCrunch ∧
      { w with
        totals :=
          { w.totals with
            fees := Function.update w.totals.fees token 0
            withdrawn := addAt w.totals.withdrawn token (w.totals.fees token)
            feesWithdrawn := addAt w.totals.feesWithdrawn token (w.totals.fees token)
            feePayouts := addAt₂ w.totals.feePayouts token recipient (w.totals.fees token) } }
        = w' := by
  unfold World.withdrawFees
  simp only [refuse_eq_ok, Except.ok.injEq, ne_eq]

end

end PRF.Sew
