import ProtocolRobustness.Sew.Lifecycle

/-!
# What a settlement does

Custody, totals, claims and yield positions are ledgers; the rest of a world is its core.  Yield
operations and movements of custody leave the core alone, and a settlement changes it by ending one
escrow.

* `World.core`       a world without its ledgers;
* `Finalized`        an escrow has ended, the rest of the core is as it was;
* `finalize_core`    every settlement ends its escrow.
-/

namespace PRF.Sew
open Table Fallible

/-- a world without custody, totals, claims and yield positions -/
def World.core (w : World) : World :=
  { w with
    held := {}
    totals := {}
    claims := []
    yields := {} }

section
variable {w w' : World}

theorem core_eq : w'.core = w.core ↔ w'.blockTs = w.blockTs ∧ w'.config = w.config ∧
    w'.escrows = w.escrows ∧ w'.disputes = w.disputes ∧ w'.bonds = w.bonds ∧ w'.pools = w.pools ∧
    w'.resolvers = w.resolvers ∧ w'.slashes = w.slashes := by
  unfold World.core
  simp

theorem addHeld_core {token : Token} {amount : ℤ} {reason : HeldReason} {scope : HeldScope}
    (h : w.addHeld token amount reason scope = .ok w') : w'.core = w.core := by
  obtain ⟨_, rfl⟩ := World.addHeld_ok.mp h
  rfl

theorem subHeld_core {token : Token} {amount : ℤ} {reason : HeldReason} {scope : HeldScope}
    (h : w.subHeld token amount reason scope = .ok w') : w'.core = w.core := by
  obtain ⟨_, _, _, rfl⟩ := World.subHeld_ok.mp h
  rfl

variable {runtime : YieldRuntime} {workflowId : ℕ}

theorem accrueYield_core (h : w.accrueYield runtime workflowId = .ok w') : w'.core = w.core := by
  unfold World.accrueYield at h
  split at h
  · rw [Except.ok.inj h]
  · obtain ⟨effect, _, rfl⟩ := map_eq_ok.mp h
    rfl

theorem debitYield_core {token : Token} {amount : ℤ}
    (h : w.debitYield workflowId token amount = .ok w') : w'.core = w.core := by
  unfold World.debitYield at h
  split at h
  · exact subHeld_core h
  · rw [Except.ok.inj h]

theorem recordPositive_core (w : World) (workflowId : ℕ) (domain : ClaimDomain) (address : Address)
    (amount : ℤ) : (w.recordPositive workflowId domain address amount).core = w.core := by
  unfold World.recordPositive
  split <;> rfl

theorem distributeYield_core {outcome : Direction} {et : Transfer} {position : YieldPosition}
    (h : w.distributeYield workflowId outcome et position = .ok w') : w'.core = w.core := by
  unfold World.distributeYield at h
  simp only [bind_eq_ok, Except.ok.injEq] at h
  obtain ⟨w₃, h₃, w₄, h₄, w₅, h₅, w₆, h₆, rfl⟩ := h
  have hcore : w₆.core = w.core := by
    rw [debitYield_core h₆, debitYield_core h₅, debitYield_core h₄, debitYield_core h₃,
      recordPositive_core, recordPositive_core]
    split <;> rfl
  refine Eq.trans ?_ hcore
  split <;> rfl

theorem applyYieldPolicy_core {outcome : Direction}
    (h : w.applyYieldPolicy workflowId outcome = .ok w') : w'.core = w.core := by
  unfold World.applyYieldPolicy at h
  split at h
  · split at h
    · rw [Except.ok.inj h]
    · exact distributeYield_core h
  · rw [Except.ok.inj h]

theorem reserveDeferredYieldCustody_core {token : Token} {deferred : ℤ}
    (h : w.reserveDeferredYieldCustody token workflowId deferred = .ok w') :
    w'.core = w.core := by
  unfold World.reserveDeferredYieldCustody at h
  simp only [refuse_eq_ok] at h
  obtain ⟨_, h⟩ := h
  split at h
  · rw [Except.ok.inj h]
  · obtain ⟨w₁, h₁, h₂⟩ := bind_eq_ok.mp h
    rw [addHeld_core h₂, subHeld_core h₁]

/-! ## the end of an escrow -/

/-- an escrow in its terminal state -/
def Transfer.ended (et : Transfer) (direction : Direction) : Transfer :=
  { et with
    escrowState := direction.state
    senderStatus := .none
    recipientStatus := .none }

/-- an escrow has ended in a direction, and the rest of the core is as it was -/
structure Finalized (w w' : World) (workflowId : ℕ) (direction : Direction) (et : Transfer) : Prop where
  found : w.getTransfer workflowId = some et
  allowed : direction.state ∈ et.escrowState.next
  blockTs : w'.blockTs = w.blockTs
  config : w'.config = w.config
  escrows : w'.escrows =
    { w.escrows with transfers := put w.escrows.transfers workflowId (et.ended direction) }
  disputes : w'.disputes =
    { w.disputes with
      pending := Function.update w.disputes.pending workflowId none
      timestamps := Function.update w.disputes.timestamps workflowId 0 }
  bonds : w'.bonds = w.bonds
  pools : w'.pools = w.pools
  resolvers : w'.resolvers = w.resolvers
  slashes : w'.slashes = w.slashes

theorem putTransfer_putTransfer (w : World) (workflowId : ℕ) (et et' : Transfer) :
    (w.putTransfer workflowId et).putTransfer workflowId et' = w.putTransfer workflowId et' := by
  unfold World.putTransfer
  dsimp only
  rw [put_put]

theorem clearDispute_putTransfer (w : World) (workflowId : ℕ) (et : Transfer) :
    (w.putTransfer workflowId et).clearDispute workflowId =
      { w.putTransfer workflowId
          { et with senderStatus := .none, recipientStatus := .none } with
        disputes :=
          { w.disputes with
            pending := Function.update w.disputes.pending workflowId none
            timestamps := Function.update w.disputes.timestamps workflowId 0 } } := by
  have hput : (w.putTransfer workflowId et).getTransfer workflowId = some et := by
    rw [getTransfer_putTransfer, if_pos rfl]
  unfold World.clearDispute
  rw [updateTransfer_some hput, putTransfer_putTransfer]
  rfl

theorem finalized_of_core (w₁ : World) {w₂ : World} {direction : Direction} {et : Transfer}
    (hcore : w₁.core = w.core) (het : w.getTransfer workflowId = some et)
    (h : w₁.applyTransition workflowId direction.state = .ok w₂) :
    Finalized w (w₂.clearDispute workflowId) workflowId direction et := by
  obtain ⟨hts, hconfig, hescrows, hdisputes, hbonds, hpools, hresolvers, hslashes⟩ :=
    core_eq.mp hcore
  have het₁ : w₁.getTransfer workflowId = some et := by
    rw [World.getTransfer, hescrows]
    exact het
  obtain ⟨hallowed, rfl⟩ := (applyTransition_ok het₁).mp h
  rw [clearDispute_putTransfer]
  exact
    { found := het
      allowed := hallowed
      blockTs := hts
      config := hconfig
      escrows := by rw [← hescrows]; rfl
      disputes := by rw [← hdisputes]
      bonds := hbonds
      pools := hpools
      resolvers := hresolvers
      slashes := hslashes }

/-- **Every settlement ends its escrow**, and leaves the rest of the core as it was. -/
theorem finalize_core {direction : Direction}
    (h : w.finalize runtime workflowId direction = .ok w') :
    ∃ et, Finalized w w' workflowId direction et := by
  unfold World.finalize at h
  split at h
  · cases h
  · next et het =>
    simp only [bind_eq_ok, refuse_eq_ok, Except.ok.injEq] at h
    obtain ⟨w₁, h₁, w₂, h₂, w₃, h₃, _, w₄, h₄, w₆, h₆, w₈, h₈, rfl⟩ := h
    have hcore₂ : w₂.core = w₁.core := by
      split at h₂
      · rw [Except.ok.inj h₂]
      · obtain ⟨effect, _, rfl⟩ := map_eq_ok.mp h₂
        rfl
    have hcore₄ : w₄.core = w.core := by
      rw [subHeld_core h₄, applyYieldPolicy_core h₃, hcore₂, accrueYield_core h₁]
    have hcore₆ : w₆.core = w.core := by
      rw [← hcore₄]
      split at h₆
      · rw [reserveDeferredYieldCustody_core h₆]
        cases direction <;> rfl
      · rw [← Except.ok.inj h₆]
        cases direction <;> rfl
    exact ⟨et, finalized_of_core ((w₆.recordFotFee et.token _).recordClaimable _ _ _ _) hcore₆ het
      h₈⟩

variable {et : Transfer}

theorem Finalized.getTransfer {direction : Direction} (h : Finalized w w' workflowId direction et)
    (wf : ℕ) : w'.getTransfer wf
      = if workflowId = wf then some (et.ended direction) else w.getTransfer wf := by
  unfold World.getTransfer
  rw [h.escrows]
  exact find_put _ _ _ _

theorem Finalized.terminal {direction : Direction} : (et.ended direction).escrowState.terminal = true := by
  cases direction <;> rfl

end

end PRF.Sew
