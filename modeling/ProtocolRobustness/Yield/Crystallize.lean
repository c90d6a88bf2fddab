import ProtocolRobustness.Yield.AccrualRuns
import ProtocolRobustness.Yield.WithdrawShared

/-!
# What accrual leaves as it is

Before its rows are built, a shared withdrawal accrues the active positions.  Accrual writes to the
account of a position, and gives it the priority it has by default; it does not touch the lineage,
the status, or the ledgers of a withdrawal.

* `accrualDecision_position`   a decision is about the position it was asked for.
-/

namespace PRF.Yield.Accrual
open Table

section
variable {exceeds : ℚ → ℚ → ℚ → Bool} {rising : ℚ → ℚ → Bool} {w w' : World} {opts : Opts}
  {d d' : Decision}

theorem indexDecision_position (h : indexDecision exceeds rising w opts = some d) :
    d.position = opts.positionId.bind (w.resolvePosition opts.moduleId opts.token) := by
  unfold indexDecision at h
  simp only [Option.bind_eq_bind, Option.bind_eq_some_iff] at h
  obtain ⟨base, hbase, d₁, hstale, d₂, hattempt, h⟩ := h
  have hsame := (applyModuleFrozen_same w base).trans
    ((applyPositionUnwinding_same _).trans (applyStaleOracleDegradation_same hstale))
  have hboth := hsame.trans (attempt_spec hattempt).1
  have hb : base.position = opts.positionId.bind (w.resolvePosition opts.moduleId opts.token) := by
    obtain ⟨index, _, hbase⟩ := Option.bind_eq_some_iff.mp hbase
    exact (Option.some.inj hbase) ▸ rfl
  split at h
  · exact (Option.some.inj h) ▸ hboth.position.trans hb
  · exact (applyMaxIndexDeltaCap_spec h).1.position.trans (hboth.position.trans hb)

theorem computeFinalDeltas_position (h : computeFinalDeltas d = some d') :
    d'.position = d.position := by
  unfold computeFinalDeltas at h
  split at h
  · exact (Option.some.inj h) ▸ rfl
  · simp only [Option.bind_eq_bind, Option.bind_eq_some_iff] at h
    obtain ⟨_, _, _, _, _, _, _, _, _, _, h⟩ := h
    exact (Option.some.inj h) ▸ rfl

theorem applyDustThreshold_position (h : applyDustThreshold d = some d') :
    d'.position = d.position := by
  unfold applyDustThreshold at h
  obtain ⟨_, _, h⟩ := Option.bind_eq_some_iff.mp h
  split at h
  · exact (Option.some.inj h) ▸ rfl
  · exact (Option.some.inj h) ▸ rfl

theorem applyNegativeYieldFloor_position (h : applyNegativeYieldFloor w d = some d') :
    d'.position = d.position := by
  unfold applyNegativeYieldFloor at h
  split at h
  · exact (Option.some.inj h) ▸ rfl
  · split at h
    · split at h
      · exact (Option.some.inj h) ▸ rfl
      · simp only [Option.bind_eq_bind, Option.bind_eq_some_iff] at h
        obtain ⟨_, _, _, _, h⟩ := h
        split at h
        · exact (Option.some.inj h) ▸ rfl
        · exact (Option.some.inj h) ▸ rfl
    · exact (Option.some.inj h) ▸ rfl

theorem applyRecoverableLiquidityCap_position (h : applyRecoverableLiquidityCap w opts d = some d') :
    d'.position = d.position := by
  unfold applyRecoverableLiquidityCap at h
  split at h
  · simp only [Option.bind_eq_bind, Option.bind_eq_some_iff] at h
    obtain ⟨_, _, _, _, h⟩ := h
    split at h
    · simp only [Option.bind_eq_some_iff] at h
      obtain ⟨_, _, _, _, _, _, h⟩ := h
      exact (Option.some.inj h) ▸ rfl
    · exact (Option.some.inj h) ▸ rfl
  · exact (Option.some.inj h) ▸ rfl

theorem accrualDecision_position (h : accrualDecision exceeds rising w opts = some d) :
    d.position = opts.positionId.bind (w.resolvePosition opts.moduleId opts.token) := by
  unfold accrualDecision at h
  simp only [Option.bind_eq_bind, Option.bind_eq_some_iff] at h
  obtain ⟨d₁, h₁, d₂, h₂, d₃, h₃, h⟩ := h
  have hd : d₃.position = opts.positionId.bind (w.resolvePosition opts.moduleId opts.token) :=
    (applyDustThreshold_position h₃).trans
      ((computeFinalDeltas_position h₂).trans (indexDecision_position h₁))
  split at h
  · exact (Option.some.inj h) ▸ hd
  · obtain ⟨d₄, h₄, h⟩ := Option.bind_eq_some_iff.mp h
    exact (applyRecoverableLiquidityCap_position h).trans
      ((applyNegativeYieldFloor_position h₄).trans hd)

/-- what a decision leaves of an account -/
structure SameAccount (p p' : Position) : Prop where
  ownerId : p'.ownerId = p.ownerId
  moduleId : p'.moduleId = p.moduleId
  token : p'.token = p.token
  status : p'.status = p.status

theorem accruedPosition_same {p p' : Position} (h : accruedPosition d p = some p') :
    SameAccount p p' := by
  unfold accruedPosition at h
  simp only [Option.bind_eq_bind, Option.bind_eq_some_iff] at h
  obtain ⟨_, _, _, _, _, _, _, _, _, _, h⟩ := h
  rw [← Option.some.inj h]
  exact ⟨rfl, rfl, rfl, rfl⟩

theorem annotateAccrualLoss_same (p : Position) (index : ℚ) :
    SameAccount p (annotateAccrualLoss w p index) := by
  unfold annotateAccrualLoss
  split
  · exact ⟨rfl, rfl, rfl, rfl⟩
  · exact ⟨rfl, rfl, rfl, rfl⟩

theorem applyAccrualDecision_written {p : Position} (hp : d.position = some p)
    (h : applyAccrualDecision w d = some w') :
    ∃ p', find w'.positions p.ownerId = some p' ∧ SameAccount p p' := by
  unfold applyAccrualDecision at h
  simp only [hp] at h
  obtain ⟨updated, hupdated, h⟩ := Option.bind_eq_some_iff.mp h
  obtain ⟨generated, _, h⟩ := Option.bind_eq_some_iff.mp h
  obtain rfl := Option.some.inj h
  have hs := accruedPosition_same hupdated
  have ha := annotateAccrualLoss_same
    (w := { w with indices := put w.indices (d.moduleId, d.token) d.finalIndex }) updated d.finalIndex
  refine ⟨_, (find_put _ _ _ _).trans (if_pos rfl), ?_⟩
  exact ⟨ha.ownerId.trans hs.ownerId, ha.moduleId.trans hs.moduleId, ha.token.trans hs.token,
    ha.status.trans hs.status⟩

end

end PRF.Yield.Accrual
