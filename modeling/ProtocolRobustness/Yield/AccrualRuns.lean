import ProtocolRobustness.Yield.Accrual
import ProtocolRobustness.Library.Runs

/-!
# What accrual credits

An account is a position and the index of its module.  A turn accrues it in a world of its own: other
positions, rates, configuration and time may differ from turn to turn.

* `Account`, `Turn`, `accrue`   the system;
* `due`                what falls due in a turn: the move of the index on the shares, and the dust;
* `indexDecision_spec`   the decision up to its whole units;
* `Sound`              no short circuit of a turn rewrites the whole units that fall due;
* `Balanced`           what was credited and the dust are the move of the index on the shares;
* `accrual_balanced_iff`   accounts stay balanced iff each turn is sound.
-/

namespace PRF.Yield.Accrual
open Table Runs

/-! ## exact numbers -/

theorem long?_eq {n m : ℤ} (h : long? n = some m) : m = n := by
  unfold long? at h
  split at h
  · exact (Option.some.inj h).symm
  · cases h

theorem ratio_eq {x r : ℚ} (h : ratio x = some r) : r = x := by
  unfold ratio at h
  split at h
  · next hd =>
    obtain ⟨m, hm, rfl⟩ := Option.map_eq_some_iff.mp h
    obtain ⟨n, hn, heq⟩ := Option.bind_eq_some_iff.mp hm
    obtain rfl := long?_eq hn
    rw [← Option.some.inj heq]
    exact Rat.coe_int_num_of_den_eq_one hd
  · exact (Option.some.inj h).symm

theorem quantizeBaseUnits_eq {x r : ℚ} {u : ℤ} (h0 : 0 ≤ x)
    (h : quantizeBaseUnits x = some (u, r)) : u = ⌊x⌋ ∧ r = Int.fract x := by
  have hq : x.num.tdiv x.den = ⌊x⌋ := by
    rw [Rat.floor_def', Int.tdiv_eq_ediv_of_nonneg (Rat.num_nonneg.mpr h0)]
  unfold quantizeBaseUnits at h
  simp only [Option.bind_eq_bind, Option.bind_eq_some_iff] at h
  obtain ⟨y, hy, n, hn, heq⟩ := h
  obtain rfl := ratio_eq hy
  obtain rfl := long?_eq hn
  obtain ⟨rfl, rfl⟩ := Prod.mk.inj (Option.some.inj heq)
  rw [hq, max_eq_right (Int.floor_nonneg.mpr h0)]
  exact ⟨rfl, rfl⟩

theorem quantizeWithCarry_eq {x c : ℚ} {q : Quantized} (h0 : 0 ≤ x + c)
    (h : quantizeWithCarry x c = some q) : q.units = ⌊x + c⌋ ∧ q.carry = Int.fract (x + c) := by
  unfold quantizeWithCarry at h
  simp only [Option.bind_eq_bind, Option.bind_eq_some_iff] at h
  obtain ⟨y, hy, d, hd, p, hp, heq⟩ := h
  obtain rfl := ratio_eq hy
  obtain rfl := ratio_eq hd
  obtain rfl := Option.some.inj heq
  exact quantizeBaseUnits_eq h0 hp

theorem currentValueExact_eq {shares index v : ℚ} (h : currentValueExact shares index = some v) :
    v = shares * index := by
  unfold currentValueExact at h
  simp only [Option.bind_eq_bind, Option.bind_eq_some_iff] at h
  obtain ⟨s, hs, i, hi, heq⟩ := h
  rw [← Option.some.inj heq, ratio_eq hs, ratio_eq hi]

theorem indexGrowthFactor_ge {apyBps dt : ℤ} {f : ℚ} (hapy : 0 ≤ apyBps) (hdt : 0 ≤ dt)
    (h : indexGrowthFactor apyBps dt = some f) : 1 ≤ f := by
  unfold indexGrowthFactor at h
  simp only [Option.bind_eq_bind, Option.bind_eq_some_iff] at h
  obtain ⟨g, hg, t, ht, heq⟩ := h
  obtain rfl := long?_eq hg
  obtain rfl := long?_eq ht
  rw [← Option.some.inj heq]
  refine le_max_of_le_right ?_
  have hgrown : 0 ≤ apyBps * dt := mul_nonneg hapy hdt
  rw [le_div_iff₀ (by norm_num [scalingFactor, secondsPerYear]), one_mul]
  exact_mod_cast (by omega : scalingFactor * secondsPerYear
    ≤ scalingFactor * secondsPerYear + apyBps * dt)

/-! ## the decision up to its index -/

/-- what the short circuits on the rate leave as it is -/
structure SameBase (d d' : Decision) : Prop where
  moduleId : d'.moduleId = d.moduleId
  token : d'.token = d.token
  position : d'.position = d.position
  now : d'.now = d.now
  dt : d'.dt = d.dt
  previousIndex : d'.previousIndex = d.previousIndex
  config : d'.config = d.config

theorem SameBase.trans {d d' d'' : Decision} (h : SameBase d d') (h' : SameBase d' d'') :
    SameBase d d'' :=
  ⟨h'.moduleId.trans h.moduleId, h'.token.trans h.token, h'.position.trans h.position,
    h'.now.trans h.now, h'.dt.trans h.dt, h'.previousIndex.trans h.previousIndex,
    h'.config.trans h.config⟩

theorem applyModuleFrozen_same (w : World) (d : Decision) : SameBase d (applyModuleFrozen w d) := by
  unfold applyModuleFrozen
  split
  · exact ⟨rfl, rfl, rfl, rfl, rfl, rfl, rfl⟩
  · exact ⟨rfl, rfl, rfl, rfl, rfl, rfl, rfl⟩

theorem applyPositionUnwinding_same (d : Decision) : SameBase d (applyPositionUnwinding d) := by
  unfold applyPositionUnwinding
  split
  · exact ⟨rfl, rfl, rfl, rfl, rfl, rfl, rfl⟩
  · exact ⟨rfl, rfl, rfl, rfl, rfl, rfl, rfl⟩

theorem applyStaleOracleDegradation_same {w : World} {d d' : Decision}
    (h : applyStaleOracleDegradation w d = some d') : SameBase d d' := by
  unfold applyStaleOracleDegradation at h
  simp only [Option.bind_eq_bind, Option.bind_eq_some_iff] at h
  obtain ⟨staleness, -, h⟩ := h
  split at h
  · obtain ⟨apy, -, h⟩ := Option.bind_eq_some_iff.mp h
    obtain rfl := Option.some.inj h
    exact ⟨rfl, rfl, rfl, rfl, rfl, rfl, rfl⟩
  · obtain rfl := Option.some.inj h
    exact ⟨rfl, rfl, rfl, rfl, rfl, rfl, rfl⟩

theorem attempt_spec {d d' : Decision} (h : attempt d = some d') :
    SameBase d d' ∧ d'.accrualMode = d.accrualMode ∧ d'.effectiveApyBps = d.effectiveApyBps ∧
      (d.blocked → d'.finalIndex = d.previousIndex) ∧
      (0 ≤ d.previousIndex → 0 ≤ d.effectiveApyBps → 0 ≤ d.dt → d.previousIndex ≤ d'.finalIndex) := by
  unfold attempt at h
  split at h
  · obtain rfl := Option.some.inj h
    exact ⟨⟨rfl, rfl, rfl, rfl, rfl, rfl, rfl⟩, rfl, rfl, fun _ => rfl, fun _ _ _ => le_rfl⟩
  · next hfree =>
    obtain ⟨attempted, hnext, h⟩ := Option.bind_eq_some_iff.mp h
    obtain rfl := Option.some.inj h
    refine ⟨⟨rfl, rfl, rfl, rfl, rfl, rfl, rfl⟩, rfl, rfl, fun hb => absurd hb hfree, ?_⟩
    intro hindex hapy hdt
    unfold nextIndex at hnext
    simp only [Option.bind_eq_bind, Option.bind_eq_some_iff] at hnext
    obtain ⟨index, hi, factor, hf, heq⟩ := hnext
    obtain rfl := ratio_eq hi
    show d.previousIndex ≤ attempted
    rw [← Option.some.inj heq]
    exact le_mul_of_one_le_right hindex (indexGrowthFactor_ge hapy hdt hf)

section
variable {exceeds : ℚ → ℚ → ℚ → Bool} {rising : ℚ → ℚ → Bool}

theorem applyMaxIndexDeltaCap_spec {d d' : Decision}
    (h : applyMaxIndexDeltaCap exceeds rising d = some d') :
    SameBase d d' ∧ d'.accrualMode = d.accrualMode ∧ d'.effectiveApyBps = d.effectiveApyBps ∧
      ((∀ p a, p ≤ a → rising p a) → 0 ≤ d.previousIndex → d.previousIndex ≤ d.finalIndex →
        d.previousIndex ≤ d'.finalIndex) := by
  simp only [applyMaxIndexDeltaCap] at h
  split at h
  · next hover =>
    simp only [Bool.and_eq_true, decide_eq_true_eq] at hover
    split at h
    · obtain ⟨r, hr, h⟩ := Option.bind_eq_some_iff.mp h
      obtain rfl := ratio_eq hr
      obtain rfl := Option.some.inj h
      refine ⟨⟨rfl, rfl, rfl, rfl, rfl, rfl, rfl⟩, rfl, rfl, fun hrising hindex hle => ?_⟩
      simp only [Decision.note, hrising _ _ hle, if_true, one_mul]
      exact le_mul_of_one_le_right hindex (by linarith [hover.2])
    · obtain rfl := Option.some.inj h
      exact ⟨⟨rfl, rfl, rfl, rfl, rfl, rfl, rfl⟩, rfl, rfl, fun _ _ _ => le_rfl⟩
    · obtain rfl := Option.some.inj h
      exact ⟨⟨rfl, rfl, rfl, rfl, rfl, rfl, rfl⟩, rfl, rfl, fun _ _ hle => hle⟩
  · obtain rfl := Option.some.inj h
    exact ⟨⟨rfl, rfl, rfl, rfl, rfl, rfl, rfl⟩, rfl, rfl, fun _ _ hle => hle⟩

/-- the decision up to its index: what it is about, and an index that does not fall -/
structure Indexed (w : World) (opts : Opts) (d : Decision) : Prop where
  moduleId : d.moduleId = opts.moduleId
  token : d.token = opts.token
  position : d.position = opts.positionId.bind (w.resolvePosition opts.moduleId opts.token)
  previousIndex : d.previousIndex = w.resolveIndex opts.moduleId opts.token
  config : d.config = w.resolveAccrualConfig opts.moduleId
  blocked : d.blocked → d.finalIndex = d.previousIndex
  rises : 0 ≤ d.previousIndex → 0 ≤ d.effectiveApyBps → 0 ≤ opts.dt →
    d.previousIndex ≤ d.finalIndex

theorem indexDecision_spec (hrising : ∀ p a, p ≤ a → rising p a) {w : World} {opts : Opts}
    {d : Decision} (h : indexDecision exceeds rising w opts = some d) : Indexed w opts d := by
  unfold indexDecision at h
  simp only [Option.bind_eq_bind, Option.bind_eq_some_iff] at h
  obtain ⟨base, hbase, d₁, hstale, d₂, hattempt, h⟩ := h
  have hsame := (applyModuleFrozen_same w base).trans
    ((applyPositionUnwinding_same _).trans (applyStaleOracleDegradation_same hstale))
  obtain ⟨hsame', hmode, hapy, hstays, hrises⟩ := attempt_spec hattempt
  have hboth := hsame.trans hsame'
  unfold makeDecisionBase at hbase
  obtain ⟨index, hindex, hbase⟩ := Option.bind_eq_some_iff.mp hbase
  obtain rfl := ratio_eq hindex
  obtain rfl := Option.some.inj hbase
  have hprevious : d₂.previousIndex = d₁.previousIndex := hsame'.previousIndex
  have hdt : d₁.dt = opts.dt := hsame.dt
  split at h
  · next hblocked =>
    obtain rfl := Option.some.inj h
    have hfinal : d₂.finalIndex = d₂.previousIndex := (hstays hblocked).trans hprevious.symm
    exact ⟨hboth.moduleId, hboth.token, hboth.position, hboth.previousIndex, hboth.config,
      fun _ => hfinal, fun _ _ _ => hfinal.ge⟩
  · next hfree =>
    obtain ⟨hsame'', hmode', hapy', hcap⟩ := applyMaxIndexDeltaCap_spec h
    have hall := hboth.trans hsame''
    refine ⟨hall.moduleId, hall.token, hall.position, hall.previousIndex, hall.config, ?_, ?_⟩
    · intro hblocked
      have hsameBlocked : d.blocked = d₁.blocked := by
        unfold Decision.blocked
        rw [hmode', hmode]
      exact absurd (hsameBlocked ▸ hblocked) hfree
    · intro hindex hrate htime
      rw [hsame''.previousIndex] at hindex ⊢
      refine hcap hrising hindex ?_
      rw [hprevious] at hindex ⊢
      exact hrises hindex (by rw [← hapy, ← hapy']; exact hrate) (hdt ▸ htime)

end

/-! ## whole units -/

/-- what falls due: the move of the index on the shares, and the dust -/
def due (d : Decision) (p : Position) : ℚ :=
  p.shares * (d.finalIndex - d.previousIndex) + p.accrualDustRemainder

/-- what a decision credits -/
def Decision.credited (d : Decision) : ℤ := d.unrealizedYieldDelta + d.deferredYieldDelta

/-- a decision with its whole units and its dust -/
structure Computed (d d' : Decision) (p : Position) : Prop where
  same : SameBase d d'
  finalIndex : d'.finalIndex = d.finalIndex
  mode : d'.accrualMode = d.accrualMode
  attempted : d'.attemptedAccrualDelta = ⌊due d p⌋
  unrealized : d'.unrealizedYieldDelta = ⌊due d p⌋
  deferred : d'.deferredYieldDelta = 0
  carry : d'.accrualDustCarry = some (Int.fract (due d p))

theorem computeFinalDeltas_spec {d d' : Decision} {p : Position} (hposition : d.position = some p)
    (hshares : 0 ≤ p.shares) (hdust : 0 ≤ p.accrualDustRemainder) (hless : p.accrualDustRemainder < 1)
    (hrises : d.previousIndex ≤ d.finalIndex) (h : computeFinalDeltas d = some d') :
    Computed d d' p := by
  unfold computeFinalDeltas at h
  simp only [hposition, Option.bind_eq_bind, Option.bind_eq_some_iff] at h
  obtain ⟨shares, hs, before, hb, after, ha, dust, hd, q, hq, h⟩ := h
  obtain rfl := ratio_eq hs
  obtain rfl := ratio_eq hd
  have hmove : after - before = p.shares * (d.finalIndex - d.previousIndex) := by
    rw [currentValueExact_eq ha, currentValueExact_eq hb]
    ring
  have hnonneg : 0 ≤ p.shares * (d.finalIndex - d.previousIndex) :=
    mul_nonneg hshares (sub_nonneg.mpr hrises)
  have hquantized : q.units = ⌊due d p⌋ ∧ q.carry = Int.fract (due d p) := by
    unfold due
    rw [hmove, quantizeDelta] at hq
    split at hq
    · exact quantizeWithCarry_eq (by linarith) hq
    · next hzero =>
      -- the index has not moved: the dust is kept as it is
      have hstill : p.shares * (d.finalIndex - d.previousIndex) = 0 :=
        le_antisymm (not_lt.mp hzero) hnonneg
      obtain ⟨units, hunits, rfl⟩ := Option.map_eq_some_iff.mp hq
      obtain ⟨r, hr, rfl⟩ := Option.map_eq_some_iff.mp hunits
      obtain rfl := ratio_eq hr
      rw [hstill, zero_add, Int.floor_zero, Int.floor_eq_zero_iff.mpr ⟨hdust, hless⟩,
        Int.fract_eq_self.mpr ⟨hdust, hless⟩]
      exact ⟨rfl, rfl⟩
  obtain rfl := Option.some.inj h
  exact ⟨⟨rfl, rfl, hposition.symm, rfl, rfl, rfl, rfl⟩, rfl, rfl, hquantized.1, hquantized.1, rfl,
    congrArg some hquantized.2⟩

theorem applyDustThreshold_spec {d d' : Decision} (h : applyDustThreshold d = some d')
    (hnonneg : 0 ≤ d.attemptedAccrualDelta) :
    SameBase d d' ∧ d'.finalIndex = d.finalIndex ∧ d'.deferredYieldDelta = d.deferredYieldDelta ∧
      d'.accrualDustCarry = d.accrualDustCarry ∧
      d'.unrealizedYieldDelta = if ¬ d.blocked ∧ 0 < minDelta d.config ∧
        d.attemptedAccrualDelta < minDelta d.config then 0 else d.unrealizedYieldDelta := by
  unfold applyDustThreshold at h
  obtain ⟨attempted, ha, h⟩ := Option.bind_eq_some_iff.mp h
  obtain rfl := long?_eq ha
  split at h
  · next hunder =>
    obtain rfl := Option.some.inj h
    simp only [Bool.and_eq_true, Bool.not_eq_eq_eq_not, Bool.not_true, decide_eq_true_eq] at hunder
    obtain ⟨⟨⟨hfree, -⟩, hpos⟩, hlt⟩ := hunder
    refine ⟨⟨rfl, rfl, rfl, rfl, rfl, rfl, rfl⟩, rfl, rfl, rfl, ?_⟩
    rw [if_pos ⟨by simp [hfree], hpos, hlt⟩]
    rfl
  · next hover =>
    obtain rfl := Option.some.inj h
    refine ⟨⟨rfl, rfl, rfl, rfl, rfl, rfl, rfl⟩, rfl, rfl, rfl, ?_⟩
    rw [if_neg]
    rintro ⟨hfree, hpos, hlt⟩
    simp only [Bool.not_eq_true] at hfree
    simp [hfree, hnonneg, hpos, hlt] at hover

theorem applyNegativeYieldFloor_nonneg {w : World} {d : Decision}
    (hnonneg : 0 ≤ d.unrealizedYieldDelta) : applyNegativeYieldFloor w d = some d := by
  unfold applyNegativeYieldFloor
  split
  · rfl
  · rw [if_neg (not_lt.mpr hnonneg)]

theorem applyRecoverableLiquidityCap_spec {w : World} {opts : Opts} {d d' : Decision} {p : Position}
    (hposition : d.position = some p) (hdeferred : d.deferredYieldDelta = 0)
    (h : applyRecoverableLiquidityCap w opts d = some d') :
    SameBase d d' ∧ d'.finalIndex = d.finalIndex ∧ d'.accrualDustCarry = d.accrualDustCarry ∧
      (d'.credited = d.unrealizedYieldDelta ↔ (0 < d.unrealizedYieldDelta →
        ∀ m, w.moduleRecoverableMetrics d.moduleId d.token = some m → 0 < m.netSolvent →
          opts.totalUnrealizedYield.getD m.allPositionsYield ≤ m.netSolvent)) := by
  unfold applyRecoverableLiquidityCap at h
  by_cases hpos : 0 < d.unrealizedYieldDelta
  · simp only [hposition, Option.isSome_some, hpos, decide_true, Bool.and_self, if_true] at h
    obtain ⟨m, hm, h⟩ := Option.bind_eq_some_iff.mp h
    obtain ⟨projected, hp, h⟩ := Option.bind_eq_some_iff.mp h
    obtain rfl := long?_eq hp
    simp only [hpos, hm, true_imp_iff, Option.some.injEq, forall_eq']
    split at h
    · next hover =>
      simp only [Bool.and_eq_true, decide_eq_true_eq] at hover
      obtain ⟨excess, he, h⟩ := Option.bind_eq_some_iff.mp h
      obtain ⟨left, hl, h⟩ := Option.bind_eq_some_iff.mp h
      obtain ⟨deferred, hd, h⟩ := Option.bind_eq_some_iff.mp h
      obtain rfl := long?_eq he
      obtain rfl := long?_eq hl
      obtain rfl := long?_eq hd
      obtain rfl := Option.some.inj h
      refine ⟨⟨rfl, rfl, hposition.symm, rfl, rfl, rfl, rfl⟩, rfl, rfl, ?_⟩
      simp only [Decision.credited, Decision.note, hdeferred]
      omega
    · next hunder =>
      obtain rfl := Option.some.inj h
      simp only [Bool.and_eq_true, decide_eq_true_eq, not_and, not_lt] at hunder
      refine ⟨⟨rfl, rfl, rfl, rfl, rfl, rfl, rfl⟩, rfl, rfl, ?_⟩
      rw [Decision.credited, hdeferred, add_zero]
      refine iff_of_true rfl fun hsolvent => ?_
      have hle := hunder hsolvent
      omega
  · simp only [hpos, decide_false, Bool.and_false, if_false, Bool.false_eq_true] at h
    obtain rfl := Option.some.inj h
    refine ⟨⟨rfl, rfl, rfl, rfl, rfl, rfl, rfl⟩, rfl, rfl, ?_⟩
    rw [Decision.credited, hdeferred, add_zero]
    exact iff_of_true rfl fun h => absurd h hpos

/-! ## decisions -/

/-- no short circuit rewrites the whole units that fall due: they are not under the threshold, and the
unrealized yield of the module is not above what it can cover, if it can cover any -/
def Kept (w : World) (opts : Opts) (d : Decision) (units : ℤ) : Prop :=
  0 < units → minDelta d.config ≤ units ∧
    ∀ m, w.moduleRecoverableMetrics d.moduleId d.token = some m → 0 < m.netSolvent →
      opts.totalUnrealizedYield.getD m.allPositionsYield ≤ m.netSolvent

instance decidableKept (w : World) (opts : Opts) (d : Decision) (units : ℤ) :
    Decidable (Kept w opts d units) :=
  inferInstanceAs (Decidable (0 < units → minDelta d.config ≤ units ∧
    ∀ m ∈ w.moduleRecoverableMetrics d.moduleId d.token, 0 < m.netSolvent →
      opts.totalUnrealizedYield.getD m.allPositionsYield ≤ m.netSolvent))

section
variable {exceeds : ℚ → ℚ → ℚ → Bool} {rising : ℚ → ℚ → Bool}

theorem accrualDecision_spec {w : World} {opts : Opts} {d e : Decision} {p : Position}
    (hindexed : indexDecision exceeds rising w opts = some d)
    (h : accrualDecision exceeds rising w opts = some e) (hposition : d.position = some p)
    (hshares : 0 ≤ p.shares) (hdust : 0 ≤ p.accrualDustRemainder)
    (hless : p.accrualDustRemainder < 1) (hrises : d.previousIndex ≤ d.finalIndex)
    (hblocked : d.blocked → d.finalIndex = d.previousIndex) :
    SameBase d e ∧ e.finalIndex = d.finalIndex ∧ e.accrualDustCarry = some (Int.fract (due d p)) ∧
      (e.credited = ⌊due d p⌋ ↔ Kept w opts d ⌊due d p⌋) := by
  have hdue : 0 ≤ due d p :=
    add_nonneg (mul_nonneg hshares (sub_nonneg.mpr hrises)) hdust
  have hunits : 0 ≤ ⌊due d p⌋ := Int.floor_nonneg.mpr hdue
  unfold accrualDecision at h
  simp only [hindexed, Option.bind_eq_bind, Option.bind_some, Option.bind_eq_some_iff] at h
  obtain ⟨computed, hcomputed, above, habove, h⟩ := h
  have hc := computeFinalDeltas_spec hposition hshares hdust hless hrises hcomputed
  obtain ⟨hsame, hfinal, hdeferred, hcarry, hunrealized⟩ :=
    applyDustThreshold_spec habove (hc.attempted ▸ hunits)
  have hmode : computed.blocked = d.blocked := by
    unfold Decision.blocked
    rw [hc.mode]
  rw [hc.attempted, hc.unrealized, hmode, hc.same.config] at hunrealized
  rw [hc.deferred] at hdeferred
  rw [hc.carry] at hcarry
  have hsame' := hc.same.trans hsame
  split at h
  · next hb =>
    -- nothing moves while accrual is blocked, and no whole unit falls due
    obtain rfl := Option.some.inj h
    have hzero : ⌊due d p⌋ = 0 := by
      rw [due, hblocked hb, sub_self, mul_zero, zero_add]
      exact Int.floor_eq_zero_iff.mpr ⟨hdust, hless⟩
    refine ⟨hsame', hfinal.trans hc.finalIndex, hcarry, ?_⟩
    rw [Decision.credited, hdeferred, hunrealized, hzero]
    exact iff_of_true (by simp) fun h => absurd h (lt_irrefl 0)
  · next hfree =>
    obtain ⟨floored, hfloored, h⟩ := Option.bind_eq_some_iff.mp h
    have hnonneg : 0 ≤ above.unrealizedYieldDelta := by
      rw [hunrealized]
      split
      · exact le_rfl
      · exact hunits
    rw [applyNegativeYieldFloor_nonneg hnonneg] at hfloored
    obtain rfl := Option.some.inj hfloored
    obtain ⟨hsame'', hfinal', hcarry', hcredited⟩ :=
      applyRecoverableLiquidityCap_spec (hsame'.position.trans hposition) hdeferred h
    refine ⟨hsame'.trans hsame'', hfinal'.trans (hfinal.trans hc.finalIndex), hcarry'.trans hcarry, ?_⟩
    rw [hsame'.moduleId, hsame'.token] at hcredited
    by_cases hunder : 0 < minDelta d.config ∧ (⌊due d p⌋ : ℚ) < minDelta d.config
    · rw [if_pos ⟨hfree, hunder⟩] at hunrealized
      have hnone : e.credited = 0 := by
        rw [← hunrealized]
        exact hcredited.mpr fun hpos => absurd hpos (by omega)
      rw [hnone]
      constructor
      · exact fun hzero hpos => absurd hpos (by omega)
      · intro hkept
        by_contra hne
        have hmin := (hkept (by omega)).1
        exact absurd hunder.2 (not_lt.mpr hmin)
    · rw [if_neg fun hall => hunder hall.2] at hunrealized
      rw [← hunrealized] at hunder ⊢
      rw [hcredited]
      constructor
      · intro hsolvent hpos
        refine ⟨?_, hsolvent hpos⟩
        by_contra hlt
        have hcast : (0 : ℚ) < above.unrealizedYieldDelta := by exact_mod_cast hpos
        exact hunder ⟨hcast.trans (not_le.mp hlt), not_le.mp hlt⟩
      · exact fun hkept hpos => (hkept hpos).2

end

/-! ## accounts -/

/-- a position and the index of its module -/
structure Account where
  index : ℚ
  position : Position

/-- everything but the account -/
structure Turn where
  world : World
  now : Option ℤ
  dt : ℤ
  totalUnrealizedYield : Option ℤ

namespace Account
variable (a : Account) (t : Turn)

/-- the world of a turn with the account in it -/
def placed : World :=
  { t.world with
    indices := put t.world.indices (a.position.moduleId, a.position.token) a.index
    positions := put t.world.positions a.position.ownerId a.position }

def opts : Opts :=
  ⟨a.position.moduleId, a.position.token, some a.position.ownerId, t.now, t.dt,
    t.totalUnrealizedYield⟩

section
variable (exceeds : ℚ → ℚ → ℚ → Bool) (rising : ℚ → ℚ → Bool)

/-- `accrual-decision`, and then `apply-accrual-decision` -/
def accrue : Option Account := do
  let d ← accrualDecision exceeds rising (a.placed t) (a.opts t)
  let w ← applyAccrualDecision (a.placed t) d
  let p ← w.resolvePosition a.position.moduleId a.position.token a.position.ownerId
  some ⟨w.resolveIndex a.position.moduleId a.position.token, p⟩

/-- the decision of a turn up to its index -/
def indexed : Option Decision := indexDecision exceeds rising (a.placed t) (a.opts t)

/-- time passes at no negative rate -/
def Ordinary : Prop := 0 ≤ t.dt ∧ ∀ d, a.indexed t exceeds rising = some d → 0 ≤ d.effectiveApyBps

/-- the whole units that fall due in a turn are kept -/
def Sound : Prop := ∀ d, a.indexed t exceeds rising = some d →
  Kept (a.placed t) (a.opts t) d ⌊due d a.position⌋

instance decidableOrdinary : Decidable (a.Ordinary t exceeds rising) :=
  inferInstanceAs (Decidable (0 ≤ t.dt ∧ ∀ d ∈ a.indexed t exceeds rising, 0 ≤ d.effectiveApyBps))

instance decidableSound : Decidable (a.Sound t exceeds rising) :=
  inferInstanceAs (Decidable (∀ d ∈ a.indexed t exceeds rising,
    Kept (a.placed t) (a.opts t) d ⌊due d a.position⌋))

end

/-- a turn that throws leaves the account as it is -/
def step (exceeds : ℚ → ℚ → ℚ → Bool) (rising : ℚ → ℚ → Bool) (a : Account) (t : Turn) :
    Except Unit Account :=
  match a.accrue t exceeds rising with
  | none => .error ()
  | some a' => .ok a'

end Account

/-- yield credited to a position between two accounts of it -/
def creditedSince (origin a : Account) : ℤ :=
  (a.position.unrealizedYield + a.position.deferredYield)
    - (origin.position.unrealizedYield + origin.position.deferredYield)

/-- what was credited and the dust are the move of the index on the shares, and the dust is less than a
unit -/
structure Balanced (origin a : Account) : Prop where
  balance : (creditedSince origin a : ℚ) + a.position.accrualDustRemainder
    = origin.position.shares * (a.index - origin.index)
  dust : 0 ≤ a.position.accrualDustRemainder ∧ a.position.accrualDustRemainder < 1

/-- what every turn leaves in order -/
structure Regular (origin a : Account) : Prop where
  index : 0 ≤ a.index
  shares : a.position.shares = origin.position.shares
  dust : 0 ≤ a.position.accrualDustRemainder ∧ a.position.accrualDustRemainder < 1

section
variable {exceeds : ℚ → ℚ → ℚ → Bool} {rising : ℚ → ℚ → Bool}

theorem resolvePosition_placed (a : Account) (t : Turn) :
    (a.placed t).resolvePosition a.position.moduleId a.position.token a.position.ownerId
      = some a.position := by
  simp [World.resolvePosition, Account.placed, find_put]

theorem resolveIndex_placed (a : Account) (t : Turn) :
    (a.placed t).resolveIndex a.position.moduleId a.position.token = a.index := by
  simp [World.resolveIndex, Account.placed, find_put]

theorem applyAccrualDecision_spec {a : Account} {t : Turn} {e : Decision} {w : World}
    (hposition : e.position = some a.position) (hmodule : e.moduleId = a.position.moduleId)
    (htoken : e.token = a.position.token) (h : applyAccrualDecision (a.placed t) e = some w) :
    ∃ p, w.resolvePosition a.position.moduleId a.position.token a.position.ownerId = some p ∧
      w.resolveIndex a.position.moduleId a.position.token = e.finalIndex ∧
      p.moduleId = a.position.moduleId ∧ p.shares = a.position.shares ∧
      p.unrealizedYield = a.position.unrealizedYield + e.unrealizedYieldDelta ∧
      p.deferredYield = a.position.deferredYield + e.deferredYieldDelta ∧
      p.accrualDustRemainder = e.accrualDustCarry.getD 0 := by
  unfold applyAccrualDecision at h
  simp only [hposition] at h
  obtain ⟨updated, hupdated, h⟩ := Option.bind_eq_some_iff.mp h
  obtain ⟨generated, -, h⟩ := Option.bind_eq_some_iff.mp h
  obtain rfl := Option.some.inj h
  unfold accruedPosition at hupdated
  simp only [Option.bind_eq_bind, Option.bind_eq_some_iff] at hupdated
  obtain ⟨held, -, value, -, unrealized, hu, deferred, hd, haircut, -, hp⟩ := hupdated
  obtain rfl := long?_eq hu
  obtain rfl := long?_eq hd
  obtain rfl := Option.some.inj hp
  have hindex : find (put (a.placed t).indices (e.moduleId, e.token) e.finalIndex)
      (a.position.moduleId, a.position.token) = some e.finalIndex := by
    rw [hmodule, htoken, find_put, if_pos rfl]
  unfold World.resolvePosition World.resolveIndex annotateAccrualLoss
  simp only [hindex, find_put, if_true, Option.getD_some]
  split
  · exact ⟨_, Option.filter_some_pos (by simp), trivial, rfl, rfl, rfl, rfl, rfl⟩
  · exact ⟨_, Option.filter_some_pos (by simp), trivial, rfl, rfl, rfl, rfl, rfl⟩

theorem accrue_spec (hrising : ∀ p q, p ≤ q → rising p q) {a a' : Account} {t : Turn}
    (hindex : 0 ≤ a.index) (hshares : 0 ≤ a.position.shares)
    (hdust : 0 ≤ a.position.accrualDustRemainder ∧ a.position.accrualDustRemainder < 1)
    (hordinary : a.Ordinary t exceeds rising) (h : a.accrue t exceeds rising = some a') :
    ∃ d, a.indexed t exceeds rising = some d ∧ a'.index = d.finalIndex ∧ a.index ≤ d.finalIndex ∧
      d.previousIndex = a.index ∧ a'.position.shares = a.position.shares ∧
      a'.position.accrualDustRemainder = Int.fract (due d a.position) ∧
      (creditedSince a a' = ⌊due d a.position⌋ ↔
        Kept (a.placed t) (a.opts t) d ⌊due d a.position⌋) := by
  unfold Account.accrue at h
  simp only [Option.bind_eq_bind, Option.bind_eq_some_iff] at h
  obtain ⟨e, he, w, hw, p, hp, h⟩ := h
  obtain rfl := Option.some.inj h
  have hsome : ∃ d, a.indexed t exceeds rising = some d := by
    unfold accrualDecision at he
    obtain ⟨d, hd, -⟩ := Option.bind_eq_some_iff.mp he
    exact ⟨d, hd⟩
  obtain ⟨d, hd⟩ := hsome
  have hspec := indexDecision_spec hrising hd
  have hposition : d.position = some a.position := hspec.position.trans (resolvePosition_placed a t)
  have hprevious : d.previousIndex = a.index := hspec.previousIndex.trans (resolveIndex_placed a t)
  have hrises := hspec.rises (hprevious.symm ▸ hindex) (hordinary.2 d hd) hordinary.1
  obtain ⟨hsame, hfinal, hcarry, hcredited⟩ := accrualDecision_spec hd he hposition hshares hdust.1
    hdust.2 hrises hspec.blocked
  obtain ⟨p', hp', hindex', -, hshares', hu, hdef, hrest⟩ := applyAccrualDecision_spec
    (hsame.position.trans hposition) (hsame.moduleId.trans hspec.moduleId)
    (hsame.token.trans hspec.token) hw
  obtain rfl := Option.some.inj (hp.symm.trans hp')
  refine ⟨d, hd, hindex'.trans hfinal, hprevious ▸ hrises, hprevious, hshares', ?_, ?_⟩
  · rw [hrest, hcarry]
    rfl
  · rw [← hcredited]
    have hsum : creditedSince a ⟨w.resolveIndex a.position.moduleId a.position.token, p⟩
        = e.credited := by
      show p.unrealizedYield + p.deferredYield
        - (a.position.unrealizedYield + a.position.deferredYield) = e.credited
      rw [hu, hdef, Decision.credited]
      ring
    rw [hsum]

/-! ## runs -/

theorem step_ok {a a' : Account} {t : Turn} (h : Account.step exceeds rising a t = .ok a') :
    a.accrue t exceeds rising = some a' := by
  unfold Account.step at h
  split at h
  · cases h
  · next hs => rw [hs, Except.ok.inj h]

theorem regular_step (hrising : ∀ p q, p ≤ q → rising p q) {origin a a' : Account} {t : Turn}
    (hshares : 0 ≤ origin.position.shares) (hregular : Regular origin a)
    (hordinary : a.Ordinary t exceeds rising) (h : Account.step exceeds rising a t = .ok a') :
    Regular origin a' := by
  obtain ⟨d, -, hindex', hle, -, hshares', hdust, -⟩ := accrue_spec hrising hregular.index
    (hregular.shares ▸ hshares) hregular.dust hordinary (step_ok h)
  exact
    { index := hindex' ▸ hregular.index.trans hle
      shares := hshares'.trans hregular.shares
      dust := hdust ▸ ⟨Int.fract_nonneg _, Int.fract_lt_one _⟩ }

/-- **A turn keeps an account balanced iff it is sound.** -/
theorem balanced_step (hrising : ∀ p q, p ≤ q → rising p q) {origin a a' : Account} {t : Turn}
    (hshares : 0 ≤ origin.position.shares) (hregular : Regular origin a)
    (hbalanced : Balanced origin a) (hordinary : a.Ordinary t exceeds rising)
    (h : Account.step exceeds rising a t = .ok a') :
    Balanced origin a' ↔ a.Sound t exceeds rising := by
  have hregular' := regular_step hrising hshares hregular hordinary h
  obtain ⟨d, hd, hindex', hle, hprevious, hshares', hdust, hkept⟩ := accrue_spec hrising
    hregular.index (hregular.shares ▸ hshares) hregular.dust hordinary (step_ok h)
  have hsound : a.Sound t exceeds rising
      ↔ Kept (a.placed t) (a.opts t) d ⌊due d a.position⌋ := by
    constructor
    · exact fun hs => hs d hd
    · intro hs e he
      obtain rfl := Option.some.inj (hd.symm.trans he)
      exact hs
  -- the credit of the turn is what the balance is short of
  have hsplit : (⌊due d a.position⌋ : ℚ) + Int.fract (due d a.position) = due d a.position :=
    Int.floor_add_fract _
  have hdue : due d a.position = origin.position.shares * (a'.index - a.index)
      + a.position.accrualDustRemainder := by
    rw [due, hindex', hprevious, hregular.shares]
  have hsum : creditedSince origin a' = creditedSince origin a + creditedSince a a' := by
    unfold creditedSince
    ring
  rw [hsound, ← hkept]
  have hbefore := hbalanced.balance
  constructor
  · intro hafter
    have hbalance := hafter.balance
    rw [hsum, hdust] at hbalance
    push_cast at hbalance
    have hcast : (creditedSince a a' : ℚ) = ⌊due d a.position⌋ := by linarith
    exact_mod_cast hcast
  · intro hcredit
    refine ⟨?_, hregular'.dust⟩
    rw [hsum, hdust, hcredit]
    push_cast
    linarith

/-- **Accounts stay balanced over a run iff each of its turns is sound.** -/
theorem accrual_balanced_iff (hrising : ∀ p q, p ≤ q → rising p q) {origin : Account}
    (hindex : 0 ≤ origin.index) (hshares : 0 ≤ origin.position.shares)
    (hdust : origin.position.accrualDustRemainder = 0) {turns : List Turn}
    (hordinary : Along (Account.step exceeds rising) (fun a t => a.Ordinary t exceeds rising) origin
      turns) :
    (∀ n, Balanced origin (run (Account.step exceeds rising) origin (turns.take n)))
      ↔ Along (Account.step exceeds rising) (fun a t => a.Sound t exceeds rising) origin turns := by
  have hregular : Regular origin origin := ⟨hindex, rfl, by rw [hdust]; exact ⟨le_rfl, one_pos⟩⟩
  have hbalanced : Balanced origin origin := by
    refine ⟨?_, hregular.dust⟩
    simp [creditedSince, hdust]
  exact along_iff_kept (fun a t a' hr ho hs => regular_step hrising hshares hr ho hs)
    (fun a t a' hr hb ho hs => balanced_step hrising hshares hr hb ho hs) hregular hbalanced hordinary

end

/-! ## an account of 500 shares -/

/-- comparisons without rounding -/
def exactlyExceeds (p a maxRatio : ℚ) : Bool := decide (p ≠ 0 ∧ maxRatio < |a - p| / p)
def exactlyRising (p a : ℚ) : Bool := decide (p ≤ a)

/-- one position of 500 shares, and 600 tokens to cover it -/
def plainPosition : Position :=
  { ownerId := "owner"
    moduleId := "module"
    token := "USDC"
    principal := 500
    shares := 500
    currentIndex := some 1
    currentValue := some 500
    realizedYield := 0
    unrealizedYield := 0
    deferredYield := 0
    haircutYield := 0
    accrualDustRemainder := 0
    shortfallAffected := false
    oracleStaleAffected := false
    capitalEventAffected := false
    lastAccrualTime := none
    lastAccrualIndex := none
    status := .active
    yieldLoss := none }

def plainAccount : Account := ⟨1, plainPosition⟩

/-- a year at one percent under a threshold -/
def plainYear (minAccrualDelta : ℚ) : Turn :=
  { world :=
      { blockTime := 0
        positions := []
        indices := []
        moduleAliases := []
        moduleStatus := []
        scheduledState := fun _ _ _ => "normal"
        baseApyBps := fun _ _ => 100
        accrualConfig := [("module", ⟨some minAccrualDelta, none, none, none, none, none⟩)]
        risk := []
        oracleStaleSince := []
        totalHeld := [("USDC", 600)]
        heldBalances := []
        totalYieldGenerated := [] }
    now := none
    dt := secondsPerYear
    totalUnrealizedYield := none }

/-- 5 units and then 5.05 fall due, with a threshold of 1 -/
theorem accrual_balanced_plain : Balanced plainAccount
    (run (Account.step exactlyExceeds exactlyRising) plainAccount [plainYear 1, plainYear 1]) := by
  have hall : ∀ n, Balanced plainAccount
      (run (Account.step exactlyExceeds exactlyRising) plainAccount
        ([plainYear 1, plainYear 1].take n)) :=
    (accrual_balanced_iff (fun p q h => decide_eq_true h) (by decide +kernel) (by decide +kernel)
      rfl (by decide +kernel)).mpr (by decide +kernel)
  exact hall 2

/-- 5 units fall due under a threshold of 10: they are neither credited nor carried -/
theorem accrual_drops_units :
    Along (Account.step exactlyExceeds exactlyRising)
      (fun a t => a.Ordinary t exactlyExceeds exactlyRising) plainAccount [plainYear 10] ∧
    ¬ ∀ n, Balanced plainAccount
      (run (Account.step exactlyExceeds exactlyRising) plainAccount ([plainYear 10].take n)) := by
  refine ⟨by decide +kernel, fun hall => ?_⟩
  have hbalance := (hall 1).balance
  revert hbalance
  decide +kernel

end PRF.Yield.Accrual
