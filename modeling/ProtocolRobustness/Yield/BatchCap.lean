import ProtocolRobustness.Yield.AccrualRuns

/-!
# The liquidity cap over a batch

Decisions of a module that were computed from one world share the headroom that is left under its
net-solvent funds.  `coordinateRecoverableLiquidityCap` scales what each of them would realize and
defers the rest.

* `sum_floor_scaled`        scaled and cut one by one, the deltas stay under the scaled total;
* `Binds`                   no delta is lost or negative, and the module stays within its funds;
* `coordinate_capped`, `coordinate_uncapped`   the two ways through the cap;
* `coordinate_binds_iff`    it binds iff the module has funds over its liabilities, or there is
                            nothing to realize.
-/

namespace PRF.Yield.Accrual
open Table

/-! ## sums -/

theorem sumLongs_eq {us : List ℤ} {s : ℤ} (h : sumLongs us = some s) : s = us.sum := by
  have hall : ∀ (us : List ℤ) (a s : ℤ),
      us.foldlM (fun s u => long? (s + u)) a = some s → s = a + us.sum := by
    intro us
    induction us with
    | nil =>
      intro a s h
      rw [← Option.some.inj h, List.sum_nil, add_zero]
    | cons u us ih =>
      intro a s h
      rw [List.foldlM_cons] at h
      obtain ⟨b, hb, h⟩ := Option.bind_eq_some_iff.mp h
      rw [ih b s h, long?_eq hb, List.sum_cons, add_assoc]
  rw [hall us 0 s h, zero_add]

theorem sum_floor_scaled (scale : ℚ) (us : List ℤ) :
    (((us.map fun u : ℤ => ⌊(u : ℚ) * scale⌋).sum : ℤ) : ℚ) ≤ us.sum * scale := by
  induction us with
  | nil => simp
  | cons u us ih =>
    rw [List.map_cons, List.sum_cons, List.sum_cons, Int.cast_add, Int.cast_add, add_mul]
    exact add_le_add (Int.floor_le _) ih

theorem eq_zero_of_sum_eq_zero {us : List ℤ} (h0 : ∀ u ∈ us, 0 ≤ u) (hsum : us.sum ≤ 0) :
    ∀ u ∈ us, u = 0 := by
  induction us with
  | nil => simp
  | cons v us ih =>
    have hv := h0 v List.mem_cons_self
    have hus := List.sum_nonneg fun u hu => h0 u (List.mem_cons_of_mem _ hu)
    rw [List.sum_cons] at hsum
    rintro u (_ | ⟨_, hu⟩)
    · omega
    · exact ih (fun u hu => h0 u (List.mem_cons_of_mem _ hu)) (by omega) u hu

/-! ## the metrics of a module -/

theorem moduleRecoverableMetrics_spec {w : World} {moduleId token : String} {m : World.Metrics}
    (h : w.moduleRecoverableMetrics moduleId token = some m) :
    m.netSolvent = max 0 (m.recoverable - m.moduleLiabilities) ∧ 0 ≤ m.allPositionsYield := by
  unfold World.moduleRecoverableMetrics at h
  simp only [Option.bind_eq_bind, Option.bind_eq_some_iff] at h
  obtain ⟨_, _, owed, _, left, hleft, existing, hexisting, h⟩ := h
  obtain rfl := Option.some.inj h
  obtain rfl := long?_eq hleft
  refine ⟨rfl, ?_⟩
  show 0 ≤ existing
  rw [sumLongs_eq hexisting]
  apply List.sum_nonneg
  intro u hu
  obtain ⟨p, _, rfl⟩ := List.mem_map.mp hu
  exact le_max_left _ _

/-! ## deltas of a batch -/

/-- a position without a decision has none -/
def unrealizedDelta (d : Option Decision) : ℤ := (d.map (·.unrealizedYieldDelta)).getD 0
def deferredDelta (d : Option Decision) : ℤ := (d.map (·.deferredYieldDelta)).getD 0

def NonnegDeltas (ds : List (Option Decision)) : Prop :=
  ∀ d ∈ ds, 0 ≤ unrealizedDelta d ∧ 0 ≤ deferredDelta d

instance (ds : List (Option Decision)) : Decidable (NonnegDeltas ds) :=
  inferInstanceAs (Decidable (∀ d ∈ ds, _))

theorem NonnegDeltas.map {ds : List (Option Decision)} (h : NonnegDeltas ds) :
    ∀ u ∈ ds.map unrealizedDelta, 0 ≤ u := by
  intro u hu
  obtain ⟨d, hd, rfl⟩ := List.mem_map.mp hu
  exact (h d hd).1

theorem batchDelta_of {d : Option Decision} (h : 0 ≤ unrealizedDelta d) :
    batchDelta d = unrealizedDelta d :=
  max_eq_right h

theorem map_batchDelta {ds : List (Option Decision)} (h : NonnegDeltas ds) :
    ds.map batchDelta = ds.map unrealizedDelta :=
  List.map_congr_left fun d hd => batchDelta_of (h d hd).1

theorem scaleDecision_spec {scale : ℚ} (h0 : 0 ≤ scale) (h1 : scale < 1) {d d' : Option Decision}
    (hd : 0 ≤ unrealizedDelta d ∧ 0 ≤ deferredDelta d) (h : scaleDecision scale d = some d') :
    unrealizedDelta d' = ⌊unrealizedDelta d * scale⌋ ∧
      unrealizedDelta d' + deferredDelta d' = unrealizedDelta d + deferredDelta d ∧
      0 ≤ unrealizedDelta d' ∧ 0 ≤ deferredDelta d' := by
  cases d with
  | none =>
    obtain rfl : none = d' := Option.some.inj h
    simp [unrealizedDelta, deferredDelta]
  | some d =>
    obtain ⟨hu, hq⟩ := hd
    have hbatch : batchDelta (some d) = d.unrealizedYieldDelta := batchDelta_of hu
    change 0 ≤ d.unrealizedYieldDelta at hu
    change 0 ≤ d.deferredYieldDelta at hq
    unfold scaleDecision at h
    simp only [hbatch] at h
    split at h
    · next hpos =>
      simp only [Option.bind_eq_bind, Option.bind_eq_some_iff] at h
      obtain ⟨realizable, hrealizable, excess, hexcess, h⟩ := h
      obtain rfl := long?_eq hrealizable
      obtain rfl := long?_eq hexcess
      have hcut : (d.unrealizedYieldDelta : ℚ) * scale < d.unrealizedYieldDelta := by
        have hp : (0 : ℚ) < d.unrealizedYieldDelta := by exact_mod_cast hpos
        exact mul_lt_of_lt_one_right hp h1
      have hlt : ⌊(d.unrealizedYieldDelta : ℚ) * scale⌋ < d.unrealizedYieldDelta :=
        Int.floor_lt.mpr hcut
      have hfloor : 0 ≤ ⌊(d.unrealizedYieldDelta : ℚ) * scale⌋ :=
        Int.floor_nonneg.mpr (mul_nonneg (by exact_mod_cast hu) h0)
      rw [if_pos (by omega)] at h
      obtain ⟨deferred, hdeferred, h⟩ := Option.bind_eq_some_iff.mp h
      obtain rfl := long?_eq hdeferred
      obtain rfl := Option.some.inj h
      show ⌊(d.unrealizedYieldDelta : ℚ) * scale⌋ = ⌊(d.unrealizedYieldDelta : ℚ) * scale⌋ ∧
        ⌊(d.unrealizedYieldDelta : ℚ) * scale⌋ + (d.deferredYieldDelta +
          (d.unrealizedYieldDelta - ⌊(d.unrealizedYieldDelta : ℚ) * scale⌋)) =
          d.unrealizedYieldDelta + d.deferredYieldDelta ∧
        0 ≤ ⌊(d.unrealizedYieldDelta : ℚ) * scale⌋ ∧
        0 ≤ d.deferredYieldDelta +
          (d.unrealizedYieldDelta - ⌊(d.unrealizedYieldDelta : ℚ) * scale⌋)
      omega
    · next hpos =>
      obtain rfl := Option.some.inj h
      have hzero : d.unrealizedYieldDelta = 0 := by omega
      simp [unrealizedDelta, deferredDelta, hzero, hq]

/-! ## the cap -/

/-- the cap on a batch that has `existing` units of a module's net-solvent funds before it -/
structure Binds (existing netSolvent : ℤ) (before after : List (Option Decision)) : Prop where
  kept : List.Forall₂ (fun d d' => unrealizedDelta d' + deferredDelta d' =
    unrealizedDelta d + deferredDelta d) before after
  nonneg : NonnegDeltas after
  within : existing < netSolvent → existing + (after.map unrealizedDelta).sum ≤ netSolvent
  exhausted : netSolvent ≤ existing → ∀ d ∈ after, unrealizedDelta d = 0

section
variable {w : World} {moduleId token : String} {m : World.Metrics}
  {ds ds' : List (Option Decision)}

theorem coordinate_capped (hm : w.moduleRecoverableMetrics moduleId token = some m)
    (hds : NonnegDeltas ds) (hnet : 0 < m.netSolvent)
    (hover : m.netSolvent < m.allPositionsYield + (ds.map unrealizedDelta).sum)
    (htotal : 0 < (ds.map unrealizedDelta).sum)
    (h : coordinateRecoverableLiquidityCap w moduleId token ds = some ds') :
    ds.mapM (scaleDecision ((max 0 (m.netSolvent - m.allPositionsYield) : ℤ) /
      (ds.map unrealizedDelta).sum)) = some ds' := by
  unfold coordinateRecoverableLiquidityCap at h
  rw [hm, map_batchDelta hds] at h
  simp only [Option.bind_eq_bind, Option.bind_some, Option.bind_eq_some_iff] at h
  obtain ⟨total, ht, projected, hprojected, above, habove, h⟩ := h
  obtain rfl := sumLongs_eq ht
  obtain rfl := long?_eq hprojected
  obtain rfl := long?_eq habove
  rw [if_pos ⟨hnet, by omega, htotal⟩] at h
  obtain ⟨left, hleft, h⟩ := Option.bind_eq_some_iff.mp h
  obtain rfl := long?_eq hleft
  have hroom : (ds.map unrealizedDelta).sum - max 0 (m.allPositionsYield +
      (ds.map unrealizedDelta).sum - m.netSolvent) = m.netSolvent - m.allPositionsYield := by
    omega
  rwa [hroom] at h

theorem coordinate_uncapped (hm : w.moduleRecoverableMetrics moduleId token = some m)
    (hds : NonnegDeltas ds)
    (hunder : ¬ (0 < m.netSolvent ∧
      m.netSolvent < m.allPositionsYield + (ds.map unrealizedDelta).sum ∧
      0 < (ds.map unrealizedDelta).sum))
    (h : coordinateRecoverableLiquidityCap w moduleId token ds = some ds') : ds' = ds := by
  unfold coordinateRecoverableLiquidityCap at h
  rw [hm, map_batchDelta hds] at h
  simp only [Option.bind_eq_bind, Option.bind_some, Option.bind_eq_some_iff] at h
  obtain ⟨total, ht, projected, hprojected, above, habove, h⟩ := h
  obtain rfl := sumLongs_eq ht
  obtain rfl := long?_eq hprojected
  obtain rfl := long?_eq habove
  rw [if_neg (by omega)] at h
  exact (Option.some.inj h).symm

theorem binds_of_scaled {existing netSolvent : ℤ} (hds : NonnegDeltas ds)
    (hover : netSolvent < existing + (ds.map unrealizedDelta).sum)
    (htotal : 0 < (ds.map unrealizedDelta).sum)
    (h : ds.mapM (scaleDecision ((max 0 (netSolvent - existing) : ℤ) /
      (ds.map unrealizedDelta).sum)) = some ds') : Binds existing netSolvent ds ds' := by
  have hpos : (0 : ℚ) < (ds.map unrealizedDelta).sum := by exact_mod_cast htotal
  have hroom : max 0 (netSolvent - existing) < (ds.map unrealizedDelta).sum := by omega
  have h0 : (0 : ℚ) ≤ (max 0 (netSolvent - existing) : ℤ) / (ds.map unrealizedDelta).sum :=
    div_nonneg (by exact_mod_cast le_max_left 0 _) hpos.le
  have h1 : ((max 0 (netSolvent - existing) : ℤ) : ℚ) / (ds.map unrealizedDelta).sum < 1 :=
    (div_lt_one hpos).mpr (by exact_mod_cast hroom)
  have heach := Fallible.mapM_eq_some_iff.mp h
  generalize hscale : ((max 0 (netSolvent - existing) : ℤ) : ℚ) / (ds.map unrealizedDelta).sum =
    scale at *
  have hspec : List.Forall₂ (fun d d' => unrealizedDelta d' = ⌊unrealizedDelta d * scale⌋ ∧
      unrealizedDelta d' + deferredDelta d' = unrealizedDelta d + deferredDelta d ∧
      0 ≤ unrealizedDelta d' ∧ 0 ≤ deferredDelta d') ds ds' :=
    ((List.forall₂_and_left ds ds').mpr ⟨hds, heach⟩).imp fun d d' hd =>
      scaleDecision_spec h0 h1 hd.1 hd.2
  have hscaled : ds'.map unrealizedDelta =
      (ds.map unrealizedDelta).map fun u : ℤ => ⌊(u : ℚ) * scale⌋ := by
    rw [← List.forall₂_eq_eq_eq, List.map_map, List.forall₂_map_left_iff,
      List.forall₂_map_right_iff]
    exact hspec.flip.imp fun d d' hd => hd.1
  have hnonneg : NonnegDeltas ds' := by
    intro d' hd'
    obtain ⟨d, _, hd⟩ := Fallible.exists_of_mem_right hspec hd'
    exact hd.2.2
  have hsum : (ds'.map unrealizedDelta).sum ≤ max 0 (netSolvent - existing) := by
    have hle := sum_floor_scaled scale (ds.map unrealizedDelta)
    rw [← hscaled, ← hscale, mul_div_cancel₀ _ hpos.ne'] at hle
    exact_mod_cast hle
  refine ⟨hspec.imp fun d d' hd => hd.2.1, hnonneg, fun hlt => by omega, fun hle => ?_⟩
  intro d hd
  exact eq_zero_of_sum_eq_zero hnonneg.map (by omega) _ (List.mem_map_of_mem hd)

theorem binds_of_fits {existing netSolvent : ℤ} (hds : NonnegDeltas ds)
    (hfits : existing + (ds.map unrealizedDelta).sum ≤ netSolvent ∨
      (ds.map unrealizedDelta).sum ≤ 0) : Binds existing netSolvent ds ds := by
  have hsum := List.sum_nonneg hds.map
  refine ⟨List.forall₂_same.mpr fun _ _ => rfl, hds, fun hlt => by omega, fun hle d hd => ?_⟩
  exact eq_zero_of_sum_eq_zero hds.map (by omega) _ (List.mem_map_of_mem hd)

/-- the cap binds iff the module holds more than it owes, or there is nothing to realize -/
theorem coordinate_binds_iff (hm : w.moduleRecoverableMetrics moduleId token = some m)
    (hds : NonnegDeltas ds)
    (h : coordinateRecoverableLiquidityCap w moduleId token ds = some ds') :
    Binds m.allPositionsYield m.netSolvent ds ds' ↔
      m.moduleLiabilities < m.recoverable ∨ ∀ d ∈ ds, unrealizedDelta d = 0 := by
  obtain ⟨hnet, hexisting⟩ := moduleRecoverableMetrics_spec hm
  constructor
  · intro hbinds
    by_cases howed : m.moduleLiabilities < m.recoverable
    · exact Or.inl howed
    · right
      -- without net-solvent funds the guard lets the batch through
      have hnone : m.netSolvent = 0 := by omega
      obtain rfl := coordinate_uncapped hm hds (by omega) h
      exact hbinds.exhausted (by omega)
  · intro hcond
    by_cases hcap : 0 < m.netSolvent ∧
        m.netSolvent < m.allPositionsYield + (ds.map unrealizedDelta).sum ∧
        0 < (ds.map unrealizedDelta).sum
    · obtain ⟨hpos, hover, htotal⟩ := hcap
      exact binds_of_scaled hds hover htotal (coordinate_capped hm hds hpos hover htotal h)
    · obtain rfl := coordinate_uncapped hm hds hcap h
      apply binds_of_fits hds
      rcases hcond with howed | hzero
      · omega
      · right
        rw [List.map_congr_left hzero]
        simp

end

/-! ## two positions of 500 shares -/

/-- the positions after a year at one percent, with `held` tokens behind them -/
def coveredWorld (held : ℤ) : World :=
  { plainAccount.placed (plainYear 1) with
    positions := [("owner", plainPosition), ("other", { plainPosition with ownerId := "other" })]
    totalHeld := [("USDC", held)] }

def coveredBatch (held : ℤ) : List (Option Decision) :=
  ["owner", "other"].map fun owner => accrualDecision exactlyExceeds exactlyRising
    (coveredWorld held) ⟨"module", "USDC", some owner, none, secondsPerYear, none⟩

def coveredMetrics (held : ℤ) : World.Metrics := ⟨held, 1000, max 0 (held - 1000), 0⟩

theorem coveredMetrics_eq (held : ℤ) (h : held = 1000 ∨ held = 1003) :
    (coveredWorld held).moduleRecoverableMetrics "module" "USDC" = some (coveredMetrics held) := by
  rcases h with rfl | rfl <;> rfl

/-- each position would realize 3 of the 3 tokens of headroom by itself -/
theorem coordinate_binds_covered :
    Binds 0 3 (coveredBatch 1003)
      ((coordinateRecoverableLiquidityCap (coveredWorld 1003) "module" "USDC"
        (coveredBatch 1003)).getD []) :=
  (coordinate_binds_iff (coveredMetrics_eq 1003 (Or.inr rfl)) (by decide +kernel)
    (by decide +kernel)).mpr (Or.inl (by decide +kernel))

/-- with 1000 tokens against a debt of 1000, ten units are realized that nothing backs -/
theorem coordinate_unbound :
    (coveredWorld 1000).moduleRecoverableMetrics "module" "USDC" = some (coveredMetrics 1000) ∧
    NonnegDeltas (coveredBatch 1000) ∧
    coordinateRecoverableLiquidityCap (coveredWorld 1000) "module" "USDC" (coveredBatch 1000) =
      some (coveredBatch 1000) ∧
    (coveredBatch 1000).map unrealizedDelta = [5, 5] ∧
    ¬ Binds 0 0 (coveredBatch 1000) (coveredBatch 1000) := by
  refine ⟨coveredMetrics_eq 1000 (Or.inl rfl), by decide +kernel, by decide +kernel,
    by decide +kernel, fun hbinds => ?_⟩
  have hzero := hbinds.exhausted le_rfl
  revert hzero
  decide +kernel

end PRF.Yield.Accrual
