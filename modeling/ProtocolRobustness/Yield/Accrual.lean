import ProtocolRobustness.Library.Table
import ProtocolRobustness.Yield.ExactMath

/-!
# Accrual decisions

`yield/accrual.clj`: a decision is computed for one position in exact arithmetic and passed through
the short circuits, then applied.  `none` is an exception.

* `World`                   what accrual reads and writes; keywords are given by their names;
* `applyModuleFrozen`, `applyMaxIndexDeltaCap`, ...   the short circuits;
* `computeFinalDeltas`      whole units, with the fraction carried;
* `coordinateRecoverableLiquidityCap`   the cap over the decisions of a module;
* `accrualDecision`, `applyAccrualDecision`   the decision, and the world after it.

Two comparisons are made on doubles: `exceeds` is the test of an index change against the cap, and
`rising` that of its direction.
-/

namespace PRF.Yield.Accrual
open Table

/-! ## the world -/

inductive PositionStatus
  | active
  | unwinding
  | unwound
  | withdrawn
  | queued
  | settled
deriving DecidableEq

/-- a `:negative-accrual-yield` -/
structure YieldLoss where
  amount : ℤ
  asOfIndex : ℚ
deriving DecidableEq

structure Position where
  ownerId : String
  moduleId : String
  token : String
  principal : ℤ
  shares : ℚ
  currentIndex : Option ℚ
  currentValue : Option ℤ
  realizedYield : ℤ
  unrealizedYield : ℤ
  deferredYield : ℤ
  haircutYield : ℤ
  accrualDustRemainder : ℚ
  shortfallAffected : Bool
  oracleStaleAffected : Bool
  capitalEventAffected : Bool
  lastAccrualTime : Option ℤ
  lastAccrualIndex : Option ℚ
  status : PositionStatus
  yieldLoss : Option YieldLoss
deriving DecidableEq

structure Risk where
  failureModes : List String
  liquidityMode : Option String
  lossMode : String
  negativeYieldFloor : ℤ
  oracleStaleSeconds : ℤ
deriving DecidableEq

def Risk.none : Risk := ⟨[], Option.none, "none", 0, 0⟩

inductive IndexPolicy
  | cap
  | zero
  | other
deriving DecidableEq

/-- `none` is a key the configuration does not have -/
structure AccrualConfig where
  minAccrualDelta : Option ℚ
  maxIndexDeltaRatio : Option ℚ
  maxIndexDeltaPolicy : Option IndexPolicy
  staleOracleMaxSeconds : Option ℤ
  staleOracleFloorBps : Option ℤ
  freezeOn : Option (List String)
deriving DecidableEq

/-- `baseApyBps` is the rate of a module and a token in basis points, `scheduledState` the state of a
module on its schedule -/
structure World where
  blockTime : ℤ
  positions : List (String × Position)
  indices : List ((String × String) × ℚ)
  moduleAliases : List (String × String)
  moduleStatus : List (String × String)
  scheduledState : String → String → ℤ → String
  baseApyBps : String → String → ℤ
  accrualConfig : List (String × AccrualConfig)
  risk : List ((String × String) × Risk)
  oracleStaleSince : List ((String × String) × ℤ)
  totalHeld : List (String × ℤ)
  heldBalances : List (String × ℤ)
  totalYieldGenerated : List (String × ℤ)

namespace World
variable (w : World) (moduleId token : String)

/-- the module behind an alias -/
def resolved : String := (find w.moduleAliases moduleId).getD moduleId

def riskOf : Risk := (find w.risk (moduleId, token)).getD Risk.none

/-! ## what a decision reads -/

def resolvePosition (ownerId : String) : Option Position :=
  (find w.positions ownerId).filter fun p => p.moduleId = moduleId && p.token = token

def resolveIndex : ℚ := (find w.indices (moduleId, token)).getD 1

/-- `:module-state` of the market state -/
def marketState (time : ℤ) : String :=
  let risk := w.riskOf (w.resolved moduleId) token
  if risk.liquidityMode.any (· ≠ "available") then risk.liquidityMode.getD ""
  else
    match (risk.failureModes.insertionSort (· ≤ ·)).head? with
    | some mode => mode
    | none => w.scheduledState (w.resolved moduleId) token time

def resolveModuleStatus (time : ℤ) : String :=
  let status := w.marketState moduleId token time
  if status = "normal" ∨ status = "active" then
    ((find w.moduleStatus (w.resolved moduleId)).or (find w.moduleStatus moduleId)).getD "active"
  else status

def defaultFreezeStatuses : List String :=
  ["frozen", "paused", "emergency-shutdown", "disabled-for-new-deposits", "module-frozen",
    "emergency"]

def resolveModuleFreezeStatuses : List String :=
  ((find w.accrualConfig (w.resolved moduleId)).bind (·.freezeOn)).getD defaultFreezeStatuses

structure Staleness where
  stale : Bool
  staleSeconds : ℤ

def resolveOracleStaleness (now : ℤ) : Option Staleness := do
  let risk := w.riskOf moduleId token
  let staleSeconds ←
    match find w.oracleStaleSince (moduleId, token) with
    | some since => (long? (now - since)).map (max 0)
    | none => some risk.oracleStaleSeconds
  some ⟨decide ("oracle-stale" ∈ risk.failureModes), staleSeconds⟩

def resolveRecoverableLiquidity : ℤ :=
  ((find w.totalHeld token).or (find w.heldBalances token)).getD 0

structure Metrics where
  recoverable : ℤ
  moduleLiabilities : ℤ
  netSolvent : ℤ
  allPositionsYield : ℤ

/-- principal, realized and deferred yield, none of them below nothing -/
def liability (p : Position) : Option ℤ := do
  let earned ← long? (max 0 p.principal + max 0 p.realizedYield)
  long? (earned + max 0 p.deferredYield)

def modulePositions : List Position :=
  (w.positions.map Prod.snd).filter fun p => p.moduleId = moduleId && p.token = token

def moduleRecoverableMetrics : Option Metrics := do
  let recoverable := w.resolveRecoverableLiquidity token
  let positions := w.modulePositions moduleId token
  let liabilities ← positions.mapM liability
  let moduleLiabilities ← sumLongs liabilities
  let left ← long? (recoverable - moduleLiabilities)
  let allPositionsYield ← sumLongs
    ((positions.filter fun p => p.status = .active).map fun p => max 0 p.unrealizedYield)
  some ⟨recoverable, moduleLiabilities, max 0 left, allPositionsYield⟩

def defaultConfig : AccrualConfig := ⟨some 1, some (1 / 20), some .cap, some 86400, some 0, none⟩

def resolveAccrualConfig : AccrualConfig :=
  ((find w.accrualConfig (w.resolved moduleId)).or (find w.accrualConfig moduleId)).getD
    defaultConfig

end World

def Risk.effectiveLossMode (risk : Risk) : String :=
  if risk.lossMode = "none" ∧ "negative-yield" ∈ risk.failureModes then "mark-to-market"
  else risk.lossMode

/-! ## decisions -/

inductive AccrualMode
  | normal
  | dustThreshold
  | moduleFrozen
  | suspended
  | capitalEvent
deriving DecidableEq

inductive ShortCircuit
  | dustThreshold
  | moduleFrozenZeroAccrual
  | positionUnwindingAccrualSuspended
  | staleOracleDegradedApy
  | maxIndexDeltaCapped
  | maxIndexDeltaZeroed
  | negativeYieldFloorBreached
  | recoverableLiquidityCap
deriving DecidableEq

structure Opts where
  moduleId : String
  token : String
  positionId : Option String
  now : Option ℤ
  dt : ℤ
  totalUnrealizedYield : Option ℤ
deriving DecidableEq

structure Decision where
  moduleId : String
  token : String
  position : Option Position
  now : ℤ
  dt : ℤ
  baseApyBps : ℤ
  effectiveApyBps : ℤ
  previousIndex : ℚ
  attemptedIndex : Option ℚ
  finalIndex : ℚ
  attemptedAccrualDelta : ℤ
  finalAccrualDelta : ℤ
  realizedYieldDelta : ℤ
  unrealizedYieldDelta : ℤ
  deferredYieldDelta : ℤ
  haircutYieldDelta : ℤ
  accrualDustCarry : Option ℚ
  accrualMode : AccrualMode
  shortCircuits : List ShortCircuit
  config : AccrualConfig
deriving DecidableEq

namespace Decision

def blocked (d : Decision) : Bool := d.accrualMode = .moduleFrozen || d.accrualMode = .suspended

def note (d : Decision) (s : ShortCircuit) : Decision :=
  { d with shortCircuits := d.shortCircuits ++ [s] }

end Decision

def makeDecisionBase (w : World) (opts : Opts) : Option Decision := do
  let previousIndex ← ratio (w.resolveIndex opts.moduleId opts.token)
  let baseApyBps := w.baseApyBps opts.moduleId opts.token
  some
    { moduleId := opts.moduleId
      token := opts.token
      position := opts.positionId.bind (w.resolvePosition opts.moduleId opts.token)
      now := opts.now.getD w.blockTime
      dt := opts.dt
      baseApyBps := baseApyBps
      effectiveApyBps := baseApyBps
      previousIndex := previousIndex
      attemptedIndex := none
      finalIndex := previousIndex
      attemptedAccrualDelta := 0
      finalAccrualDelta := 0
      realizedYieldDelta := 0
      unrealizedYieldDelta := 0
      deferredYieldDelta := 0
      haircutYieldDelta := 0
      accrualDustCarry := none
      accrualMode := .normal
      shortCircuits := []
      config := w.resolveAccrualConfig opts.moduleId }

/-! ## short circuits on the rate and the index -/

def applyModuleFrozen (w : World) (d : Decision) : Decision :=
  if w.resolveModuleStatus d.moduleId d.token d.now ∈ w.resolveModuleFreezeStatuses d.moduleId then
    { d with
      effectiveApyBps := 0
      finalIndex := d.previousIndex
      finalAccrualDelta := 0
      realizedYieldDelta := 0
      unrealizedYieldDelta := 0
      accrualMode := .moduleFrozen }.note .moduleFrozenZeroAccrual
  else d

def applyPositionUnwinding (d : Decision) : Decision :=
  if d.position.any fun p => p.status = .unwinding then
    { d with
      finalIndex := d.previousIndex
      finalAccrualDelta := 0
      realizedYieldDelta := 0
      unrealizedYieldDelta := 0
      accrualMode := .suspended }.note .positionUnwindingAccrualSuspended
  else d

/-- a positive rate decays to the floor with the seconds that the oracle is stale -/
def apyDegradation (base stale maxSeconds floor : ℤ) : Option ℤ :=
  if base ≤ 0 then some base
  else do
    let left ← long? (maxSeconds - stale)
    let above ← long? (base - floor)
    let degradation : ℚ := max 0 (left / (max 1 maxSeconds : ℤ))
    let (units, _) ← quantizeBaseUnits (above * degradation)
    let effective ← long? (floor + units)
    some (max floor (min base effective))

def applyStaleOracleDegradation (w : World) (d : Decision) : Option Decision := do
  let staleness ← w.resolveOracleStaleness d.moduleId d.token d.now
  if staleness.stale && !d.blocked then
    let effective ← apyDegradation d.baseApyBps staleness.staleSeconds
      (d.config.staleOracleMaxSeconds.getD 86400) (d.config.staleOracleFloorBps.getD 0)
    some ({ d with effectiveApyBps := effective }.note .staleOracleDegradedApy)
  else some d

def secondsPerYear : ℤ := 31536000
def scalingFactor : ℤ := 10000

def indexGrowthFactor (apyBps dt : ℤ) : Option ℚ := do
  let grown ← long? (apyBps * dt)
  let top ← long? (scalingFactor * secondsPerYear + grown)
  some (max 0 (top / (scalingFactor * secondsPerYear : ℤ)))

def nextIndex (index : ℚ) (apyBps dt : ℤ) : Option ℚ := do
  let index ← ratio index
  let factor ← indexGrowthFactor apyBps dt
  some (index * factor)

def attempt (d : Decision) : Option Decision :=
  if d.blocked then
    some { d with attemptedIndex := some d.previousIndex, finalIndex := d.previousIndex }
  else do
    let attempted ← nextIndex d.previousIndex d.effectiveApyBps d.dt
    some { d with attemptedIndex := some attempted, finalIndex := attempted }

section
variable (exceeds : ℚ → ℚ → ℚ → Bool) (rising : ℚ → ℚ → Bool)

/-- the attempted index is the final one so far -/
def applyMaxIndexDeltaCap (d : Decision) : Option Decision :=
  let maxRatio := d.config.maxIndexDeltaRatio.getD (1 / 20)
  let attempted := d.finalIndex
  if exceeds d.previousIndex attempted maxRatio && 0 < maxRatio then
    match d.config.maxIndexDeltaPolicy.getD .cap with
    | .cap => do
      let direction : ℚ := if rising d.previousIndex attempted then 1 else -1
      let maxRatio ← ratio maxRatio
      let capped := d.previousIndex * (1 + direction * maxRatio)
      some ({ d with finalIndex := capped }.note .maxIndexDeltaCapped)
    | .zero => some ({ d with finalIndex := d.previousIndex }.note .maxIndexDeltaZeroed)
    | .other => some d
  else some d

end

/-! ## whole units -/

structure Quantized where
  units : ℤ
  carry : ℚ

def quantizeWithCarry (value priorCarry : ℚ) : Option Quantized := do
  let value ← ratio value
  let priorCarry ← ratio priorCarry
  let (units, rem) ← quantizeBaseUnits (value + priorCarry)
  some ⟨units, rem⟩

def floorRatio (x : ℚ) : Option ℤ := (ratio x).map Int.floor

def currentValueExact (shares index : ℚ) : Option ℚ := do
  let shares ← ratio shares
  let index ← ratio index
  some (shares * index)

/-- a gain is quantized with the dust; a loss passes as it is and leaves the dust -/
def quantizeDelta (deltaExact priorDust : ℚ) : Option Quantized :=
  if 0 < deltaExact then quantizeWithCarry deltaExact priorDust
  else (floorRatio deltaExact).map fun units => ⟨units, priorDust⟩

def computeFinalDeltas (d : Decision) : Option Decision :=
  match d.position with
  | none => some { d with attemptedAccrualDelta := 0, finalAccrualDelta := 0 }
  | some p => do
    let shares ← ratio p.shares
    let prevValue ← currentValueExact shares d.previousIndex
    let finalValue ← currentValueExact shares d.finalIndex
    let deltaExact := finalValue - prevValue
    let priorDust ← ratio p.accrualDustRemainder
    let q ← quantizeDelta deltaExact priorDust
    some
      { d with
        attemptedAccrualDelta := q.units
        finalAccrualDelta := q.units
        realizedYieldDelta := 0
        unrealizedYieldDelta := q.units
        deferredYieldDelta := 0
        haircutYieldDelta := 0
        accrualDustCarry := some q.carry }

/-! ## short circuits on the units -/

def minDelta (config : AccrualConfig) : ℚ := config.minAccrualDelta.getD 1

def applyDustThreshold (d : Decision) : Option Decision := do
  let attempted ← long? d.attemptedAccrualDelta
  if !d.blocked && 0 ≤ attempted && 0 < minDelta d.config && attempted < minDelta d.config then
    some ({ d with
      finalAccrualDelta := 0
      realizedYieldDelta := 0
      unrealizedYieldDelta := 0
      accrualMode := .dustThreshold }.note .dustThreshold)
  else some d

def applyNegativeYieldFloor (w : World) (d : Decision) : Option Decision :=
  match d.position with
  | none => some d
  | some p =>
    if d.unrealizedYieldDelta < 0 then
      if (w.riskOf d.moduleId d.token).effectiveLossMode = "none" then
        some ({ d with
          finalIndex := d.previousIndex
          accrualMode := .capitalEvent
          unrealizedYieldDelta := 0
          finalAccrualDelta := 0
          deferredYieldDelta := 0
          haircutYieldDelta := 0 }.note .negativeYieldFloorBreached)
      else do
        let held ← long? (p.principal + p.unrealizedYield)
        let floorValue ← long? (p.principal - (w.riskOf d.moduleId d.token).negativeYieldFloor)
        if held + d.unrealizedYieldDelta < floorValue then
          some ({ d with
            accrualMode := .capitalEvent
            finalAccrualDelta := d.unrealizedYieldDelta }.note .negativeYieldFloorBreached)
        else some d
    else some d

def applyRecoverableLiquidityCap (w : World) (opts : Opts) (d : Decision) : Option Decision :=
  if d.position.isSome && 0 < d.unrealizedYieldDelta then do
    let metrics ← w.moduleRecoverableMetrics d.moduleId d.token
    let allPositionsYield := opts.totalUnrealizedYield.getD metrics.allPositionsYield
    let projectedTotal ← long? (allPositionsYield + d.unrealizedYieldDelta)
    if 0 < metrics.netSolvent && metrics.netSolvent < projectedTotal then
      let excess ← long? (projectedTotal - metrics.netSolvent)
      let unrealizedExcess := max 0 excess
      let left ← long? (d.unrealizedYieldDelta - unrealizedExcess)
      let realizable := max 0 left
      let deferred ← long? (d.deferredYieldDelta + unrealizedExcess)
      some ({ d with
        unrealizedYieldDelta := min d.unrealizedYieldDelta realizable
        deferredYieldDelta := deferred }.note .recoverableLiquidityCap)
    else some d
  else some d

/-! ## the cap over a module -/

/-- `none` is a position without a decision -/
def batchDelta (d : Option Decision) : ℤ := max 0 ((d.map (·.unrealizedYieldDelta)).getD 0)

/-- what a positive delta is scaled down to, the rest deferred -/
def scaleDecision (scale : ℚ) (d : Option Decision) : Option (Option Decision) :=
  match d with
  | none => some none
  | some d =>
    if 0 < batchDelta (some d) then do
      let delta := batchDelta (some d)
      let realizable ← long? ⌊delta * scale⌋
      let deferredExcess ← long? (delta - realizable)
      if 0 < deferredExcess then
        let deferred ← long? (d.deferredYieldDelta + deferredExcess)
        some (some ({ d with
          unrealizedYieldDelta := realizable
          deferredYieldDelta := deferred }.note .recoverableLiquidityCap))
      else some (some d)
    else some (some d)

/-- decisions that were computed from one world share its headroom -/
def coordinateRecoverableLiquidityCap (w : World) (moduleId token : String)
    (decisions : List (Option Decision)) : Option (List (Option Decision)) := do
  let metrics ← w.moduleRecoverableMetrics moduleId token
  let totalDelta ← sumLongs (decisions.map batchDelta)
  let projectedTotal ← long? (metrics.allPositionsYield + totalDelta)
  let above ← long? (projectedTotal - metrics.netSolvent)
  let excess := max 0 above
  if 0 < metrics.netSolvent ∧ 0 < excess ∧ 0 < totalDelta then
    let left ← long? (totalDelta - excess)
    decisions.mapM (scaleDecision ((max 0 left : ℤ) / totalDelta))
  else some decisions

/-! ## the decision and the world after it -/

section
variable (exceeds : ℚ → ℚ → ℚ → Bool) (rising : ℚ → ℚ → Bool)

def indexDecision (w : World) (opts : Opts) : Option Decision := do
  let base ← makeDecisionBase w opts
  let d ← applyStaleOracleDegradation w (applyPositionUnwinding (applyModuleFrozen w base))
  let attempted ← attempt d
  if d.blocked then some attempted else applyMaxIndexDeltaCap exceeds rising attempted

def accrualDecision (w : World) (opts : Opts) : Option Decision := do
  let d ← indexDecision exceeds rising w opts
  let computed ← computeFinalDeltas d
  let above ← applyDustThreshold computed
  if d.blocked then some above
  else do
    let floored ← applyNegativeYieldFloor w above
    applyRecoverableLiquidityCap w opts floored

end

/-- tagged while its unrealized yield is negative under mark-to-market -/
def annotateAccrualLoss (w : World) (p : Position) (index : ℚ) : Position :=
  if (w.riskOf p.moduleId p.token).effectiveLossMode = "mark-to-market" ∧ p.unrealizedYield < 0 then
    { p with yieldLoss := some ⟨-p.unrealizedYield, index⟩ }
  else { p with yieldLoss := none }

def accruedPosition (d : Decision) (p : Position) : Option Position := do
  let held ← long? (p.principal + p.unrealizedYield)
  let currentValue ← long? (held + d.finalAccrualDelta)
  let unrealizedYield ← long? (p.unrealizedYield + d.unrealizedYieldDelta)
  let deferredYield ← long? (p.deferredYield + d.deferredYieldDelta)
  let haircutYield ← long? (p.haircutYield + d.haircutYieldDelta)
  some
    { p with
      currentIndex := some d.finalIndex
      currentValue := some currentValue
      unrealizedYield := unrealizedYield
      deferredYield := deferredYield
      haircutYield := haircutYield
      accrualDustRemainder := d.accrualDustCarry.getD 0
      lastAccrualTime := some d.now
      lastAccrualIndex := some d.finalIndex
      oracleStaleAffected :=
        p.oracleStaleAffected || decide (.staleOracleDegradedApy ∈ d.shortCircuits)
      capitalEventAffected := p.capitalEventAffected || decide (d.accrualMode = .capitalEvent)
      shortfallAffected :=
        p.shortfallAffected || decide (.recoverableLiquidityCap ∈ d.shortCircuits) }

def applyAccrualDecision (w : World) (d : Decision) : Option World := do
  let w' := { w with indices := put w.indices (d.moduleId, d.token) d.finalIndex }
  match d.position with
  | none => some w'
  | some p =>
    let updated ← accruedPosition d p
    let generated ← long? ((find w.totalYieldGenerated d.token).getD 0 + d.finalAccrualDelta)
    some
      { w' with
        positions := put w'.positions p.ownerId (annotateAccrualLoss w' updated d.finalIndex)
        totalYieldGenerated := put w'.totalYieldGenerated d.token generated }

end PRF.Yield.Accrual
