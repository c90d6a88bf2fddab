import ProtocolRobustness.Yield.PartialFill
import ProtocolRobustness.Yield.SharedRecords

/-!
# Withdrawals of one owner, and batches of them

`withdraw` and `withdraw-many`: a position is accrued, settled against the available liquidity, and
left `:withdrawn` or `:unwinding`.  A batch settles its owners one after the other against what is
left of one pool.  `none` is an exception.

* `World`, `crystallize`     the positions, the ledger, and the accrual of one of the positions;
* `settle`                   the settlement of a crystallized position, the same text in both;
* `withdraw`                 one owner against its own custody, or else the pool of the token;
* `computeWithdrawalResult`, `withdrawMany`   the rows of a batch, and the batch;
* `claimDeferred`            what is claimed of a shortfall later.
-/

namespace PRF.Yield.Withdraw
open Table

/-! ## positions and worlds -/

structure Shortfall where
  reason : String
  basisAmount : ℤ
  basisNegativeUnrealized : ℤ
  settlementValue : ℤ
  availableRatio : ℚ
  fulfilledAmount : ℤ
  deferredAmount : ℤ
  haircutAmount : ℤ
  asOfIndex : Option ℚ
  startedAt : ℤ
deriving DecidableEq

/-- `account` has the fields that accrual reads and writes -/
structure Position where
  account : Accrual.Position
  principalImpairment : ℤ
  partialFillAffected : Bool
  shortfall : Option Shortfall
deriving DecidableEq

/-- what the settlement reads of a position -/
def Position.claims (p : Position) : Yield.Position where
  principal := p.account.principal
  principalImpairment := p.principalImpairment
  realizedYield := p.account.realizedYield
  unrealizedYield := p.account.unrealizedYield
  deferredYield := p.account.deferredYield

/-- `none` is a key the model does not have -/
structure ShortfallModel where
  type : Option String
  recoverable : Option Bool
deriving DecidableEq

def defaultShortfallModel : ShortfallModel := ⟨some "liquidity-only", some true⟩

structure LedgerRow where
  ownerId : String
  requested : ℤ
  filled : ℤ
  deferred : ℤ
  haircut : ℤ
deriving DecidableEq

structure Ledger where
  kind : String
  moduleId : String
  token : Option String
  ownerIds : List String
  available : ℤ
  requested : ℤ
  filled : ℤ
  deferred : ℤ
  haircut : ℤ
  rows : List LedgerRow
deriving DecidableEq

structure ShortfallEvent where
  positionId : String
  time : ℤ
  deferredAmount : ℤ
  haircutAmount : ℤ
  fulfilledAmount : ℤ
  basisAmount : ℤ
  availableRatio : ℚ
  shortfallKind : String
deriving DecidableEq

/-- `escrowCustody` is the principal and the yield held for an escrow, by token and owner;
`batchRecoverable` is the product of `recoverable` made on doubles -/
structure World extends Shared.Setting where
  positions : List (String × Position)
  indices : List ((String × String) × ℚ)
  totalHeld : List (String × ℤ)
  heldBalances : List (String × ℤ)
  totalYieldGenerated : List (String × ℤ)
  escrowCustody : List ((String × String) × (ℤ × ℤ))
  shortfallModels : List ((String × String) × ShortfallModel)
  batchRecoverable : String → Option String → ℤ → ℤ → ℤ
  withdrawalLedger : List Ledger
  events : List ShortfallEvent

namespace World
variable (w : World)

def position (ownerId : String) : Option Position := find w.positions ownerId

/-- `:total-held`, or else the held balances -/
def sourceLiquidityBalance (token : String) : ℤ :=
  ((find w.totalHeld token).or (find w.heldBalances token)).getD 0

def escrowCustodyBase (token ownerId : String) : Option (Option ℤ) :=
  match find w.escrowCustody (token, ownerId) with
  | none => some none
  | some (principal, yield) => do
    let custody ← long? (principal + yield)
    some (if 0 < custody then some custody else none)

def positionCustodyBase (token ownerId : String) : Option ℤ := do
  let custody ← w.escrowCustodyBase token ownerId
  some (custody.getD (w.sourceLiquidityBalance token))

/-- `:shortfall-model` of the market state -/
def shortfallModel (moduleId token : String) : ShortfallModel :=
  (find w.shortfallModels ((find w.moduleAliases moduleId).getD moduleId, token)).getD
    defaultShortfallModel

def accrual : Accrual.World where
  blockTime := w.now
  positions := w.positions.map fun e => (e.1, e.2.account)
  indices := w.indices
  moduleAliases := w.moduleAliases
  moduleStatus := w.moduleStatus
  scheduledState := w.scheduledState
  baseApyBps := w.baseApyBps
  accrualConfig := w.accrualConfig
  risk := w.risk
  oracleStaleSince := w.oracleStaleSince
  totalHeld := w.totalHeld
  heldBalances := w.heldBalances
  totalYieldGenerated := w.totalYieldGenerated

/-- a decision about the position `p` writes under the owner that the account names -/
def applyAccrualDecision (p : Position) (d : Accrual.Decision) : Option World := do
  let after ← Accrual.applyAccrualDecision w.accrual d
  let w' := { w with indices := after.indices, totalYieldGenerated := after.totalYieldGenerated }
  match d.position with
  | none => some w'
  | some account => do
    let updated ← find after.positions account.ownerId
    some { w' with positions := put w'.positions account.ownerId { p with account := updated } }

/-- `assoc-in` of a position -/
def setPosition (ownerId : String) (p : Position) : World :=
  { w with positions := put w.positions ownerId p }

end World

/-- the comparisons of accrual, made on doubles -/
structure Host where
  exceeds : ℚ → ℚ → ℚ → Bool
  rising : ℚ → ℚ → Bool

/-- the accrual of one position, for no time -/
def crystallize (host : Host) (w : World) (moduleId ownerId : String) (p : Position) :
    Option World := do
  let decision ← Accrual.accrualDecision host.exceeds host.rising w.accrual
    ⟨moduleId, p.account.token, some ownerId, some w.now, 0, none⟩
  w.applyAccrualDecision p decision

/-! ## the settlement -/

structure Totals where
  fulfilled : ℤ
  deferred : ℤ
  haircut : ℤ
  basis : ℤ
deriving DecidableEq

def totalsOf (settlement : Decision) : Option Totals := do
  let fulfilled ← sumLongs (settlement.filled.map Prod.snd)
  let deferred ← sumLongs (settlement.deferred.map Prod.snd)
  let haircut ← sumLongs (settlement.haircut.map Prod.snd)
  let basis ← sumLongs (settlement.requested.map Prod.snd)
  some ⟨fulfilled, deferred, haircut, basis⟩

def deferredAmount (recoverable : Bool) (t : Totals) (extraDeferred : ℤ) : Option ℤ :=
  long? ((if recoverable then t.deferred else 0) + extraDeferred)

def haircutAmount (recoverable : Bool) (t : Totals) (extraDeferred : ℤ) : Option ℤ :=
  if recoverable then some t.haircut
  else do
    let lost ← long? (t.deferred + t.haircut)
    long? (lost + extraDeferred)

/-- a record is made by what is short of the basis, whatever the mode of the settlement -/
def shortfallOf (now : ℤ) (model : ShortfallModel) (p : Position) (t : Totals) :
    Option (Option Shortfall) := do
  let unrealized := p.account.unrealizedYield
  let grossAmount ← long? (p.account.principal + unrealized)
  let negativeUnrealized := min 0 unrealized
  let adjustedBasis ← long? (t.basis + negativeUnrealized)
  let short ← long? (adjustedBasis - t.fulfilled)
  if 0 < short then do
    let recoverable := model.recoverable.getD true
    let extraDeferred := if recoverable ∧ 0 < unrealized then unrealized else 0
    let basisAmount ← long? (adjustedBasis + if 0 < unrealized then unrealized else 0)
    let earned ← long? (p.account.principal + p.account.realizedYield)
    let settlementValue ← long? (earned + unrealized)
    let deferred ← deferredAmount recoverable t extraDeferred
    let haircut ← haircutAmount recoverable t extraDeferred
    some (some
      { reason := model.type.getD "liquidity-shortfall"
        basisAmount
        basisNegativeUnrealized := negativeUnrealized
        settlementValue
        availableRatio := if 0 < grossAmount then t.fulfilled / grossAmount else 1
        fulfilledAmount := t.fulfilled
        deferredAmount := deferred
        haircutAmount := haircut
        asOfIndex := p.account.currentIndex
        startedAt := now })
  else some none

/-- `:realized-yield` after the settlement -/
def realizedAfter (p : Position) (t : Totals) (shortfall : Option Shortfall) : Option ℤ :=
  match shortfall with
  | none => some p.account.unrealizedYield
  | some _ => (long? (t.fulfilled - p.account.principal)).map fun n =>
    max 0 (min p.account.unrealizedYield n)

def settled (p : Position) (mode : SettlementMode) (realizedYield : ℤ)
    (shortfall : Option Shortfall) : Position where
  account := { p.account with
    status := if mode = .partialFill then .unwinding else .withdrawn
    realizedYield
    unrealizedYield := 0 }
  principalImpairment := p.principalImpairment
  partialFillAffected := p.partialFillAffected || decide (mode = .partialFill)
  shortfall

structure Settlement where
  position : Position
  totals : Totals
deriving DecidableEq

/-- a settlement under the default policy -/
def settle (now : ℤ) (model : ShortfallModel) (recoverable : ℤ) (p : Position) :
    Option Settlement := do
  let settlement ← calculateFulfillment Bucket.canonicalKey (max 0 recoverable) p.claims
    ⟨none, none, none, none⟩
  let totals ← totalsOf settlement
  let shortfall ← shortfallOf now model p totals
  let realizedYield ← realizedAfter p totals shortfall
  some ⟨settled p settlement.settlementMode realizedYield shortfall, totals⟩

def Settlement.row (s : Settlement) (ownerId : String) : LedgerRow where
  ownerId
  requested := s.totals.basis
  filled := s.totals.fulfilled
  deferred := s.totals.deferred
  haircut := s.totals.haircut

def emitShortfallEvent (w : World) (ownerId : String) (s : Settlement) : World :=
  match s.position.shortfall with
  | none => w
  | some shortfall =>
    { w with
      events := w.events ++
        [{ positionId := ownerId
           time := w.now
           deferredAmount := s.totals.deferred
           haircutAmount := s.totals.haircut
           fulfilledAmount := s.totals.fulfilled
           basisAmount := s.totals.basis
           availableRatio := shortfall.availableRatio
           shortfallKind := shortfall.reason }] }

section
variable (host : Host)

/-! ## one withdrawal -/

/-- the settlement of the position of an owner, and the world it is made in -/
def settleOwner (w : World) (moduleId ownerId : String) (p : Position) :
    Option (World × Settlement) := do
  let accrued ← crystallize host w moduleId ownerId p
  let crystallized ← accrued.position ownerId
  let base ← accrued.positionCustodyBase p.account.token ownerId
  let recoverable := accrued.recoverable moduleId p.account.token w.now base
  let settlement ← settle w.now (accrued.shortfallModel moduleId p.account.token) recoverable
    crystallized
  some
    ({ accrued.setPosition ownerId settlement.position with
        withdrawalLedger := accrued.withdrawalLedger ++
          [{ kind := "yield/withdrawal-single"
             moduleId
             token := some p.account.token
             ownerIds := [ownerId]
             available := max 0 recoverable
             requested := settlement.totals.basis
             filled := settlement.totals.fulfilled
             deferred := settlement.totals.deferred
             haircut := settlement.totals.haircut
             rows := [settlement.row ownerId] }] }, settlement)

/-- a position that is not active, or is another module's, is left alone -/
def withdraw (w : World) (moduleId ownerId : String) : Option World :=
  match w.position ownerId with
  | none => some w
  | some p =>
    if p.account.status ≠ .active ∨ p.account.moduleId ≠ moduleId then some w
    else (settleOwner host w moduleId ownerId p).map fun x => emitShortfallEvent x.1 ownerId x.2

/-! ## batches -/

structure WithdrawalResult where
  accrued : World
  settlement : Settlement

/-- the result of a row against what is left of the pool, if its position can be withdrawn -/
def computeWithdrawalResult (w : World) (moduleId ownerId : String) (availableLiquidity : ℤ) :
    Option (Option WithdrawalResult) :=
  match w.position ownerId with
  | none => some none
  | some p =>
    if p.account.status = .active ∧ p.account.moduleId = moduleId then do
      let accrued ← crystallize host w moduleId ownerId p
      let crystallized ← accrued.position ownerId
      let settlement ← settle w.now (accrued.shortfallModel moduleId p.account.token)
        (max 0 availableLiquidity) crystallized
      some (some ⟨accrued, settlement⟩)
    else some none

structure Batch where
  w : World
  remaining : ℤ
  filled : ℤ
  requested : ℤ
  deferred : ℤ
  haircut : ℤ
  rows : List LedgerRow

def Batch.add (b : Batch) (ownerId : String) (r : WithdrawalResult) : Option Batch := do
  let t := r.settlement.totals
  let remaining ← long? (b.remaining - t.fulfilled)
  let filled ← long? (b.filled + t.fulfilled)
  let requested ← long? (b.requested + t.basis)
  let deferred ← long? (b.deferred + t.deferred)
  let haircut ← long? (b.haircut + t.haircut)
  some
    { w := emitShortfallEvent (r.accrued.setPosition ownerId r.settlement.position) ownerId
        r.settlement
      remaining, filled, requested, deferred, haircut
      rows := b.rows ++ [r.settlement.row ownerId] }

def withdrawRow (moduleId : String) (b : Batch) (ownerId : String) : Option Batch := do
  match ← computeWithdrawalResult host b.w moduleId ownerId b.remaining with
  | none => some b
  | some r => b.add ownerId r

def batchTokens (w : World) (ownerIds : List String) : List String :=
  (ownerIds.filterMap fun ownerId => (w.position ownerId).map (·.account.token)).dedup

def batchAvailable (w : World) (moduleId : String) (ownerIds : List String) : ℤ :=
  let token := (batchTokens w ownerIds).head?
  w.batchRecoverable moduleId token w.now ((token.map w.sourceLiquidityBalance).getD 0)

def Batch.start (w : World) (available : ℤ) : Batch := ⟨w, available, 0, 0, 0, 0, []⟩

/-- the rows in the order of the owners, from the whole pool -/
def withdrawRows (w : World) (moduleId : String) (ownerIds : List String) : Option Batch :=
  ownerIds.foldlM (withdrawRow host moduleId) (Batch.start w (batchAvailable w moduleId ownerIds))

def withdrawMany (w : World) (moduleId : String) (ownerIds : List String) : Option World :=
  if ¬ ownerIds.Nodup then none
  else if 1 < (batchTokens w ownerIds).length then none
  else do
    let b ← withdrawRows host w moduleId ownerIds
    let available := batchAvailable w moduleId ownerIds
    if available < b.filled then none
    else
      some
        { b.w with
          withdrawalLedger := b.w.withdrawalLedger ++
            [{ kind := "yield/withdrawal-batch"
               moduleId
               token := (batchTokens w ownerIds).head?
               ownerIds
               available
               requested := b.requested
               filled := b.filled
               deferred := b.deferred
               haircut := b.haircut
               rows := b.rows }] }

end

/-! ## claims -/

/-- `availableRatio` and `minRatio` are read from the risk of the module and the token -/
def claimDeferred (availableRatio minRatio : ℚ) (p : Position) : Option Position :=
  match p.shortfall with
  | some shortfall =>
    if minRatio ≤ availableRatio then
      (long? (p.account.realizedYield + shortfall.deferredAmount)).map fun realizedYield =>
        { p with
          account := { p.account with status := .withdrawn, realizedYield }
          shortfall := none }
    else some p
  | none => some p

end PRF.Yield.Withdraw
