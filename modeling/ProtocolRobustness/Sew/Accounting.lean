import ProtocolRobustness.Canonical.Compare
import ProtocolRobustness.Sew.SlashDistribution

/-!
# Fees, withdrawals and appeal bonds

The operations of `sew/accounting.clj` on fees, claims and appeal bonds.  The id of a bond is the
data its string is written from; the causes and operation ids of a disposition that nothing reads
are left out.

* `withdrawFees`, `withdrawEscrow`     what leaves the protocol;
* `postAppealBond`                     a bond enters custody;
* `recordBondDispositionById`          one bond reaches its terminal disposition;
* `settleAppealBondOnResolution`, `slashBond`, `returnBond`, `returnAllBondsForWorkflow`
                                       the four ways a bond leaves custody.
-/

namespace PRF.Sew
open Table Fallible

/-! ## totals -/

/-- `(update m key (fnil + 0) amount)` -/
def addAt {κ : Type*} [DecidableEq κ] (m : κ → ℤ) (key : κ) (amount : ℤ) : κ → ℤ :=
  Function.update m key (m key + amount)

theorem addAt_apply {κ : Type*} [DecidableEq κ] (m : κ → ℤ) (key other : κ) (amount : ℤ) :
    addAt m key amount other = if key = other then m other + amount else m other := by
  unfold addAt
  by_cases h : key = other
  · subst h
    simp
  · rw [if_neg h, Function.update_of_ne (Ne.symm h)]

/-- `(update-in m [key other] (fnil + 0) amount)` -/
def addAt₂ {κ ι : Type*} [DecidableEq κ] [DecidableEq ι] (m : κ → ι → ℤ) (key : κ) (other : ι)
    (amount : ℤ) : κ → ι → ℤ :=
  Function.update m key (addAt (m key) other amount)

theorem addAt₂_apply {κ ι : Type*} [DecidableEq κ] [DecidableEq ι] (m : κ → ι → ℤ) (key k : κ)
    (other i : ι) (amount : ℤ) :
    addAt₂ m key other amount k i = if key = k ∧ other = i then m k i + amount else m k i := by
  unfold addAt₂
  by_cases h : key = k
  · subst h
    rw [Function.update_self, addAt_apply]
    simp
  · rw [Function.update_of_ne (Ne.symm h), if_neg (fun hk => h hk.1)]

namespace World
variable (w : World)

/-! ## fees -/

def recordFee (token : Token) (amount : ℤ) : World :=
  { w with totals := { w.totals with fees := addAt w.totals.fees token amount } }

def withdrawFees (token : Token) (recipient : Address) : Except Failure World :=
  let amount := w.totals.fees token
  if w.config.reentrancyGuard then .error .reentrancyGuardViolated
  else if amount = 0 then .error .noFeesToWithdraw
  else if token ∈ w.config.tokenLiquidityCrunch then .error .liquidityInsufficient
  else .ok
    { w with
      totals :=
        { w.totals with
          fees := Function.update w.totals.fees token 0
          withdrawn := addAt w.totals.withdrawn token amount
          feesWithdrawn := addAt w.totals.feesWithdrawn token amount
          feePayouts := addAt₂ w.totals.feePayouts token recipient amount } }

/-! ## claims -/

/-- `record-claimable-v2` -/
def recordClaimable (workflowId : ℕ) (domain : ClaimDomain) (address : Address) (amount : ℤ) : World :=
  { w with claims := w.claims.record workflowId domain address amount }

/-- `clear-claimable-v2-kind` -/
def clearClaimableKind (workflowId : ℕ) (domain : ClaimDomain) : World :=
  { w with
    claims := w.claims.filter fun e => !(e.1.workflowId = workflowId && e.1.domain = domain) }

end World

/-- `clear-claimable-v2-for-addr` -/
def Claims.clearAddress (claims : Claims) (workflowId : ℕ) (address : Address) : Claims :=
  claims.filter fun e => !(e.1.workflowId = workflowId && e.1.address = address)

/-- what an address can withdraw from an escrow -/
def Claims.withdrawable (claims : Claims) (workflowId : ℕ) (address : Address) : ℤ :=
  claims.amount workflowId .settlementPrincipal address
    + claims.amount workflowId .settlementYield address
    + claims.amount workflowId .bondRefund address
    + claims.amount workflowId .challengeBounty address

/-- a claim on a settled bond, once it is withdrawn -/
def BondClaim.withdraw (claim : BondClaim) : BondClaim :=
  { claim with claimable := 0, claimed := claim.claimed + claim.claimable }

/-- `mark-appeal-bond-claims-withdrawn` -/
def Bonds.markClaimsWithdrawn (bonds : Bonds) (workflowId : ℕ) (address : Address) : Bonds :=
  { bonds with
    claims := fun bondId recipient =>
      let claim := bonds.claims bondId recipient
      if recipient = address
          && (find bonds.records bondId).any (fun record => record.workflowId = workflowId)
          && claim.any (fun claim => 0 < claim.claimable) then
        claim.map BondClaim.withdraw
      else claim }

def World.withdrawEscrow (w : World) (workflowId : ℕ) (address : Address) : Except Failure World :=
  if w.config.reentrancyGuard then .error .reentrancyGuardViolated
  else
    match w.getTransfer workflowId with
    | none => .error .invalidWorkflowId
    | some et =>
      let amount := w.claims.withdrawable workflowId address
      if ¬ (et.escrowState.terminal ∨ et.escrowState = .pending) then .error .transferNotFinalized
      else if amount = 0 then .error .noClaimableBalance
      else if et.token ∈ w.config.tokenLiquidityCrunch then .error .liquidityInsufficient
      else .ok
        { w with
          claims := w.claims.clearAddress workflowId address
          bonds := w.bonds.markClaimsWithdrawn workflowId address
          totals := { w.totals with withdrawn := addAt w.totals.withdrawn et.token amount } }

/-! ## appeal bonds -/

def appealBondFee (amount feeBps : ℤ) : ℤ := bpsAmount amount feeBps
def appealBondNet (amount feeBps : ℤ) : ℤ := amount - appealBondFee amount feeBps

namespace Bonds
variable (bonds : Bonds)

/-- the bonds of a funder on a workflow -/
def of (workflowId : ℕ) (funder : Address) : List BondRecord :=
  (bonds.records.map Prod.snd).filter fun r => r.workflowId = workflowId && r.funder = funder

/-- `next-appeal-bond-ordinal` -/
def nextOrdinal (workflowId : ℕ) (appellant : Address) : ℕ := (bonds.of workflowId appellant).length

/-- the open bonds of a funder on a workflow -/
def openOf (workflowId : ℕ) (funder : Address) : List BondRecord :=
  (bonds.of workflowId funder).filter fun r => r.status = .opened

/-- all open bonds on a workflow -/
def openOn (workflowId : ℕ) : List BondRecord :=
  (bonds.records.map Prod.snd).filter fun r => r.workflowId = workflowId && r.status = .opened

/-- a disposition of a bond, with its claims -/
def dispose (record : BondRecord) (disposition : Disposition) : Bonds :=
  { bonds with
    records := put bonds.records disposition.bondId
      { record with status := .disposed, remainingCustody := 0 }
    dispositions := put bonds.dispositions (disposition.bondId, disposition.kind) disposition
    claims := disposition.allocations.foldl (fun claims e => Function.update claims
      disposition.bondId (Function.update (claims disposition.bondId) e.1
        (some { allocated := e.2, claimable := e.2, claimed := 0, asset := record.asset })))
      bonds.claims }

end Bonds

namespace World
variable (w : World)

def recordBondDispositionById (bondId : BondId) (kind : DispositionKind)
    (allocations : List (Address × ℤ)) (token : Token) (cause : DispositionCause) :
    Except Failure World :=
  let total := (allocations.map Prod.snd).sum
  match find w.bonds.records bondId with
  | none => .error .unknownAppealBond
  | some record =>
    if record.status ≠ .opened then .error .appealBondNotOpen
    else if token ≠ record.asset then .error .bondTokenMismatch
    else if total ≠ record.custodiedAmount then .error .appealBondConservationFailure
    else .ok
      { w with
        bonds := w.bonds.dispose record
          { bondId := bondId, kind := kind, allocations := allocations, total := total
            cause := cause } }

/-- `record-bond-disposition`, of the only open bond of an appellant -/
def recordBondDisposition (workflowId : ℕ) (appellant : Address) (kind : DispositionKind)
    (amount : ℤ) (token : Token) (cause : DispositionCause) : Except Failure World :=
  match w.bonds.openOf workflowId appellant with
  | [record] =>
    if amount ≠ record.custodiedAmount then .error .appealBondConservationFailure
    else w.recordBondDispositionById record.bondId kind [(appellant, amount)] token cause
  | _ => .error .ambiguousAppealBond

def postAppealBond (workflowId : ℕ) (appellant : Address) (snap : Snapshot) (token : Token)
    (amount : ℤ) : Except Failure World :=
  match w.getTransfer workflowId with
  | none => .error .invalidBondWorkflow
  | some et =>
    if token ≠ et.token then .error .bondTokenMismatch
    else
      let fee := appealBondFee amount snap.appealBondProtocolFeeBps
      let net := appealBondNet amount snap.appealBondProtocolFeeBps
      let ordinal := w.bonds.nextOrdinal workflowId appellant
      let bondId : BondId := ⟨workflowId, appellant, ordinal⟩
      let record : BondRecord :=
        { bondId := bondId, workflowId := workflowId, funder := appellant, ordinal := ordinal
          asset := token, escalationFromLevel := w.disputeLevel workflowId
          postedAmount := amount, postingFee := fee, custodiedAmount := net
          remainingCustody := net, status := .opened }
      let posted : World :=
        { w with
          bonds :=
            { w.bonds with
              records := put w.bonds.records bondId record
              balances := addAt₂ w.bonds.balances workflowId appellant net }
          totals :=
            { w.totals with
              bondFees := addAt w.totals.bondFees token fee
              bondsPosted := addAt w.totals.bondsPosted token amount
              bondPostedByWorkflow := addAt w.totals.bondPostedByWorkflow workflowId amount } }
      posted.addHeld token net .appealBondPosted
        { workflowId := workflowId, bondId := some bondId, actor := some appellant }

/-- the custody of a bond leaves the held ledger -/
def releaseBond (workflowId : ℕ) (record : BondRecord) (token : Token) (amount : ℤ)
    (reason : HeldReason) : Except Failure World :=
  w.subHeld token amount reason
    { workflowId := workflowId, bondId := some record.bondId, actor := some record.funder }

def setBondBalance (workflowId : ℕ) (funder : Address) (amount : ℤ) : World :=
  { w with
    bonds :=
      { w.bonds with
        balances := Function.update w.bonds.balances workflowId
          (Function.update (w.bonds.balances workflowId) funder amount) } }

/-- `settle-appeal-bond-on-resolution`.  A decision like the one before pays the bond to the earlier
resolver, a reversal refunds it. -/
def settleAppealBondOnResolution (workflowId : ℕ) (isRelease : Bool) : Except Failure World :=
  match w.disputeLevel workflowId with
  | 0 => .ok w
  | level + 1 =>
    match w.disputes.previousDecisions workflowId level, w.disputes.challengers workflowId level with
    | some prior, some challenger =>
      match w.bonds.openOf workflowId challenger with
      | [] => .ok w
      | [record] => do
        let sameDecision : Bool := isRelease = prior.isRelease
        let amount := record.custodiedAmount
        let recipient := if sameDecision then prior.resolver else challenger
        let w ← w.releaseBond workflowId record record.asset amount
          (if sameDecision then .appealBondDistributed else .appealBondReturned)
        let w := w.setBondBalance workflowId challenger
          (w.bonds.balances workflowId challenger - amount)
        let w ← w.recordBondDispositionById record.bondId
          (if sameDecision then .distribution else .refund) [(recipient, amount)] record.asset
          (if sameDecision then .appealUpheld else .resolutionReversed)
        .ok (w.recordClaimable workflowId .bondRefund recipient amount)
      | _ => .error .ambiguousAppealBond
    | _, _ => .ok w

/-- `slash-bond`.  Without exactly one open bond the disposition at the end is refused, and the
operation with it. -/
def slashBond (hash : Distribution → String) (workflowId : ℕ) (appellant : Address) :
    Except Failure World :=
  let amount := w.bonds.balances workflowId appellant
  if amount = 0 then .error .noBondToSlash
  else
    match w.getTransfer workflowId, w.bonds.openOf workflowId appellant with
    | none, _ => .error .missingToken
    | some et, [record] => do
      let w ← w.releaseBond workflowId record et.token amount .appealBondSlashed
      let w := w.setBondBalance workflowId appellant 0
      let w : World :=
        { w with bonds := { w.bonds with slashed := addAt w.bonds.slashed workflowId amount } }
      let w ← w.distributeSlashedFunds hash amount none 0 none
      w.recordBondDisposition workflowId appellant .forfeiture amount et.token .explicitForfeit
    | some _, _ => .error .ambiguousAppealBond

def returnBond (workflowId : ℕ) (appellant : Address) : Except Failure World :=
  let amount := w.bonds.balances workflowId appellant
  if amount = 0 then .error .noBondToReturn
  else
    match w.getTransfer workflowId, w.bonds.openOf workflowId appellant with
    | none, _ => .error .missingToken
    | some et, [record] => do
      let w ← w.releaseBond workflowId record et.token amount .appealBondReturned
      let w := w.setBondBalance workflowId appellant 0
      let w := w.recordClaimable workflowId .bondRefund appellant amount
      w.recordBondDisposition workflowId appellant .refund amount et.token .resolutionReversed
    | some _, _ => .error .ambiguousAppealBond

/-- one turn of `return-all-bonds-for-workflow`: the bond is refunded, no claim is recorded -/
def returnBondRecord (workflowId : ℕ) (record : BondRecord) : Except Failure World :=
  if 0 < record.custodiedAmount then do
    let amount := record.custodiedAmount
    let w ← w.releaseBond workflowId record record.asset amount .appealBondReturned
    let w := w.setBondBalance workflowId record.funder
      (w.bonds.balances workflowId record.funder - amount)
    w.recordBondDispositionById record.bondId .refund [(record.funder, amount)] record.asset
      .disputeFinalized
  else .ok w

end World

/-- the order in which bonds are returned: by funder, then by ordinal -/
def returnsBefore (r s : BondRecord) : Prop :=
  if r.funder = s.funder then r.ordinal ≤ s.ordinal else notAfter r.funder s.funder

instance : DecidableRel returnsBefore := fun r s => by
  unfold returnsBefore
  infer_instance

def World.returnAllBondsForWorkflow (w : World) (workflowId : ℕ) : Except Failure World :=
  ((w.bonds.openOn workflowId).insertionSort returnsBefore).foldlM
    (fun w record => w.returnBondRecord workflowId record) w

end PRF.Sew
