import ProtocolRobustness.Sew.Accounting

/-!
# What the bond operations do

One lemma for each operation on appeal bonds: what an accepted operation has checked, and the world
after it.  A bond that leaves custody is disposed of under its own id, after its held position, its
balance and its claim or its distribution were written.

* `Bonds.setBalance`   the balance of a funder after a bond is paid out of it;
* `postAppealBond_ok`, `settleAppealBondOnResolution_ok`, `slashBond_ok`, `returnBond_ok`,
  `returnBondRecord_ok`   the operations.
-/

namespace PRF.Sew
open Table Fallible

def Bonds.setBalance (bonds : Bonds) (workflowId : ℕ) (funder : Address) (amount : ℤ) : Bonds :=
  { bonds with
    balances := Function.update bonds.balances workflowId
      (Function.update (bonds.balances workflowId) funder amount) }

/-- the position a bond is released from -/
def BondRecord.position (record : BondRecord) (workflowId : ℕ) (token : Token) : PositionId :=
  bondPosition token record.bondId workflowId record.funder

theorem sum_allocation (recipient : Address) (amount : ℤ) :
    ([(recipient, amount)].map Prod.snd).sum = amount := by
  simp

section
variable {w w' : World} {bondId : BondId} {kind : DispositionKind}
  {allocations : List (Address × ℤ)} {token : Token} {cause : DispositionCause} {workflowId : ℕ}
  {appellant : Address} {amount : ℤ}

theorem recordBondDispositionById_ok :
    w.recordBondDispositionById bondId kind allocations token cause = .ok w' ↔
      ∃ record, find w.bonds.records bondId = some record ∧ record.status = .opened ∧
        token = record.asset ∧ (allocations.map Prod.snd).sum = record.custodiedAmount ∧
        { w with
          bonds := w.bonds.dispose record
            ⟨bondId, kind, allocations, (allocations.map Prod.snd).sum, cause⟩ } = w' := by
  unfold World.recordBondDispositionById
  cases find w.bonds.records bondId with
  | none => simp
  | some record =>
    simp only [refuse_eq_ok, not_not, ne_eq, Except.ok.injEq, Option.some.injEq, exists_eq_left']

theorem recordBondDisposition_ok :
    w.recordBondDisposition workflowId appellant kind amount token cause = .ok w' ↔
      ∃ record, w.bonds.openOf workflowId appellant = [record] ∧ amount = record.custodiedAmount ∧
        w.recordBondDispositionById record.bondId kind [(appellant, amount)] token cause
          = .ok w' := by
  unfold World.recordBondDisposition
  split
  · next record h => simp [h, require_eq_ok]
  · next h =>
    simp only [reduceCtorEq, false_iff, not_exists, not_and]
    intro record hr
    exact absurd hr (h record)

theorem releaseBond_ok {record : BondRecord} (reason : HeldReason)
    (hr : reason.account = .appealBond) :
    w.releaseBond workflowId record token amount reason = .ok w' ↔
      0 ≤ amount ∧ amount ≤ w.held.total token ∧
      amount ≤ w.held.position (record.position workflowId token) ∧
      { w with held := w.held.move (record.position workflowId token) (-amount) } = w' := by
  have hp : positionId token reason
      { workflowId := workflowId, bondId := some record.bondId, actor := some record.funder }
        = record.position workflowId token := by
    simp only [positionId, hr, HeldAccount.scopeValues, BondRecord.position, bondPosition]
    rfl
  unfold World.releaseBond
  rw [World.subHeld_ok, hp]

/-! ## posting -/

/-- the record of a bond that is posted -/
def World.newBond (w : World) (workflowId : ℕ) (appellant : Address) (token : Token)
    (amount feeBps : ℤ) : BondRecord where
  bondId := ⟨workflowId, appellant, w.bonds.nextOrdinal workflowId appellant⟩
  workflowId := workflowId
  funder := appellant
  ordinal := w.bonds.nextOrdinal workflowId appellant
  asset := token
  escalationFromLevel := w.disputeLevel workflowId
  postedAmount := amount
  postingFee := appealBondFee amount feeBps
  custodiedAmount := appealBondNet amount feeBps
  remainingCustody := appealBondNet amount feeBps
  status := .opened

theorem postAppealBond_ok {snap : Snapshot}
    (h : w.postAppealBond workflowId appellant snap token amount = .ok w') :
    ∃ record, record = w.newBond workflowId appellant token amount snap.appealBondProtocolFeeBps ∧
      0 ≤ record.custodiedAmount ∧
      w'.held = w.held.move (record.position workflowId token) record.custodiedAmount ∧
      w'.bonds =
        { w.bonds with
          records := put w.bonds.records record.bondId record
          balances := addAt₂ w.bonds.balances workflowId appellant record.custodiedAmount } ∧
      w'.claims = w.claims ∧ w'.pools = w.pools ∧ w'.escrows = w.escrows ∧ w'.config = w.config := by
  unfold World.postAppealBond at h
  split at h
  · cases h
  · next et het =>
    simp only [ne_eq, ite_not, require_eq_ok, World.addHeld_ok] at h
    obtain ⟨_, hnet, rfl⟩ := h
    exact ⟨_, rfl, hnet, by rfl, rfl, rfl, rfl, rfl, rfl⟩

/-! ## leaving custody -/

theorem slashBond_ok {hash : Distribution → String}
    (h : w.slashBond hash workflowId appellant = .ok w') :
    ∃ (et : Transfer) (record stored : BondRecord) (dist : Distribution),
      w.getTransfer workflowId = some et ∧
      w.bonds.openOf workflowId appellant = [record] ∧
      find w.bonds.records record.bondId = some stored ∧ stored.status = .opened ∧
      et.token = stored.asset ∧ w.bonds.balances workflowId appellant = stored.custodiedAmount ∧
      0 < w.bonds.balances workflowId appellant ∧
      w.bonds.balances workflowId appellant
        ≤ w.held.position (record.position workflowId et.token) ∧
      Distribution.build w.config.params (w.bonds.balances workflowId appellant) 0 none none
        = some dist ∧
      { w with
        held := w.held.move (record.position workflowId et.token)
          (-w.bonds.balances workflowId appellant)
        bonds :=
          { w.bonds.setBalance workflowId appellant 0 with
            slashed := addAt w.bonds.slashed workflowId
              (w.bonds.balances workflowId appellant) }.dispose stored
            ⟨record.bondId, .forfeiture, [(appellant, w.bonds.balances workflowId appellant)],
              w.bonds.balances workflowId appellant, .explicitForfeit⟩
        pools := if w.pools.applied 0 none = some (hash dist) then w.pools
          else w.pools.distribute dist.final 0 none (hash dist) } = w' := by
  unfold World.slashBond at h
  simp only [refuse_eq_ok] at h
  obtain ⟨hne, h⟩ := h
  split at h
  · cases h
  · next et record het hopen =>
    simp only [bind_eq_ok, releaseBond_ok .appealBondSlashed rfl] at h
    obtain ⟨_, ⟨h0, _, hpos, rfl⟩, w₂, hd, h⟩ := h
    obtain ⟨dist, hbuild, hcase⟩ := World.distributeSlashedFunds_ok hd
    have haward : dist.award = none := (build_no_challenger hbuild).1
    have hw₂ : w₂ = { w with
        held := w.held.move (record.position workflowId et.token)
          (-w.bonds.balances workflowId appellant)
        bonds :=
          { w.bonds.setBalance workflowId appellant 0 with
            slashed := addAt w.bonds.slashed workflowId
              (w.bonds.balances workflowId appellant) }
        pools := if w.pools.applied 0 none = some (hash dist) then w.pools
          else w.pools.distribute dist.final 0 none (hash dist) } := by
      split at hcase
      · next happ =>
        rw [if_pos (by exact happ)]
        exact hcase
      · next happ =>
        rw [if_neg (by exact happ), hcase]
        rfl
    subst hw₂
    obtain ⟨record', hopen', hamount, h⟩ := recordBondDisposition_ok.mp h
    have hrec : record' = record := by
      have hsame : [record'] = [record] := hopen'.symm.trans hopen
      exact (List.cons.inj hsame).1
    subst hrec
    obtain ⟨stored, hfind, hstatus, htoken, hsum, hw'⟩ := recordBondDispositionById_ok.mp h
    rw [sum_allocation] at hsum
    refine ⟨et, record', stored, dist, het, hopen, hfind, hstatus, htoken, hsum, by omega, hpos,
      hbuild, ?_⟩
    rw [sum_allocation] at hw'
    exact hw'
  · cases h

theorem returnBond_ok (h : w.returnBond workflowId appellant = .ok w') :
    ∃ (et : Transfer) (record stored : BondRecord),
      w.getTransfer workflowId = some et ∧
      w.bonds.openOf workflowId appellant = [record] ∧
      find w.bonds.records record.bondId = some stored ∧ stored.status = .opened ∧
      et.token = stored.asset ∧ w.bonds.balances workflowId appellant = stored.custodiedAmount ∧
      0 < w.bonds.balances workflowId appellant ∧
      w.bonds.balances workflowId appellant
        ≤ w.held.position (record.position workflowId et.token) ∧
      { w with
        held := w.held.move (record.position workflowId et.token)
          (-w.bonds.balances workflowId appellant)
        bonds := (w.bonds.setBalance workflowId appellant 0).dispose stored
          ⟨record.bondId, .refund, [(appellant, w.bonds.balances workflowId appellant)],
            w.bonds.balances workflowId appellant, .resolutionReversed⟩
        claims := w.claims.record workflowId .bondRefund appellant
          (w.bonds.balances workflowId appellant) } = w' := by
  unfold World.returnBond at h
  simp only [refuse_eq_ok] at h
  obtain ⟨hne, h⟩ := h
  split at h
  · cases h
  · next et record het hopen =>
    simp only [bind_eq_ok, releaseBond_ok .appealBondReturned rfl] at h
    obtain ⟨_, ⟨h0, _, hpos, rfl⟩, h⟩ := h
    obtain ⟨record', hopen', hamount, h⟩ := recordBondDisposition_ok.mp h
    have hrec : record' = record := by
      have hsame : [record'] = [record] := hopen'.symm.trans hopen
      exact (List.cons.inj hsame).1
    subst hrec
    obtain ⟨stored, hfind, hstatus, htoken, hsum, hw'⟩ := recordBondDispositionById_ok.mp h
    rw [sum_allocation] at hsum
    refine ⟨et, record', stored, het, hopen, hfind, hstatus, htoken, hsum, by omega, hpos, ?_⟩
    rw [sum_allocation] at hw'
    exact hw'
  · cases h

theorem returnBondRecord_ok {record : BondRecord}
    (h : w.returnBondRecord workflowId record = .ok w') :
    (record.custodiedAmount ≤ 0 ∧ w' = w) ∨
    ∃ stored, 0 < record.custodiedAmount ∧
      find w.bonds.records record.bondId = some stored ∧ stored.status = .opened ∧
      record.asset = stored.asset ∧ record.custodiedAmount = stored.custodiedAmount ∧
      record.custodiedAmount ≤ w.held.position (record.position workflowId record.asset) ∧
      { w with
        held := w.held.move (record.position workflowId record.asset) (-record.custodiedAmount)
        bonds := (w.bonds.setBalance workflowId record.funder
          (w.bonds.balances workflowId record.funder - record.custodiedAmount)).dispose stored
          ⟨record.bondId, .refund, [(record.funder, record.custodiedAmount)],
            record.custodiedAmount, .disputeFinalized⟩ } = w' := by
  unfold World.returnBondRecord at h
  split at h
  · next hpos =>
    simp only [bind_eq_ok, releaseBond_ok .appealBondReturned rfl] at h
    obtain ⟨_, ⟨_, _, hheld, rfl⟩, h⟩ := h
    obtain ⟨stored, hfind, hstatus, htoken, hsum, hw'⟩ := recordBondDispositionById_ok.mp h
    rw [sum_allocation] at hsum hw'
    exact Or.inr ⟨stored, hpos, hfind, hstatus, htoken, hsum, hheld, hw'⟩
  · next hpos => exact Or.inl ⟨not_lt.mp hpos, (Except.ok.inj h).symm⟩

theorem settleAppealBondOnResolution_ok {isRelease : Bool}
    (h : w.settleAppealBondOnResolution workflowId isRelease = .ok w') :
    w' = w ∨
    ∃ (level : ℕ) (prior : Decision) (challenger recipient : Address) (record stored : BondRecord)
      (disposition : Disposition),
      w.disputeLevel workflowId = level + 1 ∧
      w.disputes.previousDecisions workflowId level = some prior ∧
      w.disputes.challengers workflowId level = some challenger ∧
      w.bonds.openOf workflowId challenger = [record] ∧
      find w.bonds.records record.bondId = some stored ∧ stored.status = .opened ∧
      record.asset = stored.asset ∧ record.custodiedAmount = stored.custodiedAmount ∧
      0 ≤ record.custodiedAmount ∧
      record.custodiedAmount ≤ w.held.position (record.position workflowId record.asset) ∧
      recipient = (if isRelease = prior.isRelease then prior.resolver else challenger) ∧
      disposition.bondId = record.bondId ∧ disposition.kind ≠ .forfeiture ∧
      disposition.allocations = [(recipient, record.custodiedAmount)] ∧
      disposition.total = record.custodiedAmount ∧
      { w with
        held := w.held.move (record.position workflowId record.asset) (-record.custodiedAmount)
        bonds := (w.bonds.setBalance workflowId challenger
          (w.bonds.balances workflowId challenger - record.custodiedAmount)).dispose stored
          disposition
        claims := w.claims.record workflowId .bondRefund recipient record.custodiedAmount } = w' := by
  unfold World.settleAppealBondOnResolution at h
  split at h
  · exact Or.inl (Except.ok.inj h).symm
  · next level hlevel =>
    split at h
    · next prior challenger hprior hchallenger =>
      split at h
      · exact Or.inl (Except.ok.inj h).symm
      · next record hopen =>
        have hreason : (if isRelease = prior.isRelease
            then HeldReason.appealBondDistributed else .appealBondReturned).account
              = .appealBond := by
          split <;> rfl
        simp only [decide_eq_true_eq, bind_eq_ok, releaseBond_ok _ hreason] at h
        obtain ⟨_, ⟨h0, _, hheld, rfl⟩, _, h, hw'⟩ := h
        obtain ⟨stored, hfind, hstatus, htoken, hsum, rfl⟩ := recordBondDispositionById_ok.mp h
        rw [sum_allocation] at hsum
        refine Or.inr ⟨level, prior, challenger, _, record, stored, _, hlevel, hprior, hchallenger,
          hopen, hfind, hstatus, htoken, hsum, h0, hheld, rfl, rfl, ?_, rfl, sum_allocation _ _,
          Except.ok.inj hw'⟩
        dsimp only
        split <;> decide
      · cases h
    · exact Or.inl (Except.ok.inj h).symm

end

end PRF.Sew
