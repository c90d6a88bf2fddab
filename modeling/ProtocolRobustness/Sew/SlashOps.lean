import ProtocolRobustness.Sew.Docket

/-!
# What the operations on slashes do

One lemma for each operation on slashes: what an accepted operation has checked, and the world after
it.  A proposal enters the registry, an appeal puts its bond in custody and its resolution takes it
out again; an execution debits the stakes and ends with the clean-up of the workflow.

* `proposeFraudSlash_ok`, `proposeFraudGroupSlash_ok`     the proposals;
* `appealSlash_ok`, `resolveAppeal_ok`, `appealFraudGroupSlash_ok`, `resolveFraudGroupAppeal_ok`
                                                          the appeals;
* `executeFraudSlash_ok`, `executeFraudGroupSlash_ok`, `payMember_ok`   the executions;
* `*_desk`                                                none of them touches escrows and disputes.
-/

namespace PRF.Sew
open Table Fallible LongArith

section
variable {w w' : World} {workflowId slashId : ℕ} {amount : ℤ}

/-! ## proposals -/

/-- the world after an entry enters the registry -/
def World.withSlash (w : World) (entry : SlashEntry) : World :=
  { w with
    slashes :=
      { w.slashes with
        pending := put w.slashes.pending entry.slashId entry
        byContext := Function.update w.slashes.byContext entry.workflowId
          (Function.update (w.slashes.byContext entry.workflowId) entry.kind
            (Function.update (w.slashes.byContext entry.workflowId entry.kind) entry.level
              (some entry.slashId)))
        nextSlashId := entry.slashId + 1 } }

theorem insertSlash_ok {entry : SlashEntry} : w.insertSlash entry = .ok w' ↔
    entry.slashId ≤ maxSupportedId ∧ entry.workflowId ≤ maxSupportedId ∧
      w.getSlash entry.slashId = none ∧
      w.slashes.byContext entry.workflowId entry.kind entry.level = none ∧
      w.withSlash entry = w' := by
  unfold World.insertSlash
  simp only [refuse_eq_ok, not_lt, Option.not_isSome_iff_eq_none, Except.ok.injEq]
  rfl

theorem allocateSlashId_ok {id : ℕ} : w.allocateSlashId = .ok id ↔
    w.slashes.nextSlashId ≤ maxSupportedId ∧ w.slashes.nextSlashId = id := by
  unfold World.allocateSlashId
  simp only [refuse_eq_ok, not_lt, Except.ok.injEq]

theorem proposeFraudSlash_ok {caller : Option Address} {resolver : Address}
    (h : w.proposeFraudSlash workflowId caller resolver amount = .ok w') :
    w.activeManualFraudSlash workflowId = false ∧ 0 < amount ∧
      w.insertSlash (w.fraudEntry w.slashes.nextSlashId workflowId resolver amount) = .ok w' := by
  unfold World.proposeFraudSlash at h
  simp only [refuse_eq_ok] at h
  obtain ⟨_, h⟩ := h
  split at h
  · cases h
  · simp only [refuse_eq_ok, bind_eq_ok, allocateSlashId_ok] at h
    obtain ⟨_, hactive, hamount, _, _, _, _, _, _, id, ⟨_, rfl⟩, h⟩ := h
    exact ⟨by simpa using hactive, not_le.mp hamount, h⟩

theorem proposeFraudGroupSlash_ok {allocate : GroupAllocator} {caller : Option Address}
    {ids : List Address} {incidentFound : Bool}
    (h : w.proposeFraudGroupSlash allocate workflowId caller ids amount incidentFound = .ok w') :
    w.activeManualFraudSlash workflowId = false ∧ 0 < amount ∧ ids.Nodup ∧
      (∃ allocations, allocate amount (w.snapshotMembers ids) = .ok allocations) ∧
      w.insertSlash (w.groupEntry w.slashes.nextSlashId workflowId (w.snapshotMembers ids) amount)
        = .ok w' := by
  unfold World.proposeFraudGroupSlash at h
  simp only [refuse_eq_ok] at h
  obtain ⟨_, h⟩ := h
  split at h
  · cases h
  · simp only [refuse_eq_ok, bind_eq_ok, allocateSlashId_ok, Except.ok.injEq] at h
    obtain ⟨_, _, _, hnodup, hamount, _, _, _, _, hactive, _, id, ⟨_, rfl⟩, allocations, hallocate,
      w₁, h₁, _, _, rfl⟩ := h
    exact ⟨by simpa using hactive, not_le.mp hamount, not_not.mp hnodup, ⟨_, hallocate⟩, h₁⟩

/-! ## bonds of appeals -/

def appealPosition (token : Token) (workflowId slashId : ℕ) (actor : Address) : PositionId :=
  ⟨token, .appealBond, [.id slashId, .id workflowId, .address actor]⟩

theorem positionId_appealScope (token : Token) {reason : HeldReason}
    (hr : reason.account = .appealBond) (workflowId slashId : ℕ) (actor : Address) :
    positionId token reason (World.appealScope workflowId slashId (some actor))
      = appealPosition token workflowId slashId actor := by
  simp only [positionId, hr, HeldAccount.scopeValues, World.appealScope, appealPosition]
  rfl

variable {token : Option Token} {caller resolver : Address}

theorem postSlashAppealBond_ok
    (h : w.postSlashAppealBond workflowId slashId caller token amount = .ok w') :
    ∃ t, token = some t ∧ 0 ≤ amount ∧
      { w with
        held := w.held.move (appealPosition t workflowId slashId caller) amount
        totals :=
          { w.totals with
            bondsPosted := addAt w.totals.bondsPosted t amount
            bondPostedByWorkflow := addAt w.totals.bondPostedByWorkflow workflowId amount } }
        = w' := by
  unfold World.postSlashAppealBond at h
  split at h
  · cases h
  · next t =>
    rw [World.addHeld_ok, positionId_appealScope t rfl] at h
    exact ⟨t, rfl, h.1, h.2⟩

theorem returnSlashAppealBond_ok {resolver : Option Address}
    (h : w.returnSlashAppealBond workflowId slashId resolver token amount = .ok w') :
    ∃ t r, token = some t ∧ resolver = some r ∧
      amount ≤ w.held.position (appealPosition t workflowId slashId r) ∧
      { w with
        held := w.held.move (appealPosition t workflowId slashId r) (-amount)
        claims := w.claims.record workflowId .bondRefund r amount } = w' := by
  unfold World.returnSlashAppealBond at h
  split at h
  · next t r =>
    obtain ⟨w₁, h₁, rfl⟩ := map_eq_ok.mp h
    rw [World.subHeld_ok, positionId_appealScope t rfl] at h₁
    obtain ⟨_, _, hheld, rfl⟩ := h₁
    exact ⟨t, r, rfl, rfl, hheld, rfl⟩
  · cases h

theorem forfeitSlashAppealBond_ok
    (h : w.forfeitSlashAppealBond workflowId slashId (some resolver) token amount = .ok w') :
    ∃ t, token = some t ∧
      amount ≤ w.held.position (appealPosition t workflowId slashId resolver) ∧
      ({ w with
        held := w.held.move (appealPosition t workflowId slashId resolver) (-amount) } :
        World).recordForfeited t amount = w' := by
  unfold World.forfeitSlashAppealBond at h
  split at h
  · next t =>
    obtain ⟨w₁, h₁, rfl⟩ := map_eq_ok.mp h
    rw [World.subHeld_ok, positionId_appealScope t rfl] at h₁
    obtain ⟨_, _, hheld, rfl⟩ := h₁
    exact ⟨t, rfl, hheld, rfl⟩
  · cases h

theorem forfeitSlashAppealBond_desk {resolver : Option Address}
    (h : w.forfeitSlashAppealBond workflowId slashId resolver token amount = .ok w') :
    w'.desk = w.desk := by
  unfold World.forfeitSlashAppealBond at h
  split at h
  · obtain ⟨w₁, h₁, rfl⟩ := map_eq_ok.mp h
    have hcore := subHeld_core h₁
    exact (desk_of_docket (docket_of_core hcore) : w₁.desk = w.desk)
  · cases h

/-! ## appeals -/

/-- an entry whose slash is appealed, with its bond -/
def SlashEntry.appealed (entry : SlashEntry) (bond : ℤ) : SlashEntry :=
  { entry with
    appealBondHeld := if 0 < bond then bond else entry.appealBondHeld
    status := .appealed }

/-- an entry whose appeal is resolved -/
def SlashEntry.resolved (entry : SlashEntry) (upheld : Bool) : SlashEntry :=
  { entry with
    appealBondHeld := 0
    status := if upheld then .reversed else .pending }

theorem appealSlash_ok (h : w.appealSlash workflowId caller slashId = .ok w') :
    ∃ entry, w.getSlash slashId = some entry ∧ entry.workflowId = workflowId ∧
      entry.status = .pending ∧ entry.resolver = some caller ∧
      w.blockTs ≤ entry.appealDeadline ∧
      ((w.slashAppealBond workflowId ≤ 0 ∧
          w.putSlash slashId (entry.appealed (w.slashAppealBond workflowId)) = w') ∨
        (0 < w.slashAppealBond workflowId ∧
          ((w.putSlash slashId (entry.appealed (w.slashAppealBond workflowId))).setCustody slashId
            (some ⟨caller, workflowId, w.slashAppealBond workflowId,
              (w.getTransfer workflowId).map Transfer.token⟩)).postSlashAppealBond workflowId
            slashId caller ((w.getTransfer workflowId).map Transfer.token)
            (w.slashAppealBond workflowId) = .ok w')) := by
  unfold World.appealSlash at h
  simp only [refuse_eq_ok] at h
  obtain ⟨_, h⟩ := h
  split at h
  · cases h
  · next entry hentry =>
    simp only [ne_eq, ite_not, require_eq_ok, refuse_eq_ok, not_lt] at h
    obtain ⟨hwf, hstatus, htime, hresolver, h⟩ := h
    refine ⟨entry, hentry, hwf, hstatus, hresolver, htime, ?_⟩
    unfold SlashEntry.appealed
    split at h
    · next hbond =>
      rw [if_pos hbond]
      exact Or.inr ⟨hbond, h⟩
    · next hbond =>
      rw [if_neg hbond]
      exact Or.inl ⟨not_lt.mp hbond, Except.ok.inj h⟩

/-- the custody of an appeal, as far as it is recorded -/
def World.custodyResolver (w : World) (slashId : ℕ) (entry : SlashEntry) : Option Address :=
  (w.slashes.custody slashId).map AppealCustody.resolver <|> entry.resolver

def World.custodyWorkflow (w : World) (slashId : ℕ) (entry : SlashEntry) : ℕ :=
  ((w.slashes.custody slashId).map AppealCustody.workflowId).getD entry.workflowId

def World.custodyToken (w : World) (slashId : ℕ) (entry : SlashEntry) : Option Token :=
  (w.slashes.custody slashId).bind AppealCustody.token <|> entry.token

theorem resolveAppeal_ok {caller : Option Address} {upheld provenance : Bool}
    (h : w.resolveAppeal workflowId caller upheld slashId provenance = .ok w') :
    ∃ entry, w.getSlash slashId = some entry ∧ entry.workflowId = workflowId ∧
      entry.kind ≠ .fraudGroup ∧ entry.status = .appealed ∧
      ((entry.appealBondHeld ≤ 0 ∧
          (w.putSlash slashId (entry.resolved upheld)).setCustody slashId none = w') ∨
        (0 < entry.appealBondHeld ∧ upheld = true ∧
          ((w.putSlash slashId (entry.resolved upheld)).setCustody slashId
            none).returnSlashAppealBond (w.custodyWorkflow slashId entry) slashId
            (w.custodyResolver slashId entry) (w.custodyToken slashId entry) entry.appealBondHeld
            = .ok w') ∨
        (0 < entry.appealBondHeld ∧ upheld = false ∧
          ((w.putSlash slashId (entry.resolved upheld)).setCustody slashId
            none).forfeitSlashAppealBond (w.custodyWorkflow slashId entry) slashId
            (w.custodyResolver slashId entry) (w.custodyToken slashId entry) entry.appealBondHeld
            = .ok w')) := by
  unfold World.resolveAppeal at h
  simp only [refuse_eq_ok] at h
  obtain ⟨_, h⟩ := h
  split at h
  · cases h
  · next entry hentry =>
    simp only [ne_eq, ite_not, require_eq_ok, refuse_eq_ok] at h
    obtain ⟨hwf, hkind, _, _, hstatus, _, h⟩ := h
    refine ⟨entry, hentry, hwf, hkind, hstatus, ?_⟩
    split at h
    · next hbond =>
      cases upheld with
      | true =>
        rw [if_pos rfl] at h
        exact Or.inr (Or.inl ⟨hbond, rfl, h⟩)
      | false =>
        rw [if_neg Bool.false_ne_true] at h
        exact Or.inr (Or.inr ⟨hbond, rfl, h⟩)
    · next hbond => exact Or.inl ⟨not_lt.mp hbond, Except.ok.inj h⟩

/-! ## appeals of members -/

def memberAppeal (debit bond : ℤ) : MemberAppeal where
  status := .appealed
  allocatedDebit := debit
  appealBondHeld := bond

/-- an appeal of a member, once it is resolved -/
def MemberAppeal.resolved (appeal : MemberAppeal) (upheld : Bool) : MemberAppeal :=
  { appeal with
    status := if upheld then .upheld else .rejected
    appealBondHeld := 0 }

def SlashEntry.withAppeal (entry : SlashEntry) (member : Address) (appeal : MemberAppeal) :
    SlashEntry :=
  { entry with appeals := put entry.appeals member appeal }

theorem appealFraudGroupSlash_ok {allocate : GroupAllocator}
    (h : w.appealFraudGroupSlash allocate workflowId caller slashId = .ok w') :
    ∃ entry debit, w.getSlash slashId = some entry ∧ entry.workflowId = workflowId ∧
      entry.kind = .fraudGroup ∧ entry.status = .pending ∧ w.blockTs ≤ entry.appealDeadline ∧
      caller ∈ entry.members.map Member.id ∧ find entry.appeals caller = none ∧
      ∃ appealed : World, appealed = (w.putSlash slashId (entry.withAppeal caller
          (memberAppeal debit (w.slashAppealBond workflowId)))).setMemberCustody slashId caller
          (some ⟨caller, workflowId, w.slashAppealBond workflowId,
            (w.getTransfer workflowId).map Transfer.token⟩) ∧
        ((w.slashAppealBond workflowId ≤ 0 ∧ appealed = w') ∨
          (0 < w.slashAppealBond workflowId ∧ appealed.postSlashAppealBond workflowId slashId caller
            ((w.getTransfer workflowId).map Transfer.token) (w.slashAppealBond workflowId)
              = .ok w')) := by
  unfold World.appealFraudGroupSlash at h
  simp only [refuse_eq_ok] at h
  obtain ⟨_, h⟩ := h
  split at h
  · cases h
  · next entry hentry =>
    simp only [ne_eq, ite_not, require_eq_ok, refuse_eq_ok, not_lt, bind_eq_ok] at h
    obtain ⟨hwf, hkind, hstatus, htime, hmember, hnew, allocations, _, h⟩ := h
    refine ⟨entry, (find allocations caller).getD 0, hentry, hwf, hkind, hstatus, htime, hmember,
      by simpa using hnew, _, rfl, ?_⟩
    split at h
    · next hbond => exact Or.inr ⟨hbond, h⟩
    · next hbond => exact Or.inl ⟨not_lt.mp hbond, Except.ok.inj h⟩

/-- the bond of the appeal of a member, as far as it is recorded -/
def World.memberBond (w : World) (slashId : ℕ) (member : Address) : ℤ :=
  ((w.slashes.memberCustody slashId member).map AppealCustody.amount).getD 0

theorem resolveFraudGroupAppeal_ok {caller : Option Address} {member : Address}
    {upheld provenance : Bool}
    (h : w.resolveFraudGroupAppeal workflowId caller member upheld slashId provenance = .ok w') :
    ∃ entry appeal, w.getSlash slashId = some entry ∧ entry.workflowId = workflowId ∧
      entry.kind = .fraudGroup ∧ find entry.appeals member = some appeal ∧
      appeal.status = .appealed ∧
      ∃ resolved : World, resolved = (w.putSlash slashId (entry.withAppeal member
          (appeal.resolved upheld))).setMemberCustody slashId member none ∧
        ((w.memberBond slashId member ≤ 0 ∧ resolved = w') ∨
          (0 < w.memberBond slashId member ∧ upheld = true ∧
            resolved.returnSlashAppealBond workflowId slashId (some member)
              ((w.slashes.memberCustody slashId member).bind AppealCustody.token)
              (w.memberBond slashId member) = .ok w') ∨
          (0 < w.memberBond slashId member ∧ upheld = false ∧
            resolved.forfeitSlashAppealBond workflowId slashId (some member)
              ((w.slashes.memberCustody slashId member).bind AppealCustody.token)
              (w.memberBond slashId member) = .ok w')) := by
  unfold World.resolveFraudGroupAppeal at h
  simp only [refuse_eq_ok] at h
  obtain ⟨_, h⟩ := h
  split at h
  · cases h
  · next entry hentry =>
    simp only [ne_eq, ite_not, require_eq_ok, refuse_eq_ok] at h
    obtain ⟨hwf, hkind, _, _, h⟩ := h
    split at h
    · cases h
    · next appeal happeal =>
      obtain ⟨hstatus, h⟩ := require_eq_ok.mp h
      refine ⟨entry, appeal, hentry, hwf, hkind, happeal, hstatus, _, rfl, ?_⟩
      split at h
      · next hbond =>
        cases upheld with
        | true =>
          rw [if_pos rfl] at h
          exact Or.inr (Or.inl ⟨hbond, rfl, h⟩)
        | false =>
          rw [if_neg Bool.false_ne_true] at h
          exact Or.inr (Or.inr ⟨hbond, rfl, h⟩)
      · next hbond => exact Or.inl ⟨not_lt.mp hbond, Except.ok.inj h⟩

/-! ## executions -/

variable {hash : Distribution → String}

/-- an entry once its slash is executed -/
def SlashEntry.executed (entry : SlashEntry) : SlashEntry := { entry with status := .executed }

theorem le_of_exceedsEpochCap {resolver : Address} {amount : HostInt}
    (h : w.exceedsEpochCap resolver amount = some false) :
    ((w.resolverEpochState resolver).2 + amount.value) * 10000
      ≤ (w.stake resolver + (w.resolverEpochState resolver).2)
        * w.config.params.slashEpochCapBps := by
  unfold World.exceedsEpochCap at h
  simp only [Option.bind_eq_bind, Option.bind_eq_some_iff, Option.pure_def, Option.some.injEq,
    decide_eq_false_iff_not, not_lt] at h
  obtain ⟨total, htotal, basis, hbasis, reached, hreached, allowed, hallowed, hle⟩ := h
  rwa [HostInt.mul?_value hreached, HostInt.mul?_value hallowed, HostInt.add?_value htotal,
    HostInt.add?_value hbasis] at hle

theorem executeFraudSlash_ok (h : w.executeFraudSlash hash workflowId slashId = .ok w') :
    ∃ (entry : SlashEntry) (resolver : Address) (w₁ : World) (slashed : World.Slashed),
      w.getSlash slashId = some entry ∧ entry.workflowId = workflowId ∧
      entry.kind ≠ .fraudGroup ∧ entry.status = .pending ∧ entry.appealDeadline < w.blockTs ∧
      entry.resolver = some resolver ∧
      (0 < w.stake resolver + (w.resolverEpochState resolver).2 →
        ((w.resolverEpochState resolver).2 + entry.amount) * 10000
          ≤ (w.stake resolver + (w.resolverEpochState resolver).2)
            * w.config.params.slashEpochCapBps) ∧
      (w.putSlash slashId entry.executed).slashResolverStake hash resolver entry.amount none 0
        workflowId false = .ok (w₁, slashed) ∧
      ((w₁.freeze resolver w.freezeUntil).setEpoch resolver (w.resolverEpochState resolver).1
        ((w.resolverEpochState resolver).2 + slashed.total)).cleanupOrphanedSlashes hash workflowId
        = .ok w' := by
  unfold World.executeFraudSlash at h
  simp only [refuse_eq_ok] at h
  obtain ⟨_, h⟩ := h
  split at h
  · cases h
  · next entry hentry =>
    simp only [ne_eq, ite_not, require_eq_ok, refuse_eq_ok, not_le] at h
    obtain ⟨hwf, hkind, hstatus, htime, _, h⟩ := h
    split at h
    · cases h
    · next resolver hresolver =>
      split at h
      · cases h
      · cases h
      · next hcap =>
        obtain ⟨⟨w₁, slashed⟩, h₁, h⟩ := bind_eq_ok.mp h
        subst hwf
        refine ⟨entry, resolver, w₁, slashed, hentry, rfl, hkind, hstatus, htime, hresolver,
          fun hpos => ?_, h₁, h⟩
        rw [if_pos hpos] at hcap
        exact le_of_exceedsEpochCap hcap

/-- an earlier execution has debited the member -/
def SlashEntry.settled (entry : SlashEntry) (id : Address) : Option Payment :=
  (World.priorPayment entry id).filter fun p => p.execution = .paid && 0 < p.actualPaid

/-- the appeal of the member was upheld -/
def SlashEntry.stayed (entry : SlashEntry) (id : Address) : Bool :=
  (find entry.appeals id).any fun a => a.status = .upheld

/-- the payment of a member with how it was executed -/
def payment (row : Address × ℤ) (actualPaid : ℤ) (execution : ExecutionStatus) : Payment where
  id := row.1
  paid := row.2
  actualPaid := actualPaid
  execution := execution

theorem payMember_ok {entry : SlashEntry} {time : ℤ} {acc acc' : World.GroupExecution}
    {row : Address × ℤ} (h : World.payMember hash workflowId entry time acc row = .ok acc') :
    (∃ prior, entry.settled row.1 = some prior ∧
      acc' = ⟨acc.world, acc.payments ++ [prior], acc.blocked⟩) ∨
    (entry.settled row.1 = none ∧ entry.stayed row.1 = true ∧
      acc' = ⟨acc.world, acc.payments ++ [payment row 0 .stayed], acc.blocked⟩) ∨
    (entry.settled row.1 = none ∧ entry.stayed row.1 = false ∧
      acc' = ⟨acc.world, acc.payments ++ [payment row 0 .unpaid], true⟩) ∨
    ∃ (w₁ : World) (slashed : World.Slashed),
      entry.settled row.1 = none ∧ entry.stayed row.1 = false ∧
      row.2 ≤ acc.world.stake row.1 ∧
      ((acc.world.resolverEpochState row.1).2 + row.2) * 10000
        ≤ (acc.world.stake row.1 + (acc.world.resolverEpochState row.1).2)
          * acc.world.config.params.slashEpochCapBps ∧
      acc.world.slashResolverStake hash row.1 row.2 none 0 workflowId false = .ok (w₁, slashed) ∧
      acc' =
        ⟨(w₁.freeze row.1 time).setEpoch row.1 (acc.world.resolverEpochState row.1).1
            (w₁.resolvers.epochSlashed row.1 + row.2),
          acc.payments ++ [payment row row.2 .paid], acc.blocked⟩ := by
  unfold World.payMember at h
  dsimp only at h
  split at h
  · next prior hprior => exact Or.inl ⟨prior, hprior, (Except.ok.inj h).symm⟩
  · next hprior =>
    split at h
    · next hstayed => exact Or.inr (Or.inl ⟨hprior, hstayed, (Except.ok.inj h).symm⟩)
    · next hstayed =>
      have hstayed' : entry.stayed row.1 = false := by simpa [SlashEntry.stayed] using hstayed
      split at h
      · cases h
      · exact Or.inr (Or.inr (Or.inl ⟨hprior, hstayed', (Except.ok.inj h).symm⟩))
      · next hfree =>
        obtain ⟨⟨w₁, slashed⟩, h₁, h⟩ := bind_eq_ok.mp h
        split at hfree
        · cases hfree
        · next hblocked =>
          exact Or.inr (Or.inr (Or.inr ⟨w₁, slashed, hprior, hstayed',
            not_lt.mp (not_or.mp hblocked).2, le_of_exceedsEpochCap hfree, h₁,
            (Except.ok.inj h).symm⟩))

def SlashEntry.groupExecuted (entry : SlashEntry) (payments : List Payment) (blocked : Bool) :
    SlashEntry :=
  { entry with
    allocation := payments
    status := if blocked then .pending else .executed }

theorem executeFraudGroupSlash_ok {allocate : GroupAllocator}
    (h : w.executeFraudGroupSlash allocate hash workflowId slashId = .ok w') :
    ∃ (entry : SlashEntry) (allocations : List (Address × ℤ)) (done : World.GroupExecution),
      w.getSlash slashId = some entry ∧ entry.workflowId = workflowId ∧
      entry.kind = .fraudGroup ∧ entry.status = .pending ∧ entry.appealDeadline < w.blockTs ∧
      (∀ m ∈ entry.members, ∀ a ∈ find entry.appeals m.id, a.status ≠ .appealed) ∧
      allocate entry.amount entry.members = .ok allocations ∧
      allocations.foldlM (World.payMember hash workflowId entry w.freezeUntil) { world := w }
        = .ok done ∧
      (done.world.putSlash slashId
        (entry.groupExecuted done.payments done.blocked)).cleanupOrphanedSlashes hash workflowId
        = .ok w' := by
  unfold World.executeFraudGroupSlash at h
  simp only [refuse_eq_ok] at h
  obtain ⟨_, h⟩ := h
  split at h
  · cases h
  · next entry hentry =>
    simp only [ne_eq, ite_not, require_eq_ok, refuse_eq_ok, not_le, bind_eq_ok] at h
    obtain ⟨hwf, hkind, hstatus, happeals, htime, allocations, hallocate, done, hdone, h⟩ := h
    refine ⟨entry, allocations, done, hentry, hwf, hkind, hstatus, htime, fun m hm a ha => ?_,
      hallocate, hdone, h⟩
    have hnone := List.any_eq_false.mp (by simpa using happeals) m hm
    rw [Option.mem_def.mp ha] at hnone
    simpa using hnone

/-! ## escrows and disputes are left alone -/

theorem postSlashAppealBond_desk
    (h : w.postSlashAppealBond workflowId slashId caller token amount = .ok w') :
    w'.desk = w.desk := by
  obtain ⟨t, _, _, rfl⟩ := postSlashAppealBond_ok h
  rfl

theorem proposeFraudSlash_desk {caller : Option Address} {resolver : Address}
    (h : w.proposeFraudSlash workflowId caller resolver amount = .ok w') : w'.desk = w.desk :=
  insertSlash_desk (proposeFraudSlash_ok h).2.2

theorem proposeFraudGroupSlash_desk {allocate : GroupAllocator} {caller : Option Address}
    {ids : List Address} {incidentFound : Bool}
    (h : w.proposeFraudGroupSlash allocate workflowId caller ids amount incidentFound = .ok w') :
    w'.desk = w.desk :=
  insertSlash_desk (proposeFraudGroupSlash_ok h).2.2.2.2

theorem appealSlash_desk (h : w.appealSlash workflowId caller slashId = .ok w') :
    w'.desk = w.desk := by
  obtain ⟨entry, _, _, _, _, _, ⟨_, rfl⟩ | ⟨_, h⟩⟩ := appealSlash_ok h
  · rfl
  · rw [postSlashAppealBond_desk h]
    rfl

theorem resolveAppeal_desk {caller : Option Address} {upheld provenance : Bool}
    (h : w.resolveAppeal workflowId caller upheld slashId provenance = .ok w') :
    w'.desk = w.desk := by
  obtain ⟨entry, _, _, _, _, ⟨_, rfl⟩ | ⟨_, _, h⟩ | ⟨_, _, h⟩⟩ := resolveAppeal_ok h
  · rfl
  · rw [returnSlashAppealBond_desk h]
    rfl
  · rw [forfeitSlashAppealBond_desk h]
    rfl

theorem appealFraudGroupSlash_desk {allocate : GroupAllocator}
    (h : w.appealFraudGroupSlash allocate workflowId caller slashId = .ok w') :
    w'.desk = w.desk := by
  obtain ⟨entry, debit, _, _, _, _, _, _, _, appealed, rfl, ⟨_, rfl⟩ | ⟨_, h⟩⟩ :=
    appealFraudGroupSlash_ok h
  · rfl
  · rw [postSlashAppealBond_desk h]
    rfl

theorem resolveFraudGroupAppeal_desk {caller : Option Address} {member : Address}
    {upheld provenance : Bool}
    (h : w.resolveFraudGroupAppeal workflowId caller member upheld slashId provenance = .ok w') :
    w'.desk = w.desk := by
  obtain ⟨entry, appeal, _, _, _, _, _, resolved, rfl, ⟨_, rfl⟩ | ⟨_, _, h⟩ | ⟨_, _, h⟩⟩ :=
    resolveFraudGroupAppeal_ok h
  · rfl
  · rw [returnSlashAppealBond_desk h]
    rfl
  · rw [forfeitSlashAppealBond_desk h]
    rfl

theorem executeFraudSlash_desk (h : w.executeFraudSlash hash workflowId slashId = .ok w') :
    w'.desk = w.desk := by
  obtain ⟨entry, resolver, w₁, slashed, _, _, _, _, _, _, _, h₁, h⟩ := executeFraudSlash_ok h
  rw [cleanupOrphanedSlashes_desk h]
  exact (desk_of_docket (slashResolverStake_ok h₁).2.2.2.1 : w₁.desk = _)

theorem payMember_docket {entry : SlashEntry} {time : ℤ} {acc acc' : World.GroupExecution}
    {row : Address × ℤ} (h : World.payMember hash workflowId entry time acc row = .ok acc') :
    acc'.world.docket = acc.world.docket := by
  rcases payMember_ok h with ⟨_, _, rfl⟩ | ⟨_, _, rfl⟩ | ⟨_, _, rfl⟩ | ⟨w₁, slashed, _, _, _, _, h₁,
    rfl⟩
  · rfl
  · rfl
  · rfl
  · exact (slashResolverStake_ok h₁).2.2.2.1

theorem executeFraudGroupSlash_desk {allocate : GroupAllocator}
    (h : w.executeFraudGroupSlash allocate hash workflowId slashId = .ok w') :
    w'.desk = w.desk := by
  obtain ⟨entry, allocations, done, _, _, _, _, _, _, _, hdone, h⟩ := executeFraudGroupSlash_ok h
  rw [cleanupOrphanedSlashes_desk h]
  have hdocket : done.world.docket = w.docket :=
    foldlM_invariant (I := fun acc => acc.world.docket = w.docket)
      (fun acc row acc' _ hacc hok => (payMember_docket hok).trans hacc) rfl hdone
  exact (desk_of_docket hdocket : done.world.desk = w.desk)

end

end PRF.Sew
