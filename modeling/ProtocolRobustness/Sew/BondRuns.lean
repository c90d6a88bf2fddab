import ProtocolRobustness.Sew.BondLedger
import ProtocolRobustness.Sew.SlashRuns

/-!
# Runs of bond operations

Every operation that posts a bond or takes one out of custody, and the withdrawals, in any order and
on any workflows.

* `BondEffect`           what an operation does to the sums over the ledgers;
* `bondStep_effect`      the effect of each operation;
* `BondsConserved`       custody, claims and pools account for every bond, after a run;
* `bonds_conserved_iff`  this fails only where bonds are returned without a claim and where a
  forfeiture is taken for a replay.
-/

namespace PRF.Sew
open Table Fallible Runs

inductive BondOperation
  | postAppealBond (workflowId : ℕ) (appellant : Address) (snap : Snapshot) (token : Token)
      (amount : ℤ)
  | settleAppealBondOnResolution (workflowId : ℕ) (isRelease : Bool)
  | slashBond (workflowId : ℕ) (appellant : Address)
  | returnBond (workflowId : ℕ) (appellant : Address)
  | returnAllBondsForWorkflow (workflowId : ℕ)
  | withdrawEscrow (workflowId : ℕ) (address : Address)

def bondStep (hash : Distribution → String) (w : World) : BondOperation → Except Failure World
  | .postAppealBond workflowId appellant snap token amount =>
    w.postAppealBond workflowId appellant snap token amount
  | .settleAppealBondOnResolution workflowId isRelease =>
    w.settleAppealBondOnResolution workflowId isRelease
  | .slashBond workflowId appellant => w.slashBond hash workflowId appellant
  | .returnBond workflowId appellant => w.returnBond workflowId appellant
  | .returnAllBondsForWorkflow workflowId => w.returnAllBondsForWorkflow workflowId
  | .withdrawEscrow workflowId address => w.withdrawEscrow workflowId address

/-! ## effects -/

/-- the sums over the ledgers after an operation, up to what was withdrawn, what left custody without
a claim and what was forfeited and reached no pool -/
structure BondEffect (w w' : World) (withdrawn lost : ℕ → Address → ℤ) (dropped : ℤ) : Prop where
  wellFormed : w'.bonds.WellFormed
  total : ∀ token, w'.held.total token - w'.bonds.custodyIn token
    = w.held.total token - w.bonds.custodyIn token
  position : ∀ position, w'.held.position position - w'.bonds.custodyAt position
    = w.held.position position - w.bonds.custodyAt position
  refunds : ∀ workflowId address,
    w'.claims.amount workflowId .bondRefund address - w'.bonds.paidOut workflowId address
      = w.claims.amount workflowId .bondRefund address - w.bonds.paidOut workflowId address
        - withdrawn workflowId address - lost workflowId address
  forfeits : w'.pools.sum - w'.bonds.forfeited = w.pools.sum - w.bonds.forfeited - dropped

/-- nothing withdrawn, nothing lost -/
def nothing : ℕ → Address → ℤ := fun _ _ => 0

/-- an amount for one address on one workflow -/
def onlyAt (workflowId : ℕ) (address : Address) (amount : ℤ) : ℕ → Address → ℤ := fun wf a =>
  if workflowId = wf ∧ address = a then amount else 0

theorem Claims.amount_clearAddress (claims : Claims) (workflowId wf : ℕ) (d : ClaimDomain)
    (address a : Address) : (claims.clearAddress workflowId address).amount wf d a
      = if workflowId = wf ∧ address = a then 0 else claims.amount wf d a := by
  unfold Claims.amount Claims.clearAddress
  rw [find_filter (fun key : ClaimKey => !(key.workflowId = workflowId && key.address = address))]
  by_cases h : workflowId = wf ∧ address = a
  · obtain ⟨rfl, rfl⟩ := h
    simp
  · rw [if_neg h, if_pos]
    rw [Bool.not_eq_true', Bool.and_eq_false_iff, decide_eq_false_iff_not, decide_eq_false_iff_not]
    exact not_and_or.mp fun hk => h ⟨hk.1.symm, hk.2.symm⟩

section
variable {w w' w'' : World} {record : BondRecord} {disposition : Disposition}
  {recipient : Address}

theorem BondEffect.refl (hw : w.bonds.WellFormed) : BondEffect w w nothing nothing 0 where
  wellFormed := hw
  total token := rfl
  position position := rfl
  refunds workflowId address := by simp [nothing]
  forfeits := by ring

theorem BondEffect.trans {withdrawn lost withdrawn' lost' : ℕ → Address → ℤ} {dropped dropped' : ℤ}
    (h : BondEffect w w' withdrawn lost dropped) (h' : BondEffect w' w'' withdrawn' lost' dropped') :
    BondEffect w w'' (withdrawn + withdrawn') (lost + lost') (dropped + dropped') where
  wellFormed := h'.wellFormed
  total token := (h'.total token).trans (h.total token)
  position position := (h'.position position).trans (h.position position)
  refunds workflowId address := by
    rw [h'.refunds, h.refunds, Pi.add_apply, Pi.add_apply, Pi.add_apply, Pi.add_apply]
    ring
  forfeits := by
    rw [h'.forfeits, h.forfeits]
    ring

theorem Posts.effect (h : Posts w w' record) (hw : w.bonds.WellFormed)
    (hclaims : w'.claims = w.claims) (hpools : w'.pools = w.pools) :
    BondEffect w w' nothing nothing 0 where
  wellFormed := h.wellFormed hw
  total := h.custodyIn hw
  position := h.custodyAt hw
  refunds workflowId address := by
    simp [nothing, hclaims, Bonds.paidOut, h.dispositions]
  forfeits := by
    simp [hpools, Bonds.forfeited, h.dispositions]

theorem Leaves.effect_claimed (h : Leaves w w' record disposition recipient)
    (hw : w.bonds.WellFormed) (hkind : disposition.kind ≠ .forfeiture)
    (hclaims : w'.claims
      = w.claims.record record.workflowId .bondRefund recipient record.custodiedAmount)
    (hpools : w'.pools = w.pools) : BondEffect w w' nothing nothing 0 where
  wellFormed := h.wellFormed hw
  total := h.custodyIn hw
  position := h.custodyAt hw
  refunds workflowId address := by
    rw [hclaims, Claims.amount_record, h.paidOut hw]
    simp only [nothing, hkind, ne_eq, not_false_eq_true, true_and]
    ring
  forfeits := by
    rw [hpools, h.forfeited hw, if_neg hkind]
    ring

theorem Leaves.effect_unclaimed (h : Leaves w w' record disposition recipient)
    (hw : w.bonds.WellFormed) (hkind : disposition.kind ≠ .forfeiture)
    (hclaims : w'.claims = w.claims) (hpools : w'.pools = w.pools) :
    BondEffect w w' nothing (onlyAt record.workflowId recipient record.custodiedAmount) 0 where
  wellFormed := h.wellFormed hw
  total := h.custodyIn hw
  position := h.custodyAt hw
  refunds workflowId address := by
    rw [hclaims, h.paidOut hw]
    simp only [nothing, onlyAt, hkind, ne_eq, not_false_eq_true, true_and]
    ring
  forfeits := by
    rw [hpools, h.forfeited hw, if_neg hkind]
    ring

theorem Leaves.effect_forfeited (h : Leaves w w' record disposition recipient)
    (hw : w.bonds.WellFormed) (hkind : disposition.kind = .forfeiture)
    (hclaims : w'.claims = w.claims) {dropped : ℤ}
    (hpools : w'.pools.sum = w.pools.sum + (record.custodiedAmount - dropped)) :
    BondEffect w w' nothing nothing dropped where
  wellFormed := h.wellFormed hw
  total := h.custodyIn hw
  position := h.custodyAt hw
  refunds workflowId address := by
    rw [hclaims, h.paidOut hw]
    simp [nothing, hkind]
  forfeits := by
    rw [hpools, h.forfeited hw, if_pos hkind]
    ring

/-! ## the effect of each operation -/

variable {hash : Distribution → String} {workflowId : ℕ} {address : Address}

theorem postAppealBond_effect {snap : Snapshot} {token : Token} {amount : ℤ}
    (hw : w.bonds.WellFormed)
    (h : w.postAppealBond workflowId address snap token amount = .ok w') :
    BondEffect w w' nothing nothing 0 := by
  obtain ⟨record, rfl, hnonneg, hheld, hbonds, hclaims, hpools, _⟩ := postAppealBond_ok h
  have hposts : Posts w w'
      (w.newBond workflowId address token amount snap.appealBondProtocolFeeBps) :=
    { opened := rfl
      named := rfl
      ordinal := rfl
      nonneg := hnonneg
      records := by rw [hbonds]
      balances := by rw [hbonds]; rfl
      dispositions := by rw [hbonds]
      held := hheld }
  exact hposts.effect hw hclaims hpools

theorem setBalance_eq (bonds : Bonds) {workflowId : ℕ} {funder : Address} {amount rest : ℤ}
    (h : rest = bonds.balances workflowId funder - amount) :
    (bonds.setBalance workflowId funder rest).balances
      = addAt₂ bonds.balances workflowId funder (-amount) := by
  rw [h, sub_eq_add_neg]
  rfl

theorem openOf_single (hw : w.bonds.WellFormed) {stored : BondRecord}
    (hopen : w.bonds.openOf workflowId address = [record])
    (hfind : find w.bonds.records record.bondId = some stored) :
    stored = record ∧ record.workflowId = workflowId ∧ record.funder = address := by
  have hmem : record ∈ w.bonds.of workflowId address := by
    have hone : record ∈ w.bonds.openOf workflowId address := by simp [hopen]
    exact (List.mem_filter.mp hone).1
  obtain ⟨hfound, hwf, hfunder⟩ := hw.find_of hmem
  exact ⟨Option.some.inj (hfind.symm.trans hfound), hwf, hfunder⟩

theorem settleAppealBondOnResolution_effect {isRelease : Bool} (hw : w.bonds.WellFormed)
    (h : w.settleAppealBondOnResolution workflowId isRelease = .ok w') :
    BondEffect w w' nothing nothing 0 := by
  rcases settleAppealBondOnResolution_ok h with rfl | ⟨level, prior, challenger, recipient, record,
    stored, disposition, _, _, _, hopen, hfind, hstatus, hasset, hamount, _, _, _, hid, hkind,
    hallocations, htotal, hw'⟩
  · exact BondEffect.refl hw
  · obtain ⟨rfl, rfl, rfl⟩ := openOf_single hw hopen hfind
    have hleaves : Leaves w w' stored disposition recipient :=
      { found := hid ▸ hfind
        opened := hstatus
        allocations := hallocations
        total := htotal
        records := by rw [← hw']; rfl
        balances := by rw [← hw']; exact setBalance_eq w.bonds rfl
        dispositions := by rw [← hw']; rfl
        held := by rw [← hw'] }
    exact hleaves.effect_claimed hw hkind (by rw [← hw']) (by rw [← hw'])

theorem returnBond_effect (hw : w.bonds.WellFormed)
    (h : w.returnBond workflowId address = .ok w') : BondEffect w w' nothing nothing 0 := by
  obtain ⟨et, record, stored, het, hopen, hfind, hstatus, hasset, hamount, _, _, hw'⟩ :=
    returnBond_ok h
  obtain ⟨rfl, rfl, rfl⟩ := openOf_single hw hopen hfind
  rw [hamount, hasset] at hw'
  have hleaves : Leaves w w' stored ⟨stored.bondId, .refund, [(stored.funder,
      stored.custodiedAmount)], stored.custodiedAmount, .resolutionReversed⟩ stored.funder :=
    { found := hfind
      opened := hstatus
      allocations := rfl
      total := rfl
      records := by rw [← hw']; rfl
      balances := by rw [← hw']; exact setBalance_eq w.bonds (by rw [hamount, sub_self])
      dispositions := by rw [← hw']; rfl
      held := by rw [← hw'] }
  exact hleaves.effect_claimed hw (by simp) (by rw [← hw']) (by rw [← hw'])

theorem slashBond_effect (hw : w.bonds.WellFormed)
    (h : w.slashBond hash workflowId address = .ok w') :
    BondEffect w w' nothing nothing (lostOf hash w ⟨workflowId, address⟩) := by
  have hpools := slashStep_sum (show slashStep hash w ⟨workflowId, address⟩ = .ok w' from h)
  obtain ⟨et, record, stored, dist, het, hopen, hfind, hstatus, hasset, hamount, _, _, _, hw'⟩ :=
    slashBond_ok h
  obtain ⟨rfl, rfl, rfl⟩ := openOf_single hw hopen hfind
  rw [hamount, hasset] at hw'
  have hleaves : Leaves w w' stored ⟨stored.bondId, .forfeiture, [(stored.funder,
      stored.custodiedAmount)], stored.custodiedAmount, .explicitForfeit⟩ stored.funder :=
    { found := hfind
      opened := hstatus
      allocations := rfl
      total := rfl
      records := by rw [← hw']; rfl
      balances := by rw [← hw']; exact setBalance_eq w.bonds (by rw [hamount, sub_self])
      dispositions := by rw [← hw']; rfl
      held := by rw [← hw'] }
  refine hleaves.effect_forfeited hw rfl (by rw [← hw']) ?_
  rw [hpools, slashedAmount, hamount]

/-- what a list of bonds has for a funder on a workflow -/
def unclaimed (records : List BondRecord) : ℕ → Address → ℤ := fun wf a =>
  (records.map fun r => onlyAt r.workflowId r.funder r.custodiedAmount wf a).sum

theorem returnBondRecord_effect (hid : record.bondId = ⟨workflowId, record.funder, record.ordinal⟩)
    (hwf : record.workflowId = workflowId) (hnonneg : 0 ≤ record.custodiedAmount)
    (hw : w.bonds.WellFormed) (h : w.returnBondRecord workflowId record = .ok w') :
    BondEffect w w' nothing (onlyAt record.workflowId record.funder record.custodiedAmount) 0 := by
  rcases returnBondRecord_ok h with ⟨hzero, rfl⟩ | ⟨stored, _, hfind, hstatus, hasset, hamount, _,
    hw'⟩
  · have hnone : onlyAt record.workflowId record.funder record.custodiedAmount = nothing := by
      funext wf a
      rw [le_antisymm hzero hnonneg]
      simp [onlyAt, nothing]
    rw [hnone]
    exact BondEffect.refl hw
  · obtain ⟨hstored, hname⟩ := hw.named _ _ hfind
    simp only [hid, BondId.mk.injEq] at hname
    have hposition : record.position workflowId record.asset
        = stored.position stored.workflowId stored.asset := by
      rw [BondRecord.position, BondRecord.position, hstored, hasset, ← hname.1, ← hname.2.1]
    rw [hposition, hamount, hname.1, hname.2.1] at hw'
    rw [hwf, hname.1, hname.2.1, hamount]
    have hleaves : Leaves w w' stored ⟨record.bondId, .refund, [(stored.funder,
        stored.custodiedAmount)], stored.custodiedAmount, .disputeFinalized⟩ stored.funder :=
      { found := hfind
        opened := hstatus
        allocations := rfl
        total := rfl
        records := by rw [← hw']; rfl
        balances := by rw [← hw']; exact setBalance_eq w.bonds rfl
        dispositions := by rw [← hw']; rfl
        held := by rw [← hw'] }
    exact hleaves.effect_unclaimed hw (by simp) (by rw [← hw']) (by rw [← hw'])

theorem returnBondRecords_effect {records : List BondRecord}
    (hrecords : ∀ r ∈ records, r.bondId = ⟨workflowId, r.funder, r.ordinal⟩ ∧
      r.workflowId = workflowId ∧ 0 ≤ r.custodiedAmount)
    (hw : w.bonds.WellFormed)
    (h : records.foldlM (fun w r => w.returnBondRecord workflowId r) w = .ok w') :
    BondEffect w w' nothing (unclaimed records) 0 := by
  induction records generalizing w with
  | nil =>
    obtain rfl := Except.ok.inj h
    exact BondEffect.refl hw
  | cons r records ih =>
    obtain ⟨⟨hid, hwf, hnonneg⟩, hrest⟩ := List.forall_mem_cons.mp hrecords
    rw [List.foldlM_cons, bind_eq_ok] at h
    obtain ⟨w₁, hr, h⟩ := h
    have hfirst := returnBondRecord_effect hid hwf hnonneg hw hr
    exact hfirst.trans (ih hrest hfirst.wellFormed h)

theorem mem_openOn (hw : w.bonds.WellFormed) (hmem : record ∈ w.bonds.openOn workflowId) :
    record.bondId = ⟨workflowId, record.funder, record.ordinal⟩ ∧
      record.workflowId = workflowId ∧ 0 ≤ record.custodiedAmount := by
  unfold Bonds.openOn at hmem
  obtain ⟨hrecord, hof⟩ := List.mem_filter.mp hmem
  obtain ⟨⟨bondId, r⟩, he, hr⟩ := List.mem_map.mp hrecord
  obtain rfl : r = record := hr
  have hfind := find_of_mem hw.keys he
  obtain ⟨hid, hname⟩ := hw.named _ _ hfind
  have hwf : r.workflowId = workflowId := by
    simp only [Bool.and_eq_true, decide_eq_true_eq] at hof
    exact hof.1
  exact ⟨hwf ▸ hid.trans hname, hwf, hw.nonneg _ _ hfind⟩

theorem returnAllBondsForWorkflow_effect (hw : w.bonds.WellFormed)
    (h : w.returnAllBondsForWorkflow workflowId = .ok w') :
    BondEffect w w' nothing (unclaimed (w.bonds.openOn workflowId)) 0 := by
  have hperm := List.perm_insertionSort returnsBefore (w.bonds.openOn workflowId)
  have hsum : unclaimed ((w.bonds.openOn workflowId).insertionSort returnsBefore)
      = unclaimed (w.bonds.openOn workflowId) := by
    funext wf a
    exact (hperm.map _).sum_eq
  rw [← hsum]
  exact returnBondRecords_effect (fun r hr => mem_openOn hw (hperm.mem_iff.mp hr)) hw h

theorem withdrawEscrow_effect (hw : w.bonds.WellFormed)
    (h : w.withdrawEscrow workflowId address = .ok w') :
    BondEffect w w' (onlyAt workflowId address (w.claims.amount workflowId .bondRefund address))
      nothing 0 := by
  unfold World.withdrawEscrow at h
  simp only [refuse_eq_ok] at h
  obtain ⟨_, h⟩ := h
  split at h
  · cases h
  · simp only [refuse_eq_ok, Except.ok.injEq] at h
    obtain ⟨_, _, _, rfl⟩ := h
    exact
      { wellFormed :=
          { keys := hw.keys
            named := hw.named
            numbered := hw.numbered
            nonneg := hw.nonneg
            balances := hw.balances
            dispositionKeys := hw.dispositionKeys
            disposed := hw.disposed
            known := hw.known }
        total := fun token => rfl
        position := fun position => rfl
        refunds := fun wf a => by
          show (w.claims.clearAddress workflowId address).amount wf .bondRefund a
            - w.bonds.paidOut wf a = _
          rw [Claims.amount_clearAddress]
          by_cases hkey : workflowId = wf ∧ address = a
          · obtain ⟨rfl, rfl⟩ := hkey
            simp [onlyAt, nothing]
          · simp [onlyAt, nothing, hkey]
        forfeits := by
          rw [sub_zero]
          rfl }

/-! ## one step -/

/-- the refunds an operation pays out of claims -/
def withdrawnBy (w : World) : BondOperation → ℕ → Address → ℤ
  | .withdrawEscrow workflowId address =>
    onlyAt workflowId address (w.claims.amount workflowId .bondRefund address)
  | _ => nothing

/-- the bonds an operation refunds without a claim -/
def unclaimedBy (w : World) : BondOperation → ℕ → Address → ℤ
  | .returnAllBondsForWorkflow workflowId => unclaimed (w.bonds.openOn workflowId)
  | _ => nothing

/-- the forfeiture that reaches no pool -/
def droppedBy (hash : Distribution → String) (w : World) : BondOperation → ℤ
  | .slashBond workflowId appellant => lostOf hash w ⟨workflowId, appellant⟩
  | _ => 0

theorem bondStep_effect (hash : Distribution → String) {op : BondOperation}
    (hw : w.bonds.WellFormed) (h : bondStep hash w op = .ok w') :
    BondEffect w w' (withdrawnBy w op) (unclaimedBy w op) (droppedBy hash w op) := by
  cases op with
  | postAppealBond workflowId appellant snap token amount => exact postAppealBond_effect hw h
  | settleAppealBondOnResolution workflowId isRelease =>
    exact settleAppealBondOnResolution_effect hw h
  | slashBond workflowId appellant => exact slashBond_effect hw h
  | returnBond workflowId appellant => exact returnBond_effect hw h
  | returnAllBondsForWorkflow workflowId => exact returnAllBondsForWorkflow_effect hw h
  | withdrawEscrow workflowId address => exact withdrawEscrow_effect hw h

end

/-! ## runs -/

structure World.NoBonds (w : World) : Prop where
  records : w.bonds.records = []
  balances : ∀ workflowId funder, w.bonds.balances workflowId funder = 0
  dispositions : w.bonds.dispositions = []
  positions : ∀ position, position.account = .appealBond → w.held.position position = 0

section
variable (hash : Distribution → String) (w : World) (ops : List BondOperation)

/-- **Every bond is accounted for after a run.**  Balances and held amounts are the custody of the
open bonds; a disposed bond has one disposition, of its full custody to one recipient; what
dispositions pay out is claimable or withdrawn, and what they forfeit is in the pools. -/
structure BondsConserved : Prop where
  balances : ∀ workflowId funder, (run (bondStep hash) w ops).bonds.balances workflowId funder
    = (run (bondStep hash) w ops).bonds.custody workflowId funder
  held : ∀ token, (run (bondStep hash) w ops).held.total token
    = w.held.total token + (run (bondStep hash) w ops).bonds.custodyIn token
  positions : ∀ bondId record, find (run (bondStep hash) w ops).bonds.records bondId = some record →
    (run (bondStep hash) w ops).held.position (record.position record.workflowId record.asset)
      = if record.status = .opened then record.custodiedAmount else 0
  disposed : ∀ bondId record, find (run (bondStep hash) w ops).bonds.records bondId = some record →
    record.status = .disposed → ∃ disposition recipient,
      find (run (bondStep hash) w ops).bonds.dispositions (bondId, disposition.kind)
        = some disposition ∧
      disposition.allocations = [(recipient, record.custodiedAmount)] ∧
      disposition.total = record.custodiedAmount ∧
      ∀ kind, (find (run (bondStep hash) w ops).bonds.dispositions (bondId, kind)).isSome →
        kind = disposition.kind
  refunds : ∀ workflowId address,
    (run (bondStep hash) w ops).claims.amount workflowId .bondRefund address
        + total (bondStep hash) (fun w op => withdrawnBy w op workflowId address) w ops
      = w.claims.amount workflowId .bondRefund address
        + (run (bondStep hash) w ops).bonds.paidOut workflowId address
  forfeitures : (run (bondStep hash) w ops).pools.sum
    = w.pools.sum + (run (bondStep hash) w ops).bonds.forfeited

/-- no bond is returned without a claim, and no forfeiture is taken for a replay -/
def KeepsBonds : BondOperation → Prop
  | .returnAllBondsForWorkflow workflowId =>
    ∀ record ∈ w.bonds.openOn workflowId, record.custodiedAmount = 0
  | .slashBond workflowId appellant => ¬ AlreadyApplied hash w ⟨workflowId, appellant⟩
  | _ => True

variable {hash w}

theorem World.NoBonds.wellFormed (h : w.NoBonds) : w.bonds.WellFormed where
  keys := by simp [h.records]
  named bondId record hr := by simp [h.records, find_nil] at hr
  numbered bondId record hr := by simp [h.records, find_nil] at hr
  nonneg bondId record hr := by simp [h.records, find_nil] at hr
  balances workflowId funder := by
    rw [h.balances, Bonds.custody, Bonds.openSum, h.records, sumBy_nil]
  dispositionKeys := by simp [h.dispositions]
  disposed bondId record hr := by simp [h.records, find_nil] at hr
  known key hkey := by simp [h.dispositions, find_nil] at hkey

theorem bondStep_wellFormed (hash : Distribution → String) (w : World) (op : BondOperation)
    (w' : World) (hw : w.bonds.WellFormed) (h : bondStep hash w op = .ok w') :
    w'.bonds.WellFormed :=
  (bondStep_effect hash hw h).wellFormed

theorem onlyAt_nonneg (workflowId wf : ℕ) (address a : Address) {amount : ℤ} (h : 0 ≤ amount) :
    0 ≤ onlyAt workflowId address amount wf a := by
  unfold onlyAt
  split
  · exact h
  · exact le_rfl

theorem unclaimedBy_nonneg (hw : w.bonds.WellFormed) (op : BondOperation) (wf : ℕ) (a : Address) :
    0 ≤ unclaimedBy w op wf a := by
  cases op with
  | returnAllBondsForWorkflow workflowId =>
    refine List.sum_nonneg fun x hx => ?_
    obtain ⟨r, hr, rfl⟩ := List.mem_map.mp hx
    exact onlyAt_nonneg _ _ _ _ (mem_openOn hw hr).2.2
  | _ => exact le_rfl

theorem droppedBy_nonneg {op : BondOperation} (h : (bondStep hash w op).isOk) :
    0 ≤ droppedBy hash w op := by
  cases op with
  | slashBond workflowId appellant => exact lostOf_nonneg h
  | _ => exact le_rfl

theorem unclaimed_eq_zero (hw : w.bonds.WellFormed) (workflowId : ℕ) :
    (∀ wf a, unclaimed (w.bonds.openOn workflowId) wf a = 0) ↔
      ∀ record ∈ w.bonds.openOn workflowId, record.custodiedAmount = 0 := by
  constructor
  · intro h record hr
    have hle := List.single_le_sum (l := (w.bonds.openOn workflowId).map fun r =>
      onlyAt r.workflowId r.funder r.custodiedAmount record.workflowId record.funder)
      (fun x hx => by
        obtain ⟨r, hr, rfl⟩ := List.mem_map.mp hx
        exact onlyAt_nonneg _ _ _ _ (mem_openOn hw hr).2.2) _ (List.mem_map_of_mem hr)
    have hsum := h record.workflowId record.funder
    unfold unclaimed at hsum
    rw [hsum, onlyAt, if_pos ⟨rfl, rfl⟩] at hle
    exact le_antisymm hle (mem_openOn hw hr).2.2
  · intro h wf a
    refine List.sum_eq_zero fun x hx => ?_
    obtain ⟨r, hr, rfl⟩ := List.mem_map.mp hx
    simp [onlyAt, h r hr]

theorem keepsBonds_iff (hw : w.bonds.WellFormed) {op : BondOperation}
    (h : (bondStep hash w op).isOk) :
    ((∀ wf a, unclaimedBy w op wf a = 0) ∧ droppedBy hash w op = 0) ↔ KeepsBonds hash w op := by
  cases op with
  | returnAllBondsForWorkflow workflowId =>
    exact (and_iff_left rfl).trans (unclaimed_eq_zero hw workflowId)
  | slashBond workflowId appellant =>
    exact (and_iff_right fun _ _ => rfl).trans (lostOf_eq_zero h)
  | _ => exact iff_of_true ⟨fun _ _ => rfl, rfl⟩ trivial

variable (hash w)

/-- custody is what it was, up to the custody of the open bonds -/
theorem run_held (hw : w.NoBonds) (token : Token) :
    (run (bondStep hash) w ops).held.total token
      = w.held.total token + (run (bondStep hash) w ops).bonds.custodyIn token := by
  have hrun := run_const (V := fun w : World => w.held.total token - w.bonds.custodyIn token)
    (fun w op w' hwf (h : bondStep hash w op = .ok w') =>
      have heffect := bondStep_effect hash hwf h
      ⟨heffect.wellFormed, heffect.total token⟩) hw.wellFormed ops
  have hstart : w.bonds.custodyIn token = 0 := by
    rw [Bonds.custodyIn, Bonds.openSum, hw.records, sumBy_nil]
  omega

theorem run_position (hw : w.NoBonds) (position : PositionId) :
    (run (bondStep hash) w ops).held.position position
      = w.held.position position + (run (bondStep hash) w ops).bonds.custodyAt position := by
  have hrun := run_const
    (V := fun w : World => w.held.position position - w.bonds.custodyAt position)
    (fun w op w' hwf (h : bondStep hash w op = .ok w') =>
      have heffect := bondStep_effect hash hwf h
      ⟨heffect.wellFormed, heffect.position position⟩) hw.wellFormed ops
  have hstart : w.bonds.custodyAt position = 0 := by
    rw [Bonds.custodyAt, Bonds.openSum, hw.records, sumBy_nil]
  omega

theorem run_refunds (hw : w.NoBonds) (workflowId : ℕ) (address : Address) :
    (run (bondStep hash) w ops).claims.amount workflowId .bondRefund address
        + total (bondStep hash) (fun w op => withdrawnBy w op workflowId address) w ops
        + total (bondStep hash) (fun w op => unclaimedBy w op workflowId address) w ops
      = w.claims.amount workflowId .bondRefund address
        + (run (bondStep hash) w ops).bonds.paidOut workflowId address := by
  have hrun := run_total
    (V := fun w : World => w.bonds.paidOut workflowId address
      - w.claims.amount workflowId .bondRefund address)
    (f := fun w op => withdrawnBy w op workflowId address + unclaimedBy w op workflowId address)
    (fun w op w' hwf (h : bondStep hash w op = .ok w') => by
      have heffect := bondStep_effect hash hwf h
      have hrefunds := heffect.refunds workflowId address
      exact ⟨heffect.wellFormed, by omega⟩) hw.wellFormed ops
  have hstart : w.bonds.paidOut workflowId address = 0 := by
    rw [Bonds.paidOut, hw.dispositions, sumBy_nil]
  rw [total_add] at hrun
  omega

theorem run_forfeitures (hw : w.NoBonds) :
    (run (bondStep hash) w ops).pools.sum + total (bondStep hash) (droppedBy hash) w ops
      = w.pools.sum + (run (bondStep hash) w ops).bonds.forfeited := by
  have hrun := run_total (V := fun w : World => w.bonds.forfeited - w.pools.sum)
    (f := droppedBy hash) (fun w op w' hwf (h : bondStep hash w op = .ok w') => by
      have heffect := bondStep_effect hash hwf h
      have hforfeits := heffect.forfeits
      exact ⟨heffect.wellFormed, by omega⟩) hw.wellFormed ops
  have hstart : w.bonds.forfeited = 0 := by
    rw [Bonds.forfeited, hw.dispositions, sumBy_nil]
  omega

/-- Custody, balances and dispositions are right after every run; the claims and the pools account
for every bond when no step returns a bond in custody without a claim or drops a forfeiture. -/
theorem bonds_conserved_iff (hw : w.NoBonds) :
    BondsConserved hash w ops ↔ Along (bondStep hash) (KeepsBonds hash) w ops := by
  have hwf := hw.wellFormed
  have hstep := bondStep_wellFormed hash
  have hend : (run (bondStep hash) w ops).bonds.WellFormed := run_induction hstep hwf ops
  have hunclaimed : ∀ workflowId address,
      total (bondStep hash) (fun w op => unclaimedBy w op workflowId address) w ops = 0 ↔
        Along (bondStep hash) (fun w op => unclaimedBy w op workflowId address = 0) w ops :=
    fun workflowId address => total_eq_zero_iff hstep
      (fun w op hw _ => unclaimedBy_nonneg hw op workflowId address) hwf ops
  have hdropped : total (bondStep hash) (droppedBy hash) w ops = 0 ↔
      Along (bondStep hash) (fun w op => droppedBy hash w op = 0) w ops :=
    total_eq_zero_iff hstep (fun w op _ h => droppedBy_nonneg h) hwf ops
  have hkeeps : Along (bondStep hash) (KeepsBonds hash) w ops ↔
      (∀ workflowId address,
        Along (bondStep hash) (fun w op => unclaimedBy w op workflowId address = 0) w ops) ∧
      Along (bondStep hash) (fun w op => droppedBy hash w op = 0) w ops := by
    rw [← along_congr hstep (fun w op hw h => keepsBonds_iff hw h) hwf ops, along_and]
    simp only [along_forall]
  rw [hkeeps]
  constructor
  · intro h
    refine ⟨fun workflowId address => (hunclaimed workflowId address).mp ?_, hdropped.mp ?_⟩
    · have hall := run_refunds hash w ops hw workflowId address
      have hclaimed := h.refunds workflowId address
      omega
    · have hall := run_forfeitures hash w ops hw
      have hpools := h.forfeitures
      omega
  · rintro ⟨hrefunds, hforfeits⟩
    exact
      { balances := hend.balances
        held := run_held hash w ops hw
        positions := fun bondId record hfind => by
          rw [run_position hash w ops hw, hw.positions _ rfl, zero_add,
            hend.custodyAt_position hfind]
        disposed := fun bondId record hfind hdisposed => (hend.disposed _ _ hfind hdisposed).2
        refunds := fun workflowId address => by
          have hall := run_refunds hash w ops hw workflowId address
          rw [(hunclaimed workflowId address).mpr (hrefunds workflowId address)] at hall
          rw [← hall, add_zero]
        forfeitures := by
          have hall := run_forfeitures hash w ops hw
          rw [hdropped.mpr hforfeits] at hall
          rw [← hall, add_zero] }

end

/-- an escrow in dispute, and no bond -/
def oneDispute : World :=
  { emptyWorld {} 0 with
    escrows :=
      { transfers := [(0, { token := "USDC", sender := "s", recipient := "r", amountAfterFee := 100
                            escrowState := .disputed })]
        nextWorkflowId := 1 } }

theorem bonds_conserved_iff_oneDispute :
    BondsConserved (fun dist => dist.grossAmount.repr) oneDispute
        [.postAppealBond 0 "a" {} "USDC" 10, .returnBond 0 "a"] ↔
      Along (bondStep fun dist => dist.grossAmount.repr)
        (KeepsBonds fun dist => dist.grossAmount.repr) oneDispute
        [.postAppealBond 0 "a" {} "USDC" 10, .returnBond 0 "a"] :=
  bonds_conserved_iff _ _ _ ⟨rfl, fun _ _ => rfl, rfl, fun _ _ => rfl⟩

/-- A bond that is returned with all others is disposed of and nobody can withdraw it. -/
theorem bonds_conserved_counterexample :
    ¬ BondsConserved (fun dist => dist.grossAmount.repr) oneDispute
      [.postAppealBond 0 "a" {} "USDC" 10, .returnAllBondsForWorkflow 0] :=
  fun h => absurd (h.refunds 0 "a") (by decide +kernel)

end PRF.Sew
