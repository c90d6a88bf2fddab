import ProtocolRobustness.Economics.Shortfall
import ProtocolRobustness.Library.Keyed

/-!
# The ledgers of an allocation

What an allocation keeps per obligation, and that the checks on the ledgers never fail.

* `CommitsAmount`      the hash of a payable determines its amount;
* `Balanced`           per obligation: paid and newly allocated within the cumulative allocation, and
                       that within the approved amount;
* `settled`            what the settlements of the predecessor add;
* `allocate_balanced`  every allocation that is returned is balanced, by induction on the inputs;
* `ledger_failures`    no call ends in the overcommitment or the conservation exception.
-/

namespace PRF.Economics.Shortfall
open Bytes Table

/-! ## the invariant -/

/-- the hash of a payable commits to its amount -/
def CommitsAmount (env : ShortfallEnv) : Prop :=
  ∀ b b' : PayableBody, env.payableHash b = env.payableHash b' → b.amount = b'.amount

def Allocation.ids (a : Allocation) : List String := a.obligations.map ObligationRow.id

structure Balanced (env : ShortfallEnv) (a : Allocation) : Prop where
  distinct : a.ids.Nodup
  cumulative_ids : ∀ id, id ∈ a.cumulativeAllocations.ids ↔ id ∈ a.ids
  paid_ids : ∀ id ∈ a.paid.ids, id ∈ a.ids
  allocated_ids : ∀ id ∈ a.allocations.ids, id ∈ a.ids
  paid_nonneg : ∀ id, 0 ≤ a.paid.get id
  allocated_nonneg : ∀ id, 0 ≤ a.allocations.get id
  within : ∀ id, a.paid.get id + a.allocations.get id ≤ a.cumulativeAllocations.get id
  approved : ∀ o ∈ a.obligations, a.cumulativeAllocations.get o.id ≤ o.approved
  rooted : ∀ o ∈ a.obligations, ∃ b : PayableBody, env.payableHash b = o.root ∧ b.amount = o.approved

/-! ## what is carried over -/

def carriedCumulative (recoveryOf : Option Allocation) : Amounts String :=
  recoveryOf.elim Amounts.empty fun r => r.cumulativeAllocations

def carriedPaid (recoveryOf : Option Allocation) : Amounts String :=
  recoveryOf.elim Amounts.empty fun r => r.paid

/-- what the settlements of the predecessor add -/
def settled (env : ShortfallEnv) (call : Call) (recoveryOf : Option Allocation)
    (previous : Option Replayed) : Amounts String :=
  (env.paymentBatch call recoveryOf previous).elim Amounts.empty SettlementBatch.paid

/-! ## settlements -/

section
variable {env : ShortfallEnv} {call : Call} {recoveryOf : Option Allocation}
  {previous : Option Replayed} {priors : List PriorReservation}

theorem paid_of_matches {a : Allocation} {e : String × ℤ} {input : SettlementInput}
    (h : ShortfallEnv.settlementMatches a e input = true) : e.2 = input.paid := by
  unfold ShortfallEnv.settlementMatches at h
  split at h
  · cases h
  · exact (of_decide_eq_true h).2.2.2.2.2.2.2.1

/-- **What is in a batch**: funded parts, each with a valid settlement of just that amount. -/
theorem verifyFundedSettlements_eq_some {a : Allocation} {replay : Except Failure Allocation}
    {settlements : List (String × SettlementInput)} {b : SettlementBatch}
    (h : env.verifyFundedSettlements a replay settlements = some b) :
    (∀ s ∈ settlements, s.1 ∈ (ShortfallEnv.funded a).map Prod.fst)
      ∧ b.paid.entries = ShortfallEnv.suppliedFunded a settlements
      ∧ ∀ e ∈ b.paid.entries, ∃ input root, find settlements e.1 = some input
        ∧ env.verifySettlement input = some root ∧ input.paid = e.2 := by
  unfold ShortfallEnv.verifyFundedSettlements at h
  split at h
  case isFalse => cases h
  case isTrue hcond =>
    obtain ⟨roots, hroots, hb⟩ := Option.bind_eq_some_iff.mp h
    obtain rfl := Option.some.inj hb
    refine ⟨hcond.2.2, rfl, fun e he => ?_⟩
    have hsome := Fallible.mapM_isSome.mp (Option.isSome_of_eq_some hroots) e he
    obtain ⟨checked, hchecked⟩ := Option.isSome_iff_exists.mp hsome
    obtain ⟨input, hinput, hchecked⟩ := Option.bind_eq_some_iff.mp hchecked
    obtain ⟨root, hroot, hchecked⟩ := Option.bind_eq_some_iff.mp hchecked
    refine ⟨input, root, hinput, hroot, ?_⟩
    by_cases hm : ShortfallEnv.settlementMatches a e input = true
    · exact (paid_of_matches hm).symm
    · rw [if_neg hm] at hchecked
      cases hchecked

theorem paymentBatch_eq_some {b : SettlementBatch}
    (h : env.paymentBatch call recoveryOf previous = some b) : ∃ r p settlements,
      recoveryOf = some r ∧ previous = some p ∧ call.previousSettlements = some settlements
        ∧ env.verifyFundedSettlements r p.replay settlements = some b := by
  obtain ⟨r, hr, h⟩ := Option.bind_eq_some_iff.mp h
  obtain ⟨p, hp, h⟩ := Option.bind_eq_some_iff.mp h
  obtain ⟨settlements, hs, h⟩ := Option.bind_eq_some_iff.mp h
  exact ⟨r, p, settlements, hr, hp, hs, h⟩

theorem mem_settled {e : String × ℤ} (he : e ∈ (settled env call recoveryOf previous).entries) :
    ∃ r settlements input root, recoveryOf = some r ∧ call.previousSettlements = some settlements
      ∧ e ∈ r.allocations.entries ∧ 0 < e.2 ∧ find settlements e.1 = some input
      ∧ env.verifySettlement input = some root ∧ input.paid = e.2 := by
  unfold settled at he
  cases hb : env.paymentBatch call recoveryOf previous with
  | none =>
    rw [hb] at he
    cases he
  | some b =>
    rw [hb] at he
    obtain ⟨r, p, settlements, hr, -, hs, hv⟩ := paymentBatch_eq_some hb
    obtain ⟨-, hentries, hchecked⟩ := verifyFundedSettlements_eq_some hv
    obtain ⟨input, root, hinput, hroot, hpaid⟩ := hchecked e he
    have hsup : e ∈ ShortfallEnv.suppliedFunded r settlements := hentries ▸ he
    have hfunded := List.mem_of_mem_filter hsup
    exact ⟨r, settlements, input, root, hr, hs, List.mem_of_mem_filter hfunded,
      of_decide_eq_true (List.mem_filter.mp hfunded).2, hinput, hroot, hpaid⟩

theorem mem_settled_of_find {r : Allocation} {settlements : List (String × SettlementInput)}
    (hs : call.previousSettlements = some settlements)
    (hbatch : (env.paymentBatch call (some r) previous).isSome) {id : String} {input : SettlementInput}
    (hinput : find settlements id = some input) :
    (id, input.paid) ∈ (settled env call (some r) previous).entries := by
  obtain ⟨b, hb⟩ := Option.isSome_iff_exists.mp hbatch
  obtain ⟨r', p, settlements', hr, -, hs', hv⟩ := paymentBatch_eq_some hb
  obtain rfl := Option.some.inj hr
  obtain rfl := Option.some.inj (hs.symm.trans hs')
  obtain ⟨hfunded, hentries, hchecked⟩ := verifyFundedSettlements_eq_some hv
  have hkey : id ∈ settlements.map Prod.fst := List.mem_map_of_mem (mem_of_find hinput)
  obtain ⟨e, he, rfl⟩ := List.mem_map.mp (hfunded _ (mem_of_find hinput))
  have hmem : e ∈ b.paid.entries := by
    rw [hentries]
    exact List.mem_filter.mpr ⟨he, decide_eq_true hkey⟩
  obtain ⟨input', root, hinput', -, hpaid⟩ := hchecked e hmem
  obtain rfl := Option.some.inj (hinput.symm.trans hinput')
  unfold settled
  rw [hb, hpaid]
  exact hmem

theorem get_settled (id : String) : (settled env call recoveryOf previous).get id = 0
    ∨ ∃ r, recoveryOf = some r ∧ 0 < (settled env call recoveryOf previous).get id
      ∧ (settled env call recoveryOf previous).get id = r.allocations.get id
      ∧ id ∈ r.allocations.ids := by
  by_cases hid : id ∈ (settled env call recoveryOf previous).ids
  · right
    obtain ⟨e, he, rfl⟩ := List.mem_map.mp hid
    obtain ⟨r, settlements, input, root, hr, -, hmem, hpos, -⟩ := mem_settled he
    have hs : (settled env call recoveryOf previous).get e.1 = e.2 := Amounts.get_of_mem he
    have ha : r.allocations.get e.1 = e.2 := Amounts.get_of_mem hmem
    exact ⟨r, hr, hs.symm ▸ hpos, hs.trans ha.symm, List.mem_map_of_mem hmem⟩
  · exact Or.inl (Amounts.get_of_not_mem hid)

end

/-! ## reading the ledgers -/

theorem find_obligation {obligations : List Obligation} (hn : (obligations.map Obligation.id).Nodup)
    {o : Obligation} (ho : o ∈ obligations) :
    (obligations.find? fun o' => o'.id = o.id) = some o :=
  (Keyed.search_eq_some hn).mpr ⟨ho, rfl⟩

namespace Ledger
variable {l : Ledger} {obligations : List Obligation}

theorem get_fundedUnpaid {id : String} (h : id ∈ l.cumulative.ids) :
    l.fundedUnpaid.get id = l.cumulative.get id - l.paid.get id :=
  Amounts.get_tabulate_of_mem h

variable (hn : (obligations.map Obligation.id).Nodup) {o : Obligation} (ho : o ∈ obligations)
include hn ho

theorem get_unfundedLiabilities : (l.unfundedLiabilities obligations).get o.id
    = o.payable.amount - l.cumulative.get o.id := by
  unfold unfundedLiabilities
  rw [Amounts.get_tabulate_of_mem (List.mem_map_of_mem ho), find_obligation hn ho]
  rfl

end Ledger

/-! ## one call -/

section
variable {env : ShortfallEnv} {call : Call} {recoveryOf : Option Allocation}
  {previous : Option Replayed} {priors : List PriorReservation}

theorem mem_ids {call : Call} {id : String} : id ∈ call.ids ↔ ∃ o ∈ call.obligations, o.id = id :=
  List.mem_map

section
variable (hadm : Admitted env call recoveryOf previous priors)
  (hbal : ∀ r ∈ recoveryOf, Balanced env r)
include hadm

theorem recovered_rows {r : Allocation} (hr : recoveryOf = some r) :
    (call.obligations.map fun o => (o.id, o.payable.hash)).Perm
      (r.obligations.map fun o => (o.id, o.root)) := by
  obtain ⟨-, -, -, -, -, -, -, -, -, hrows⟩ := hadm.recoverable r hr
  exact hrows

theorem recovered_ids {r : Allocation} (hr : recoveryOf = some r) (id : String) :
    id ∈ r.ids ↔ id ∈ call.ids := by
  have h := (recovered_rows hadm hr).map Prod.fst
  rw [List.map_map, List.map_map] at h
  exact h.mem_iff.symm

theorem recovered_row {r : Allocation} (hr : recoveryOf = some r) {o : Obligation}
    (ho : o ∈ call.obligations) :
    ∃ row ∈ r.obligations, row.id = o.id ∧ row.root = o.payable.hash := by
  have h := (recovered_rows hadm hr).mem_iff.mp (List.mem_map_of_mem ho)
  obtain ⟨row, hrow, heq⟩ := List.mem_map.mp h
  exact ⟨row, hrow, (Prod.mk.inj heq).1, (Prod.mk.inj heq).2⟩

include hbal

theorem carriedCumulative_ids {id : String} (h : id ∈ (carriedCumulative recoveryOf).ids) :
    id ∈ call.ids := by
  cases recoveryOf with
  | none => cases h
  | some r => exact (recovered_ids hadm rfl id).mp (((hbal r rfl).cumulative_ids id).mp h)

theorem carriedPaid_ids {id : String} (h : id ∈ (carriedPaid recoveryOf).ids) : id ∈ call.ids := by
  cases recoveryOf with
  | none => cases h
  | some r => exact (recovered_ids hadm rfl id).mp ((hbal r rfl).paid_ids id h)

theorem settled_ids {id : String} (h : id ∈ (settled env call recoveryOf previous).ids) :
    id ∈ call.ids := by
  obtain ⟨e, he, rfl⟩ := List.mem_map.mp h
  obtain ⟨r, -, -, -, hr, -, hmem, -⟩ := mem_settled he
  exact (recovered_ids hadm hr _).mp ((hbal r hr).allocated_ids _ (List.mem_map_of_mem hmem))

omit hadm in
theorem carriedPaid_nonneg (id : String) : 0 ≤ (carriedPaid recoveryOf).get id := by
  cases recoveryOf with
  | none => exact le_refl 0
  | some r => exact (hbal r rfl).paid_nonneg id

omit hadm hbal in
theorem settled_nonneg (id : String) : 0 ≤ (settled env call recoveryOf previous).get id := by
  have h : (settled env call recoveryOf previous).get id = 0 ∨ _ := get_settled id
  rcases h with h | ⟨r, -, h, -⟩
  · exact h.ge
  · exact h.le

omit hadm in
theorem paid_le_carried (id : String) :
    (carriedPaid recoveryOf).get id + (settled env call recoveryOf previous).get id
      ≤ (carriedCumulative recoveryOf).get id := by
  have h : (settled env call recoveryOf previous).get id = 0 ∨ _ := get_settled id
  rcases h with h | ⟨r, hr, -, h, -⟩
  · rw [h, add_zero]
    cases recoveryOf with
    | none => exact le_refl 0
    | some r =>
      have := (hbal r rfl).within id
      have := (hbal r rfl).allocated_nonneg id
      show r.paid.get id ≤ r.cumulativeAllocations.get id
      omega
  · subst hr
    rw [h]
    exact (hbal r rfl).within id

theorem previouslyAllocated_eq {o : Obligation} (ho : o ∈ call.obligations) :
    Call.previouslyAllocated recoveryOf o.id = (carriedCumulative recoveryOf).get o.id := by
  cases recoveryOf with
  | none => rfl
  | some r =>
    have hid : o.id ∈ r.cumulativeAllocations.ids :=
      ((hbal r rfl).cumulative_ids _).mpr
        ((recovered_ids hadm rfl _).mpr (List.mem_map_of_mem ho))
    obtain ⟨e, he, heq⟩ := List.mem_map.mp hid
    show (find r.cumulativeAllocations.entries o.id).getD _
      = (find r.cumulativeAllocations.entries o.id).getD 0
    rw [← heq, find_of_mem r.cumulativeAllocations.nodup he]
    rfl

theorem carried_approved (hamounts : CommitsAmount env) {o : Obligation}
    (ho : o ∈ call.obligations) : (carriedCumulative recoveryOf).get o.id ≤ o.payable.amount := by
  obtain ⟨-, hpos, -, hverified⟩ := hadm.valid.2.2.2 o ho
  cases recoveryOf with
  | none => exact hpos.le
  | some r =>
    obtain ⟨row, hrow, hid, hroot⟩ := recovered_row hadm rfl ho
    obtain ⟨b, hb, hamount⟩ := (hbal r rfl).rooted row hrow
    have hbody := hamounts b o.payable.toPayableBody (hb.trans (hroot.trans hverified.2.2.symm))
    have h := (hbal r rfl).approved row hrow
    rw [hid, ← hamount, hbody] at h
    exact h

/-- **No obligation is overcommitted.** -/
theorem not_overcommitted (hamounts : CommitsAmount env) :
    ∀ o ∈ call.obligations, ¬ Call.overcommitted recoveryOf o := by
  intro o ho hover
  have happroved := carried_approved hadm hbal hamounts ho
  have hpaid : _ + (settled env call recoveryOf previous).get o.id ≤ _ := paid_le_carried hbal o.id
  have hsettled : 0 ≤ (settled env call recoveryOf previous).get o.id := settled_nonneg o.id
  have hbefore : Call.paidBefore recoveryOf o.id = (carriedPaid recoveryOf).get o.id := by
    cases recoveryOf <;> rfl
  unfold Call.overcommitted Call.allocatable at hover
  rw [previouslyAllocated_eq hadm hbal ho, hbefore] at hover
  omega

/-! ### the ledgers it writes -/

/-- the ledgers of a call whose division is the one of the contract -/
abbrev newLedger (env : ShortfallEnv) (call : Call) (recoveryOf : Option Allocation)
    (previous : Option Replayed) : Ledger :=
  ledgerOf env call recoveryOf previous (awarded call recoveryOf)

variable (hamounts : CommitsAmount env)
include hamounts

theorem newLedger_allocated_ids (id : String) :
    id ∈ (newLedger env call recoveryOf previous).allocated.ids ↔ id ∈ call.ids :=
  (ids_allocatedMap hadm (not_overcommitted hadm hbal hamounts)).mem_iff

theorem newLedger_cumulative_ids (id : String) :
    id ∈ (newLedger env call recoveryOf previous).cumulative.ids ↔ id ∈ call.ids := by
  show id ∈ ((carriedCumulative recoveryOf).merge (newLedger env call recoveryOf previous).allocated).ids
    ↔ _
  rw [Amounts.mem_ids_merge, newLedger_allocated_ids hadm hbal hamounts]
  exact or_iff_right_of_imp (carriedCumulative_ids hadm hbal)

omit hamounts in
theorem newLedger_paid_ids {id : String}
    (h : id ∈ (newLedger env call recoveryOf previous).paid.ids) : id ∈ call.ids := by
  have h : id ∈ ((carriedPaid recoveryOf).merge (settled env call recoveryOf previous)).ids := h
  rcases Amounts.mem_ids_merge.mp h with h | h
  · exact carriedPaid_ids hadm hbal h
  · exact settled_ids hadm hbal h

omit hadm hbal hamounts in
theorem newLedger_get_paid (id : String) :
    (newLedger env call recoveryOf previous).paid.get id
      = (carriedPaid recoveryOf).get id + (settled env call recoveryOf previous).get id :=
  Amounts.get_merge _ _ id

omit hadm hbal hamounts in
theorem newLedger_get_cumulative (id : String) :
    (newLedger env call recoveryOf previous).cumulative.get id
      = (carriedCumulative recoveryOf).get id
        + (newLedger env call recoveryOf previous).allocated.get id :=
  Amounts.get_merge _ _ id

theorem newLedger_allocated {o : Obligation} (ho : o ∈ call.obligations) :
    0 ≤ (newLedger env call recoveryOf previous).allocated.get o.id
      ∧ (newLedger env call recoveryOf previous).allocated.get o.id
        ≤ o.payable.amount - (carriedCumulative recoveryOf).get o.id := by
  have hcommitted := not_overcommitted hadm hbal hamounts
  have howed := owed_owed hadm hcommitted
  have he : (o.id, Call.allocatable recoveryOf o) ∈ call.owed recoveryOf := List.mem_map_of_mem ho
  have hget : (newLedger env call recoveryOf previous).allocated.get o.id
      = award call.available (call.owed recoveryOf) (o.id, Call.allocatable recoveryOf o) :=
    get_allocatedMap hadm hcommitted ho
  rw [hget, ← previouslyAllocated_eq hadm hbal ho]
  exact ⟨award_nonneg hadm.input.1 howed he, award_le howed he⟩

theorem newLedger_allocated_nonneg (id : String) :
    0 ≤ (newLedger env call recoveryOf previous).allocated.get id := by
  by_cases hid : id ∈ call.ids
  · obtain ⟨o, ho, rfl⟩ := mem_ids.mp hid
    exact (newLedger_allocated hadm hbal hamounts ho).1
  · rw [Amounts.get_of_not_mem fun h => hid ((newLedger_allocated_ids hadm hbal hamounts id).mp h)]

/-- **The totals of the ledgers add up to the approved amount.** -/
theorem newLedger_conserves :
    (newLedger env call recoveryOf previous).Conserves call.obligations := by
  have hn : call.ids.Nodup := hadm.valid.2.1
  have hcum : ∀ id, id ∈ (newLedger env call recoveryOf previous).cumulative.ids ↔ id ∈ call.ids :=
    newLedger_cumulative_ids hadm hbal hamounts
  -- all three are counted at the ids of the obligations
  have hpaid : (newLedger env call recoveryOf previous).paid.total = _ :=
    Amounts.total_eq_sum hn fun id => newLedger_paid_ids hadm hbal
  have hfunded : (newLedger env call recoveryOf previous).fundedUnpaid.total = _ :=
    Amounts.total_eq_sum hn fun id h => (hcum id).mp (Amounts.mem_ids_tabulate.mp h)
  have hunfunded : ((newLedger env call recoveryOf previous).unfundedLiabilities
      call.obligations).total = _ :=
    Amounts.total_eq_sum hn fun id h => Amounts.mem_ids_tabulate.mp h
  unfold Ledger.Conserves Ledger.totalApproved
  rw [hpaid, hfunded, hunfunded, ← List.sum_map_add, ← List.sum_map_add]
  show _ = ((call.obligations.map Obligation.id).map _).sum
  rw [List.map_map]
  refine congrArg List.sum (List.map_congr_left fun o ho => ?_)
  show o.payable.amount = (newLedger env call recoveryOf previous).paid.get o.id
    + (newLedger env call recoveryOf previous).fundedUnpaid.get o.id
    + ((newLedger env call recoveryOf previous).unfundedLiabilities call.obligations).get o.id
  rw [Ledger.get_fundedUnpaid ((hcum o.id).mpr (List.mem_map_of_mem ho)),
    Ledger.get_unfundedLiabilities hn ho]
  omega

/-! ### the artifact -/

omit hadm hbal hamounts in
theorem sealed_ids {batch : Option SettlementBatch} {l : Ledger} {root : String} :
    (env.sealed (env.allocationBody call recoveryOf priors batch l root)).ids = call.ids := by
  show (call.obligations.map (l.row call.obligations recoveryOf)).map ObligationRow.id = _
  rw [List.map_map]
  rfl

theorem sealed_balanced (root : String) : Balanced env (env.sealed (env.allocationBody call recoveryOf
    priors (env.paymentBatch call recoveryOf previous) (newLedger env call recoveryOf previous)
    root)) := by
  have hn : call.ids.Nodup := hadm.valid.2.1
  have hcum : ∀ id, id ∈ (newLedger env call recoveryOf previous).cumulative.ids ↔ id ∈ call.ids :=
    newLedger_cumulative_ids hadm hbal hamounts
  exact
    { distinct := by
        rw [sealed_ids]
        exact hn
      cumulative_ids := by
        intro id
        rw [sealed_ids]
        exact hcum id
      paid_ids := by
        intro id h
        rw [sealed_ids]
        exact newLedger_paid_ids hadm hbal h
      allocated_ids := by
        intro id h
        rw [sealed_ids]
        exact (newLedger_allocated_ids hadm hbal hamounts id).mp h
      paid_nonneg := by
        intro id
        have h1 := carriedPaid_nonneg hbal id
        have h2 : 0 ≤ (settled env call recoveryOf previous).get id := settled_nonneg id
        show 0 ≤ (newLedger env call recoveryOf previous).paid.get id
        rw [newLedger_get_paid]
        omega
      allocated_nonneg := newLedger_allocated_nonneg hadm hbal hamounts
      within := by
        intro id
        have h : _ + (settled env call recoveryOf previous).get id ≤ _ := paid_le_carried hbal id
        show (newLedger env call recoveryOf previous).paid.get id
          + (newLedger env call recoveryOf previous).allocated.get id
            ≤ (newLedger env call recoveryOf previous).cumulative.get id
        rw [newLedger_get_paid, newLedger_get_cumulative]
        omega
      approved := by
        intro row hrow
        obtain ⟨o, ho, rfl⟩ := List.mem_map.mp hrow
        have h : (newLedger env call recoveryOf previous).allocated.get o.id ≤ _ :=
          (newLedger_allocated hadm hbal hamounts ho).2
        show (newLedger env call recoveryOf previous).cumulative.get o.id ≤ o.payable.amount
        rw [newLedger_get_cumulative]
        omega
      rooted := by
        intro row hrow
        obtain ⟨o, ho, rfl⟩ := List.mem_map.mp hrow
        obtain ⟨-, -, -, hverified⟩ := hadm.valid.2.2.2 o ho
        exact ⟨o.payable.toPayableBody, hverified.2.2, rfl⟩ }

/-- **Past the guards a call returns.** -/
theorem allocateWith_eq : ∃ root, env.allocateWith call recoveryOf previous priors
    = .ok (env.sealed (env.allocationBody call recoveryOf priors
      (env.paymentBatch call recoveryOf previous) (newLedger env call recoveryOf previous) root)) := by
  have hcommitted := not_overcommitted hadm hbal hamounts
  obtain ⟨root, hdivide⟩ := divide_call hadm hcommitted
  refine ⟨root, ?_⟩
  rw [allocateWith_admitted hadm, requireThat, if_pos hcommitted, hdivide]
  show (requireThat ((newLedger env call recoveryOf previous).Conserves call.obligations) _ >>= _) = _
  rw [requireThat, if_pos (newLedger_conserves hadm hbal hamounts)]
  rfl

end

end

/-! ## calls of any depth -/

theorem replayed_eq_true {claimed : Option Allocation} {replay : Except Failure Allocation} :
    replayed claimed replay = true
      ↔ ∃ a, claimed = some a ∧ replay = .ok a ∧ verifyProRataMath a = true := by
  unfold replayed
  split
  case h_1 a b =>
    rw [decide_eq_true_iff]
    constructor
    · rintro ⟨rfl, hmath⟩
      exact ⟨a, rfl, rfl, hmath⟩
    · rintro ⟨a', ha, hb, hmath⟩
      obtain rfl := Option.some.inj ha
      exact ⟨(Except.ok.inj hb).symm, hmath⟩
  case h_2 hno =>
    refine iff_of_false nofun ?_
    rintro ⟨a, rfl, rfl, -⟩
    exact hno a a rfl rfl

theorem recovered_replay {env : ShortfallEnv} {call : Call} {recoveryOf : Option Allocation}
    {previousInputs : Option Inputs} {priors : List PriorReservation}
    (hadm : Admitted env call recoveryOf (env.replayPrevious previousInputs) priors) {r : Allocation}
    (hr : recoveryOf = some r) : ∃ inputs, previousInputs = some inputs ∧ env.allocate inputs = .ok r := by
  obtain ⟨-, -, ⟨p, hp, hclaimed, hreplay⟩, -⟩ := hadm.recoverable r hr
  cases previousInputs with
  | none =>
    rw [ShortfallEnv.replayPrevious] at hp
    cases hp
  | some inputs =>
    rw [ShortfallEnv.replayPrevious, Option.mem_some_iff] at hp
    subst hp
    obtain ⟨a, ha, hok, -⟩ := replayed_eq_true.mp hreplay
    obtain rfl := Option.some.inj (hclaimed.symm.trans ha)
    exact ⟨inputs, rfl, hok⟩

section
variable {env : ShortfallEnv} (hamounts : CommitsAmount env)
include hamounts

/-- **Every allocation that is returned is balanced.** -/
theorem allocate_balanced : ∀ (inputs : Inputs) {a : Allocation}, env.allocate inputs = .ok a →
    Balanced env a
  | .mk call recoveryOf claimed previousInputs priors, a, h => by
    rw [ShortfallEnv.allocate] at h
    have hadm := admitted h nofun
    -- the predecessor is the result of the inputs one level down
    have hbal : ∀ r ∈ recoveryOf, Balanced env r := by
      intro r hr
      obtain ⟨inputs, rfl, hok⟩ := recovered_replay hadm hr
      exact allocate_balanced inputs hok
    obtain ⟨root, hok⟩ := allocateWith_eq hadm hbal hamounts
    rw [hok] at h
    obtain rfl := Except.ok.inj h
    exact sealed_balanced hadm hbal hamounts root

theorem recovered_balanced {call : Call} {recoveryOf : Option Allocation}
    {previousInputs : Option Inputs} {priors : List PriorReservation}
    (hadm : Admitted env call recoveryOf (env.replayPrevious previousInputs) priors) :
    ∀ r ∈ recoveryOf, Balanced env r := by
  intro r hr
  obtain ⟨inputs, -, hok⟩ := recovered_replay hadm hr
  exact allocate_balanced hamounts inputs hok

/-- **The checks on the ledgers never fail.** -/
theorem ledger_failures (inputs : Inputs) {e : Failure} (h : env.allocate inputs = .error e) :
    e.early := by
  obtain ⟨call, recoveryOf, claimed, previousInputs, priors⟩ := inputs
  rw [ShortfallEnv.allocate] at h
  by_contra hlate
  have hadm := admitted h fun e' he' => Except.error.inj he' ▸ hlate
  obtain ⟨root, hok⟩ := allocateWith_eq hadm (recovered_balanced hamounts hadm) hamounts
  rw [hok] at h
  cases h

/-- the inputs' settlements, as amounts -/
def Inputs.settled (env : ShortfallEnv) (inputs : Inputs) : Amounts String :=
  Shortfall.settled env inputs.call inputs.recoveryOf (env.replayPrevious inputs.previousInputs)

theorem allocate_eq_ok {inputs : Inputs} {a : Allocation} (h : env.allocate inputs = .ok a) :
    ∃ priors root, Admitted env inputs.call inputs.recoveryOf
        (env.replayPrevious inputs.previousInputs) priors
      ∧ a = env.sealed (env.allocationBody inputs.call inputs.recoveryOf priors
        (env.paymentBatch inputs.call inputs.recoveryOf (env.replayPrevious inputs.previousInputs))
        (newLedger env inputs.call inputs.recoveryOf (env.replayPrevious inputs.previousInputs)) root) := by
  obtain ⟨call, recoveryOf, claimed, previousInputs, priors⟩ := inputs
  rw [ShortfallEnv.allocate] at h
  have hadm := admitted h nofun
  obtain ⟨root, hok⟩ := allocateWith_eq hadm (recovered_balanced hamounts hadm) hamounts
  rw [hok] at h
  exact ⟨env.replayPriors priors, root, hadm, (Except.ok.inj h).symm⟩

end

end PRF.Economics.Shortfall
