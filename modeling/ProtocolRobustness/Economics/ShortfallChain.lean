import ProtocolRobustness.Economics.ShortfallVerify

/-!
# Recovery chains

Accepted calls, each the recovery of the one before, and what the ledgers of the last one say about
all of them.

* `Chain`        accepted calls, newest first;
* `settledOver`  the settlements of a chain, by the event and the obligation that they settle;
* `Accounted`    what the last link keeps of the whole chain;
* `chain_accounted`  every link of a chain is accounted, and no call fails on the ledgers.
-/

namespace PRF.Economics.Shortfall
open Bytes Table

/-- a call with the allocation it returned -/
structure Link where
  inputs : Inputs
  allocation : Allocation

namespace Link

def call (link : Link) : Call := link.inputs.call

/-- the settlements it merges, by the event and the obligation that they settle -/
def settlements (env : ShortfallEnv) (link : Link) : List ((String × String) × ℤ) :=
  (link.inputs.settled env).entries.map fun e =>
    ((link.inputs.recoveryOf.elim "" fun r => r.eventId, e.1), e.2)

end Link

/-- accepted calls, newest first, each the recovery of the one before -/
inductive Chain (env : ShortfallEnv) : List Link → Prop
  | first {inputs : Inputs} {a : Allocation} (hnone : inputs.recoveryOf = none)
      (hok : env.allocate inputs = .ok a) : Chain env [⟨inputs, a⟩]
  | recovery {inputs : Inputs} {a : Allocation} {previous : Link} {rest : List Link}
      (hchain : Chain env (previous :: rest)) (hsome : inputs.recoveryOf = some previous.allocation)
      (hok : env.allocate inputs = .ok a) : Chain env (⟨inputs, a⟩ :: previous :: rest)

/-- the settlements that the links of a chain merge -/
def settledOver (env : ShortfallEnv) (links : List Link) : List ((String × String) × ℤ) :=
  links.flatMap (Link.settlements env)

/-- what was settled of an obligation, whatever the event -/
def settledOf (settlements : List ((String × String) × ℤ)) (id : String) : ℤ :=
  ((settlements.filter fun s => s.1.2 = id).map Prod.snd).sum

def allocatedOver (links : List Link) (id : String) : ℤ :=
  (links.map fun link => link.allocation.allocations.get id).sum

/-- **What the newest link keeps of its chain.** -/
structure Accounted (env : ShortfallEnv) (link : Link) (rest : List Link) : Prop where
  bounds : ∀ o ∈ link.call.obligations, 0 ≤ link.allocation.paid.get o.id
    ∧ link.allocation.paid.get o.id ≤ link.allocation.cumulativeAllocations.get o.id
    ∧ link.allocation.cumulativeAllocations.get o.id ≤ o.payable.amount
  /-- nothing is kept under any other id -/
  ids : ∀ id, id ∈ link.allocation.paid.ids ∨ id ∈ link.allocation.cumulativeAllocations.ids →
    id ∈ link.call.ids
  cumulative : ∀ id, link.allocation.cumulativeAllocations.get id = allocatedOver (link :: rest) id
  paid : ∀ id, link.allocation.paid.get id = settledOf (settledOver env (link :: rest)) id
  /-- no obligation is settled twice for one event -/
  once : ((settledOver env (link :: rest)).map Prod.fst).Nodup
  /-- what is settled are the settlements that were supplied, and all of them are valid -/
  verified : ∀ l ∈ link :: rest, ∀ event id amount, ((event, id), amount) ∈ l.settlements env ↔
    ∃ r settlements input, l.inputs.recoveryOf = some r ∧ r.eventId = event
      ∧ l.call.previousSettlements = some settlements ∧ find settlements id = some input
      ∧ (env.verifySettlement input).isSome ∧ input.paid = amount
  conserved : link.allocation.totalApproved = link.allocation.totalPaid
    + link.allocation.totalFundedUnpaid + link.allocation.totalUnfundedLiability
  approved : link.allocation.totalApproved = (link.call.obligations.map fun o => o.payable.amount).sum
  nonneg : 0 ≤ link.allocation.totalPaid ∧ 0 ≤ link.allocation.totalFundedUnpaid
    ∧ 0 ≤ link.allocation.totalUnfundedLiability
  events : ((link :: rest).map fun l => l.call.eventId).Nodup
  sources : ((link :: rest).map fun l => l.call.fundingSource.sourceRoot).Nodup

/-! ## one link -/

section
variable {env : ShortfallEnv} (hamounts : CommitsAmount env) {inputs : Inputs} {a : Allocation}
  (hok : env.allocate inputs = .ok a)
include hamounts hok

theorem link_cumulative (id : String) : a.cumulativeAllocations.get id
    = (carriedCumulative inputs.recoveryOf).get id + a.allocations.get id := by
  obtain ⟨priors, root, hadm, rfl⟩ := allocate_eq_ok hamounts hok
  exact Amounts.get_merge _ _ id

theorem link_paid (id : String) : a.paid.get id
    = (carriedPaid inputs.recoveryOf).get id + (inputs.settled env).get id := by
  obtain ⟨priors, root, hadm, rfl⟩ := allocate_eq_ok hamounts hok
  exact Amounts.get_merge _ _ id

theorem link_eventHistory : a.eventHistory
    = inputs.recoveryOf.elim [] (fun r => r.eventHistory) ++ [inputs.call.eventId] := by
  obtain ⟨priors, root, hadm, rfl⟩ := allocate_eq_ok hamounts hok
  rfl

theorem link_sourceHistory : a.fundingSourceHistory
    = inputs.recoveryOf.elim [] (fun r => r.fundingSourceHistory)
      ++ [inputs.call.fundingSource.sourceRoot] := by
  obtain ⟨priors, root, hadm, rfl⟩ := allocate_eq_ok hamounts hok
  rfl

theorem link_event : a.eventId = inputs.call.eventId := by
  obtain ⟨priors, root, hadm, rfl⟩ := allocate_eq_ok hamounts hok
  rfl

theorem link_ids : a.ids = inputs.call.ids := by
  obtain ⟨priors, root, hadm, rfl⟩ := allocate_eq_ok hamounts hok
  exact sealed_ids

theorem link_fresh {r : Allocation} (hr : inputs.recoveryOf = some r) :
    inputs.call.eventId ∉ r.eventHistory
      ∧ inputs.call.fundingSource.sourceRoot ∉ r.fundingSourceHistory := by
  obtain ⟨priors, root, hadm, -⟩ := allocate_eq_ok hamounts hok
  obtain ⟨-, -, -, -, -, -, hevent, -, hsource, -⟩ := hadm.recoverable r hr
  exact ⟨hevent, hsource⟩

theorem link_bounds : ∀ o ∈ inputs.call.obligations, 0 ≤ a.paid.get o.id
    ∧ a.paid.get o.id ≤ a.cumulativeAllocations.get o.id
    ∧ a.cumulativeAllocations.get o.id ≤ o.payable.amount := by
  intro o ho
  have hbal := allocate_balanced hamounts inputs hok
  have hwithin := hbal.within o.id
  have hnew := hbal.allocated_nonneg o.id
  refine ⟨hbal.paid_nonneg o.id, by omega, ?_⟩
  -- the row of the obligation has its amount
  obtain ⟨priors, root, hadm, rfl⟩ := allocate_eq_ok hamounts hok
  exact hbal.approved _ (List.mem_map_of_mem ho)

theorem link_conserved : a.totalApproved = a.totalPaid + a.totalFundedUnpaid + a.totalUnfundedLiability
    ∧ a.totalApproved = (inputs.call.obligations.map fun o => o.payable.amount).sum
    ∧ 0 ≤ a.totalPaid ∧ 0 ≤ a.totalFundedUnpaid ∧ 0 ≤ a.totalUnfundedLiability := by
  have hbounds := link_bounds hamounts hok
  obtain ⟨priors, root, hadm, rfl⟩ := allocate_eq_ok hamounts hok
  have hbal := recovered_balanced hamounts hadm
  have hn : inputs.call.ids.Nodup := hadm.valid.2.1
  have hcum := newLedger_cumulative_ids hadm hbal hamounts
  refine ⟨newLedger_conserves hadm hbal hamounts, rfl, ?_, ?_, ?_⟩
  · refine Amounts.total_nonneg hn (fun id => newLedger_paid_ids hadm hbal) fun id hid => ?_
    obtain ⟨o, ho, rfl⟩ := mem_ids.mp hid
    exact (hbounds o ho).1
  · refine Amounts.total_nonneg hn (fun id h => (hcum id).mp (Amounts.mem_ids_tabulate.mp h))
      fun id hid => ?_
    obtain ⟨o, ho, rfl⟩ := mem_ids.mp hid
    have h := Ledger.get_fundedUnpaid ((hcum o.id).mpr hid)
    exact h ▸ sub_nonneg.mpr (hbounds o ho).2.1
  · refine Amounts.total_nonneg hn (fun id h => Amounts.mem_ids_tabulate.mp h) fun id hid => ?_
    obtain ⟨o, ho, rfl⟩ := mem_ids.mp hid
    rw [Ledger.get_unfundedLiabilities hn ho]
    exact sub_nonneg.mpr (hbounds o ho).2.2

theorem link_held_ids {id : String}
    (h : id ∈ a.paid.ids ∨ id ∈ a.cumulativeAllocations.ids) : id ∈ inputs.call.ids := by
  have hbal := allocate_balanced hamounts inputs hok
  rw [← link_ids hamounts hok]
  exact h.elim (hbal.paid_ids id) (hbal.cumulative_ids id).mp

theorem mem_settlements {event id : String} {amount : ℤ} :
    ((event, id), amount) ∈ Link.settlements env ⟨inputs, a⟩ ↔
      ∃ r settlements input, inputs.recoveryOf = some r ∧ r.eventId = event
        ∧ inputs.call.previousSettlements = some settlements ∧ find settlements id = some input
        ∧ (env.verifySettlement input).isSome ∧ input.paid = amount := by
  obtain ⟨priors, root, hadm, rfl⟩ := allocate_eq_ok hamounts hok
  constructor
  · intro h
    obtain ⟨e, he, heq⟩ := List.mem_map.mp h
    obtain ⟨r, settlements, input, root, hr, hs, -, -, hinput, hroot, hpaid⟩ := mem_settled he
    rw [hr] at heq
    obtain ⟨hkey, rfl⟩ := Prod.mk.inj heq
    obtain ⟨hevent, rfl⟩ := Prod.mk.inj hkey
    exact ⟨r, settlements, input, hr, hevent, hs, hinput, hroot ▸ rfl, hpaid⟩
  · rintro ⟨r, settlements, input, hr, rfl, hs, hinput, -, rfl⟩
    obtain ⟨-, -, -, hbatch, -⟩ := hadm.recoverable r hr
    have hbatch := hbatch.resolve_left (hs ▸ Option.some_ne_none settlements)
    have hmem := mem_settled_of_find hs hbatch hinput
    obtain ⟨-, settlements', input', root', -, hs', -, -, hinput', hroot', -⟩ := mem_settled hmem
    obtain rfl := Option.some.inj (hs.symm.trans hs')
    obtain rfl := Option.some.inj (hinput.symm.trans hinput')
    refine List.mem_map.mpr ⟨(id, input.paid), ?_, ?_⟩
    · unfold Inputs.settled
      rw [hr]
      exact hmem
    · rw [hr]
      rfl

omit hamounts hok in
theorem settledOf_settlements (id : String) :
    settledOf (Link.settlements env ⟨inputs, a⟩) id = (inputs.settled env).get id := by
  rw [Amounts.get_eq_net, settledOf, Link.settlements, List.filter_map, List.map_map]
  rfl

omit hamounts hok in
theorem settlements_nodup : ((Link.settlements env ⟨inputs, a⟩).map Prod.fst).Nodup := by
  have h := (inputs.settled env).nodup.map
    (Prod.mk_right_injective (inputs.recoveryOf.elim "" fun r => r.eventId))
  rw [List.map_map] at h
  rw [Link.settlements, List.map_map]
  exact h

omit hamounts hok in
theorem settlements_of_none (hnone : inputs.recoveryOf = none) :
    Link.settlements env ⟨inputs, a⟩ = [] := by
  unfold Link.settlements Inputs.settled settled ShortfallEnv.paymentBatch
  rw [hnone]
  rfl

end

/-! ## the whole chain -/

section
variable {env : ShortfallEnv} (hamounts : CommitsAmount env)
include hamounts

omit hamounts in
theorem settledOf_append (s s' : List ((String × String) × ℤ)) (id : String) :
    settledOf (s ++ s') id = settledOf s id + settledOf s' id := by
  rw [settledOf, List.filter_append, List.map_append, List.sum_append]
  rfl

omit hamounts in
theorem Chain.accepted {links : List Link} (h : Chain env links) :
    ∀ link ∈ links, env.allocate link.inputs = .ok link.allocation := by
  induction h with
  | first hnone hok =>
    intro link hlink
    obtain rfl := List.mem_singleton.mp hlink
    exact hok
  | recovery hchain hsome hok ih =>
    intro link hlink
    rcases List.mem_cons.mp hlink with rfl | hlink
    · exact hok
    · exact ih link hlink

omit hamounts in
theorem Chain.suffix {links : List Link} (h : Chain env links) {link : Link} {rest : List Link}
    (hsuffix : link :: rest <:+ links) : Chain env (link :: rest) := by
  induction h with
  | first hnone hok =>
    rcases List.suffix_cons_iff.mp hsuffix with heq | hnil
    · exact heq ▸ .first hnone hok
    · cases List.suffix_nil.mp hnil
  | recovery hchain hsome hok ih =>
    rcases List.suffix_cons_iff.mp hsuffix with heq | hsuffix
    · exact heq ▸ .recovery hchain hsome hok
    · exact ih hsuffix

theorem Chain.histories {link : Link} {rest : List Link} (h : Chain env (link :: rest)) :
    link.allocation.eventHistory = ((link :: rest).map fun l => l.call.eventId).reverse
      ∧ link.allocation.fundingSourceHistory
        = ((link :: rest).map fun l => l.call.fundingSource.sourceRoot).reverse := by
  generalize hlinks : link :: rest = links at h
  induction h generalizing link rest with
  | first hnone hok =>
    obtain ⟨rfl, rfl⟩ := List.cons.inj hlinks
    constructor
    · rw [link_eventHistory hamounts hok, hnone]
      rfl
    · rw [link_sourceHistory hamounts hok, hnone]
      rfl
  | recovery hchain hsome hok ih =>
    obtain ⟨rfl, rfl⟩ := List.cons.inj hlinks
    obtain ⟨hevents, hsources⟩ := ih rfl
    constructor
    · rw [link_eventHistory hamounts hok, hsome, List.map_cons, List.reverse_cons, ← hevents]
      rfl
    · rw [link_sourceHistory hamounts hok, hsome, List.map_cons, List.reverse_cons, ← hsources]
      rfl

theorem Chain.ledgers {link : Link} {rest : List Link} (h : Chain env (link :: rest)) (id : String) :
    link.allocation.cumulativeAllocations.get id = allocatedOver (link :: rest) id
      ∧ link.allocation.paid.get id = settledOf (settledOver env (link :: rest)) id := by
  generalize hlinks : link :: rest = links at h
  induction h generalizing link rest with
  | first hnone hok =>
    obtain ⟨rfl, rfl⟩ := List.cons.inj hlinks
    rw [link_cumulative hamounts hok, link_paid hamounts hok, hnone]
    constructor
    · show (Amounts.empty : Amounts String).get id + _ = _ + 0
      rw [add_zero]
      exact zero_add _
    · rw [settledOver, List.flatMap_cons, List.flatMap_nil, List.append_nil, settledOf_settlements]
      exact zero_add _
  | recovery hchain hsome hok ih =>
    obtain ⟨rfl, rfl⟩ := List.cons.inj hlinks
    obtain ⟨hcumulative, hpaid⟩ := ih rfl
    rw [link_cumulative hamounts hok, link_paid hamounts hok, hsome]
    constructor
    · show _ + _ = (List.map _ (_ :: _)).sum
      rw [List.map_cons, List.sum_cons, add_comm]
      exact congrArg _ hcumulative
    · rw [settledOver, List.flatMap_cons, settledOf_append, settledOf_settlements, add_comm]
      exact congrArg _ hpaid

theorem Chain.fresh {links : List Link} (h : Chain env links) :
    (links.map fun l => l.call.eventId).Nodup
      ∧ (links.map fun l => l.call.fundingSource.sourceRoot).Nodup := by
  induction h with
  | first hnone hok => exact ⟨List.nodup_singleton _, List.nodup_singleton _⟩
  | recovery hchain hsome hok ih =>
    obtain ⟨hevents, hsources⟩ := hchain.histories hamounts
    obtain ⟨hevent, hsource⟩ := link_fresh hamounts hok hsome
    rw [hevents, List.mem_reverse] at hevent
    rw [hsources, List.mem_reverse] at hsource
    exact ⟨List.nodup_cons.mpr ⟨hevent, ih.1⟩, List.nodup_cons.mpr ⟨hsource, ih.2⟩⟩

theorem Chain.event_settled {link : Link} {rest : List Link} (h : Chain env (link :: rest)) :
    ∀ s ∈ settledOver env (link :: rest), s.1.1 ∈ rest.map fun l => l.call.eventId := by
  generalize hlinks : link :: rest = links at h
  induction h generalizing link rest with
  | first hnone hok =>
    obtain ⟨rfl, rfl⟩ := List.cons.inj hlinks
    intro s hs
    rw [settledOver, List.flatMap_cons, settlements_of_none hnone] at hs
    cases hs
  | recovery hchain hsome hok ih =>
    obtain ⟨rfl, rfl⟩ := List.cons.inj hlinks
    intro s hs
    rw [settledOver, List.flatMap_cons] at hs
    rcases List.mem_append.mp hs with hs | hs
    · obtain ⟨e, -, rfl⟩ := List.mem_map.mp hs
      rw [hsome]
      refine List.mem_cons.mpr (Or.inl ?_)
      exact link_event hamounts (hchain.accepted _ List.mem_cons_self)
    · exact List.mem_cons_of_mem _ (ih rfl s hs)

theorem Chain.once {link : Link} {rest : List Link} (h : Chain env (link :: rest)) :
    ((settledOver env (link :: rest)).map Prod.fst).Nodup := by
  generalize hlinks : link :: rest = links at h
  induction h generalizing link rest with
  | first hnone hok =>
    obtain ⟨rfl, rfl⟩ := List.cons.inj hlinks
    rw [settledOver, List.flatMap_cons, settlements_of_none hnone]
    exact List.nodup_nil
  | recovery hchain hsome hok ih =>
    obtain ⟨rfl, rfl⟩ := List.cons.inj hlinks
    rw [settledOver, List.flatMap_cons, List.map_append]
    refine List.nodup_append'.mpr ⟨settlements_nodup, ih rfl, ?_⟩
    -- the event of the predecessor is none of the older ones
    intro key hnew hold
    obtain ⟨s, hs, rfl⟩ := List.mem_map.mp hnew
    obtain ⟨s', hs', heq⟩ := List.mem_map.mp hold
    obtain ⟨e, -, rfl⟩ := List.mem_map.mp hs
    have hevent := hchain.event_settled hamounts s' hs'
    rw [heq, hsome] at hevent
    have hhead := link_event hamounts (hchain.accepted _ List.mem_cons_self)
    have hfresh := (hchain.fresh hamounts).1
    rw [List.map_cons, List.nodup_cons] at hfresh
    refine hfresh.1 ?_
    show Call.eventId _ ∈ _
    exact hhead ▸ hevent

theorem Chain.accounted {link : Link} {rest : List Link} (h : Chain env (link :: rest)) :
    Accounted env link rest := by
  have hok := h.accepted link List.mem_cons_self
  obtain ⟨hconserved, happroved, hnonneg⟩ := link_conserved hamounts hok
  exact
    { bounds := link_bounds hamounts hok
      ids := fun id hid => link_held_ids hamounts hok hid
      cumulative := fun id => (h.ledgers hamounts id).1
      paid := fun id => (h.ledgers hamounts id).2
      once := h.once hamounts
      verified := fun l hl event id amount =>
        mem_settlements hamounts (h.accepted l hl)
      conserved := hconserved
      approved := happroved
      nonneg := hnonneg
      events := (h.fresh hamounts).1
      sources := (h.fresh hamounts).2 }

/-- **Every link of a recovery chain is accounted, and the exceptions on the ledgers are never
raised.** -/
theorem chain_accounted :
    (∀ links, Chain env links → ∀ link rest, link :: rest <:+ links → Accounted env link rest)
      ∧ ∀ inputs, env.allocate inputs ≠ .error .obligationOvercommitment
        ∧ env.allocate inputs ≠ .error .liabilityConservationFailed :=
  ⟨fun _ h _ _ hsuffix => (h.suffix hsuffix).accounted hamounts,
    fun inputs => ⟨ledger_failures hamounts inputs, ledger_failures hamounts inputs⟩⟩

end

/-! ### one recovery -/

def heir : List Obligation := [⟨"a", plainPayable 3⟩]

def recoveryPolicy : Policy := { plainPolicy with version := 2, parentRoot := some "policy" }

/-- a full payment of what was funded -/
def heirSettlement : SettlementInput where
  payableBefore := (plainEnv.fundedClaim (plainCall heir 1) ⟨"a", plainPayable 3⟩ 1).payable
  backingHash := ""
  paid := 1
  asset := "token"
  fundingSourceRoot := "source"
  evidence := .null

def recoveryCall : Call where
  policy := recoveryPolicy
  authorities := ["authority"]
  obligations := heir
  fundingSource := ⟨"token", "reserve", "second", 2, .null⟩
  fundingTrustPolicy := .null
  available := 2
  previousSettlements := some [("a", heirSettlement)]
  eventId := "second"

def firstInputs (root : String) : Inputs := (plainInputs heir 1).claiming (plainAllocation heir 1 root)

theorem heir_valid : plainEnv.validObligations heir := by decide +kernel

theorem heir_allocated :
    (newLedger plainEnv (plainCall heir 1) none none).allocated.entries = [("a", 1)] := by
  decide +kernel

theorem heirSettlement_matches (root : String) :
    ShortfallEnv.settlementMatches (plainAllocation heir 1 root) ("a", 1) heirSettlement = true := by
  have h : ShortfallEnv.settlementMatches (plainAllocation heir 1 "") ("a", 1) heirSettlement = true := by
    decide +kernel
  exact h

theorem find_heirSettlement : find [("a", heirSettlement)] "a" = some heirSettlement := by
  have hn : ([("a", heirSettlement)].map Prod.fst).Nodup := List.nodup_singleton _
  exact find_of_mem hn List.mem_cons_self

section
variable {root : String}
  (hok : plainEnv.allocate (plainInputs heir 1) = .ok (plainAllocation heir 1 root))
include hok

theorem firstInputs_replayed : replayed (some (plainAllocation heir 1 root))
    (plainEnv.allocate (firstInputs root)) = true := by
  have hties : TiesAgree 1 ((plainCall heir 1).owed none) := by decide +kernel
  obtain ⟨previous, priors, rows, h⟩ := allocates_of_allocate hok
  have hmath := h.math_iff.mpr hties
  rw [← verify_claiming hok] at hmath
  exact hmath

theorem heirSettlement_valid : (plainEnv.verifyFundedSettlements (plainAllocation heir 1 root)
    (plainEnv.allocate (firstInputs root)) [("a", heirSettlement)]).isSome := by
  have hentries : (plainAllocation heir 1 root).allocations.entries = [("a", 1)] := heir_allocated
  have hfunded : ShortfallEnv.funded (plainAllocation heir 1 root) = [("a", 1)] := by
    unfold ShortfallEnv.funded
    rw [hentries]
    rfl
  have hsupplied : ShortfallEnv.suppliedFunded (plainAllocation heir 1 root)
      [("a", heirSettlement)] = [("a", 1)] := by
    unfold ShortfallEnv.suppliedFunded
    rw [hfunded]
    rfl
  have hchecked : ∀ e ∈ ShortfallEnv.suppliedFunded (plainAllocation heir 1 root)
      [("a", heirSettlement)], (plainEnv.checkSettlement (plainAllocation heir 1 root)
        [("a", heirSettlement)] e).isSome := by
    rw [hsupplied]
    intro e he
    obtain rfl := List.mem_singleton.mp he
    unfold ShortfallEnv.checkSettlement
    rw [find_heirSettlement]
    show (if ShortfallEnv.settlementMatches (plainAllocation heir 1 root) ("a", 1) heirSettlement = true
      then some "" else none).isSome = true
    rw [if_pos (heirSettlement_matches root)]
    rfl
  have hroots := Fallible.mapM_isSome.mpr hchecked
  unfold ShortfallEnv.verifyFundedSettlements
  rw [if_pos ⟨firstInputs_replayed hok, nofun, by rw [hfunded]; simp⟩]
  obtain ⟨roots, hroots⟩ := Option.isSome_iff_exists.mp hroots
  rw [hroots]
  rfl

theorem recoveryCall_admitted : Admitted plainEnv recoveryCall (some (plainAllocation heir 1 root))
    (plainEnv.replayPrevious (some (firstInputs root))) [] := by
  have hpolicy : plainEnv.authorizedPolicy recoveryPolicy ["authority"] := by decide
  have hevent : "second" ≠ "" ∧ "second" ≠ "event" ∧ "second" ∉ ["event"] := by decide
  have hsource : "source" ≠ "reserve" ∧ "reserve" ∉ ["source"] := by decide
  rw [ShortfallEnv.replayPrevious]
  exact
    { authorized := hpolicy
      valid := heir_valid
      successor := Or.inr (Option.some_ne_none _)
      reservations := fun p hp => absurd hp List.not_mem_nil
      source := rfl
      unreserved := fun p hp => absurd hp List.not_mem_nil
      input := ⟨zero_le_two, le_refl _, hevent.1, rfl⟩
      recoverable := by
        intro r hr
        obtain rfl := Option.mem_some_iff.mp hr
        exact ⟨rfl, rfl, ⟨_, rfl, rfl, firstInputs_replayed hok⟩,
          Or.inr (heirSettlement_valid hok), rfl, hevent.2.1, hevent.2.2, hsource.1, hsource.2,
          List.Perm.refl _⟩ }

end

/-- what the first link funds is settled in the second, which allocates what is left -/
theorem heir_accounted : ∃ first second, Chain plainEnv [second, first]
    ∧ ((("event", "a"), 1) : (String × String) × ℤ) ∈ second.settlements plainEnv
    ∧ Accounted plainEnv second [first] := by
  obtain ⟨root, hok⟩ := plain_ok heir_valid zero_le_one
  obtain ⟨root', hok'⟩ := allocateWith_eq (recoveryCall_admitted hok)
    (recovered_balanced plainEnv_commitsAmount (recoveryCall_admitted hok)) plainEnv_commitsAmount
  have hsecond : ∃ a, plainEnv.allocate (.mk recoveryCall (some (plainAllocation heir 1 root)) none
      (some (firstInputs root)) []) = .ok a := by
    rw [ShortfallEnv.allocate, ShortfallEnv.replayPriors]
    exact ⟨_, hok'⟩
  obtain ⟨a, hsecond⟩ := hsecond
  have hchain := Chain.recovery (.first rfl hok) rfl hsecond
  refine ⟨_, _, hchain, ?_,
    (chain_accounted plainEnv_commitsAmount).1 _ hchain _ _ (List.suffix_refl _)⟩
  refine (mem_settlements plainEnv_commitsAmount hsecond).mpr ?_
  exact ⟨_, _, heirSettlement, rfl, rfl, rfl, find_heirSettlement, rfl, rfl⟩

end PRF.Economics.Shortfall
