import ProtocolRobustness.Sew.Vindication
import ProtocolRobustness.Sew.SlashRegistry

/-!
# A group is charged once

The slash of a group is executed again until no member is blocked.  Each execution keeps the payments
that are made, and what it records as paid is the amount of the allocation; what it takes is that
amount through a double.

* `chargesOf`              what a member was charged for a slash, one number for each time;
* `ChargedOnce`            no member is charged twice, nor anything but the amount allocated;
* `Allocates`              what the pro-rata package guarantees, and `Allocates.memberRows` what the
  members are allocated then;
* `Event.paidExactly`      the amount is not changed by the double;
* `Turn`                   what one turn of an execution does to a member;
* `GroupKept`              the payments recorded for the slash are the charges made;
* `group_charged_once`     then every run after a proposal charges its members once.
-/

namespace PRF.Sew
open Table Fallible Runs LongArith

/-! ## charges -/

/-- what an event charges a resolver for a slash, the share of a senior included -/
def Event.charge (id : ℕ) (resolver : Address) : Event → Option ℤ
  | .debit _ (some slashId) r _ _ total =>
    if slashId = id ∧ r = resolver ∧ total ≠ 0 then some total else none
  | _ => none

def chargesOf (id : ℕ) (resolver : Address) (events : List Event) : List ℤ :=
  events.filterMap (Event.charge id resolver)

/-- what a run charges the members of a group, from the allocation of the proposal -/
structure ChargedOnce (env : Environment) (id : ℕ) (amount : ℤ) (rows : List (Address × ℤ))
    (w : World) (ops : List Operation) : Prop where
  charged : ∀ row ∈ rows, chargesOf id row.1 (emitted (step env) (World.journal env) w ops) = [] ∨
    chargesOf id row.1 (emitted (step env) (World.journal env) w ops) = [row.2]
  others : ∀ r, r ∉ rows.map Prod.fst →
    chargesOf id r (emitted (step env) (World.journal env) w ops) = []
  total : (rows.map fun row =>
    (chargesOf id row.1 (emitted (step env) (World.journal env) w ops)).sum).sum ≤ amount
  entry : ∃ entry, (run (step env) w ops).getSlash id = some entry ∧
    (∀ row ∈ rows, entry.stayed row.1 = true →
      chargesOf id row.1 (emitted (step env) (World.journal env) w ops) = []) ∧
    (entry.status = .executed ↔
      entry.allocation ≠ [] ∧ ∀ p ∈ entry.allocation, p.execution ≠ .unpaid)

/-- what the pro-rata package guarantees: every row is allocated something, and rows with distinct ids
no more than the amount -/
structure Allocates (allocate : RowAllocator) : Prop where
  row : ∀ {amount : ℤ} {rows : List AllocationRow} {byRowId : Address → Option ℤ}, 0 < amount →
    allocate amount rows = .ok byRowId → ∀ row ∈ rows, ∃ paid, byRowId row.id = some paid ∧ 0 ≤ paid
  bounded : ∀ {amount : ℤ} {rows : List AllocationRow} {byRowId : Address → Option ℤ}, 0 < amount →
    (rows.map AllocationRow.id).Nodup → allocate amount rows = .ok byRowId →
      (rows.map fun row => (byRowId row.id).getD 0).sum ≤ amount

/-- what is to be paid goes through a double unchanged -/
def Event.paidExactly (allocate : GroupAllocator) : Event → Bool
  | .debit .groupExecution slashId resolver before _ _ =>
    (slashId.bind before.getSlash).all fun entry =>
      match allocate entry.amount entry.members with
      | .ok rows => (find rows resolver).all fun paid => throughDouble paid = some paid
      | .error _ => true
  | _ => true

/-- the payments a step makes are exact -/
def PaidExactly (env : Environment) (w : World) (op : Operation) : Prop :=
  ∀ e ∈ w.journal env op, e.paidExactly env.allocate = true

instance (env : Environment) (w : World) (op : Operation) : Decidable (PaidExactly env w op) :=
  inferInstanceAs (Decidable (∀ e ∈ w.journal env op, e.paidExactly env.allocate = true))

section
variable {env : Environment} {hash : Distribution → String} {allocate : GroupAllocator}
  {w w' w₁ : World} {past j j' : List Event} {workflowId id slashId : ℕ} {resolver : Address}
  {entry entry' : SlashEntry} {amount time : ℤ} {members : List Member}
  {row : Address × ℤ} {rows : List (Address × ℤ)}

/-! ## allocations among stakes -/

theorem totalBasis_ok {total : ℤ} (h : totalBasis members = .ok total) :
    total = (members.map fun m => max 0 m.slashableStake).sum := by
  have hfold : ∀ (l : List Member) (a b : ℤ), l.foldlM (fun total m => do
      let basis ← longBasis m.slashableStake
      if Fits (total + basis) then .ok (total + basis) else .error .integerOverflow) a
        = Except.ok (ε := Failure) b → b = a + (l.map fun m => max 0 m.slashableStake).sum := by
    intro l
    induction l with
    | nil =>
      intro a b hok
      rw [← Except.ok.inj hok, List.map_nil, List.sum_nil, add_zero]
    | cons m l ih =>
      intro a b hok
      rw [List.foldlM_cons, bind_eq_ok] at hok
      obtain ⟨c, hc, hrest⟩ := hok
      obtain ⟨basis, hbasis, hsum⟩ := bind_eq_ok.mp hc
      obtain ⟨_, hsum⟩ := require_eq_ok.mp hsum
      obtain ⟨_, hbasis⟩ := require_eq_ok.mp hbasis
      rw [ih c b hrest, ← Except.ok.inj hsum, ← Except.ok.inj hbasis, List.map_cons, List.sum_cons,
        add_assoc]
  rw [hfold members 0 total h, zero_add]

theorem allocation_ok {allocateRows : RowAllocator} (hne : members ≠ [])
    (hstaked : ∀ m ∈ members, 0 < m.slashableStake)
    (h : calculateSewSlashAllocation allocateRows amount members = .ok rows) :
    ∃ byRowId, allocateRows amount (members.map fun m =>
        ⟨m.id, amount, max 0 m.slashableStake, max 0 m.slashableStake⟩) = .ok byRowId ∧
      List.Forall₂ (fun m row => row.1 = m.id ∧ byRowId m.id = some row.2) members rows := by
  obtain ⟨total, htotal, h⟩ := bind_eq_ok.mp h
  have hpos : 0 < total := by
    rw [totalBasis_ok htotal]
    refine List.sum_pos _ (fun x hx => ?_) (by simpa using hne)
    obtain ⟨m, hm, rfl⟩ := List.mem_map.mp hx
    exact (hstaked m hm).trans_le (le_max_right _ _)
  rw [if_neg hpos.ne'] at h
  obtain ⟨byRowId, hrows, h⟩ := bind_eq_ok.mp h
  refine ⟨byRowId, hrows, (mapM_ok_iff.mp h).imp fun m row hrow => ?_⟩
  split at hrow
  · next paid hpaid =>
    rw [← Except.ok.inj hrow]
    exact ⟨rfl, hpaid⟩
  · cases hrow

/-- **What members with stakes are allocated**: each its own, and together no more than the amount. -/
theorem Allocates.memberRows {allocateRows : RowAllocator} (ha : Allocates allocateRows)
    (hpos : 0 < amount) (hne : members ≠ []) (hstaked : ∀ m ∈ members, 0 < m.slashableStake)
    (hnodup : (members.map Member.id).Nodup)
    (h : calculateSewSlashAllocation allocateRows amount members = .ok rows) :
    rows.map Prod.fst = members.map Member.id ∧ (∀ row ∈ rows, 0 ≤ row.2) ∧
      (rows.map Prod.snd).sum ≤ amount := by
  obtain ⟨byRowId, hrows, hall⟩ := allocation_ok hne hstaked h
  have hids : rows.map Prod.fst = members.map Member.id := by
    refine List.forall₂_eq_eq_eq ▸ List.forall₂_map_left_iff.mpr (List.forall₂_map_right_iff.mpr ?_)
    exact hall.flip.imp fun _ _ hrow => hrow.1
  have hpaid : rows.map Prod.snd = members.map fun m => (byRowId m.id).getD 0 := by
    refine List.forall₂_eq_eq_eq ▸ List.forall₂_map_left_iff.mpr (List.forall₂_map_right_iff.mpr ?_)
    exact hall.flip.imp fun _ _ hrow => by rw [hrow.2, Option.getD_some]
  refine ⟨hids, fun row hrow => ?_, ?_⟩
  · obtain ⟨m, hm, -, hbyRowId⟩ := exists_of_mem_right hall hrow
    obtain ⟨paid, hpaid, hnonneg⟩ := ha.row hpos hrows _ (List.mem_map_of_mem hm)
    rw [hbyRowId] at hpaid
    exact Option.some.inj hpaid ▸ hnonneg
  · have hbounded := ha.bounded hpos (by rwa [List.map_map]) hrows
    rw [List.map_map] at hbounded
    rw [hpaid]
    exact hbounded

theorem chargesOf_append (id : ℕ) (resolver : Address) (j j' : List Event) :
    chargesOf id resolver (j ++ j') = chargesOf id resolver j ++ chargesOf id resolver j' :=
  List.filterMap_append

theorem Event.charge_of_about {e : Event} (h : e.about id = false) (resolver : Address) :
    e.charge id resolver = none := by
  unfold Event.charge
  split
  · next slashId _ _ _ _ =>
    have hne : slashId ≠ id := by simpa [Event.about] using h
    exact if_neg fun hboth => hne hboth.1
  · rfl

theorem Untouched.chargesOf (h : Untouched id j) (resolver : Address) :
    PRF.Sew.chargesOf id resolver j = [] :=
  List.filterMap_eq_nil_iff.mpr fun e he => Event.charge_of_about (h e he) resolver

theorem chargesOf_debits_other {cause : Cause} {slash : Option ℕ} {other : Address}
    (hother : other ≠ resolver) :
    chargesOf id resolver (w.debits w' cause slash (some other)) = [] := by
  refine List.filterMap_eq_nil_iff.mpr fun e he => ?_
  obtain ⟨r, hr, rfl⟩ := mem_debits he
  obtain rfl := Option.some.inj hr
  cases slash with
  | none => rfl
  | some slashId => exact if_neg fun hboth => hother hboth.2.1

/-! ## one execution -/

/-- what a turn makes of the payment of a row, with what it charges -/
inductive Turn (entry : SlashEntry) (row : Address × ℤ) : Payment → List ℤ → Prop
  | carried {p : Payment} (hsettled : entry.settled row.1 = some p) : Turn entry row p []
  | stayed (hsettled : entry.settled row.1 = none) (hstayed : entry.stayed row.1 = true) :
    Turn entry row (payment row 0 .stayed) []
  | unpaid (hsettled : entry.settled row.1 = none) (hstayed : entry.stayed row.1 = false) :
    Turn entry row (payment row 0 .unpaid) []
  | paid {c : List ℤ} (hsettled : entry.settled row.1 = none)
    (hstayed : entry.stayed row.1 = false) (hcharged : c = [] ∨ row.2 ≠ 0 ∧ c = [row.2]) :
    Turn entry row (payment row row.2 .paid) c

theorem settled_eq_some {p : Payment} (h : entry.settled resolver = some p) :
    p.id = resolver ∧ p ∈ entry.allocation ∧ p.execution = .paid ∧ 0 < p.actualPaid := by
  obtain ⟨hprior, hpaid⟩ := Option.filter_eq_some_iff.mp h
  obtain ⟨hmem, hid⟩ := List.mem_filter.mp (List.mem_of_getLast? hprior)
  simp only [Bool.and_eq_true, decide_eq_true_eq] at hpaid hid
  exact ⟨hid, hmem, hpaid⟩

theorem Turn.keeps {p : Payment} {c : List ℤ} (h : Turn entry row p c) : p.id = row.1 := by
  cases h with
  | carried hsettled => exact (settled_eq_some hsettled).1
  | stayed | unpaid | paid => rfl

theorem priorPayment_of_mem {p : Payment} (hnodup : (entry.allocation.map Payment.id).Nodup)
    (hp : p ∈ entry.allocation) : World.priorPayment entry p.id = some p := by
  unfold World.priorPayment
  generalize entry.allocation = l at hnodup hp
  induction l with
  | nil => cases hp
  | cons q l ih =>
    rw [List.map_cons, List.nodup_cons] at hnodup
    rcases List.mem_cons.mp hp with rfl | hp
    · have hrest : l.filter (fun q => decide (q.id = p.id)) = [] := by
        refine List.filter_eq_nil_iff.mpr fun q hq heq => hnodup.1 ?_
        exact List.mem_map.mpr ⟨q, hq, of_decide_eq_true heq⟩
      rw [List.filter_cons_of_pos (by simp), hrest]
      rfl
    · have hne : q.id ≠ p.id := fun heq => hnodup.1 (List.mem_map.mpr ⟨p, hp, heq.symm⟩)
      rw [List.filter_cons_of_neg (by simpa using hne)]
      exact ih hnodup.2 hp

variable {acc acc' : World.GroupExecution} {allocations : List (Address × ℤ)}

theorem turn_of_payMember (hfound : acc.world.getSlash slashId = some entry)
    (hallocated : allocate entry.amount entry.members = .ok allocations)
    (hrow : find allocations row.1 = some row.2) (hnonneg : 0 ≤ row.2)
    (hexact : ∀ e ∈ acc.world.debits acc'.world .groupExecution (some slashId) (some row.1),
      e.paidExactly allocate = true)
    (hok : World.payMember hash workflowId entry time acc row = .ok acc') :
    ∃ p, acc'.payments = acc.payments ++ [p] ∧
      acc'.blocked = (acc.blocked || decide (p.execution = .unpaid)) ∧
      Turn entry row p (chargesOf slashId row.1
        (acc.world.debits acc'.world .groupExecution (some slashId) (some row.1))) := by
  have hquiet : acc'.world = acc.world → chargesOf slashId row.1
      (acc.world.debits acc'.world .groupExecution (some slashId) (some row.1)) = [] := by
    intro hworld
    rw [hworld, debits_same rfl]
    rfl
  rcases payMember_ok hok with ⟨prior, hsettled, rfl⟩ | ⟨hsettled, hstayed, rfl⟩ |
    ⟨hsettled, hstayed, rfl⟩ | ⟨w₁, slashed, hsettled, hstayed, hstake, _, h₁, rfl⟩
  · refine ⟨prior, rfl, ?_, ?_⟩
    · rw [(settled_eq_some hsettled).2.2.1]
      simp
    · rw [hquiet rfl]
      exact .carried hsettled
  · refine ⟨_, rfl, (Bool.or_false _).symm, ?_⟩
    rw [hquiet rfl]
    exact .stayed hsettled hstayed
  · refine ⟨_, rfl, (Bool.or_true _).symm, ?_⟩
    rw [hquiet rfl]
    exact .unpaid hsettled hstayed
  · refine ⟨_, rfl, (Bool.or_false _).symm, .paid hsettled hstayed ?_⟩
    unfold World.debits at hexact ⊢
    dsimp only at hexact ⊢
    split at hexact
    · next hsame =>
      rw [if_pos hsame]
      exact Or.inl rfl
    · next hchanged =>
      rw [if_neg hchanged]
      have hpaid := hexact _ (List.mem_singleton_self _)
      unfold Event.paidExactly World.debit at hpaid
      dsimp only at hpaid
      rw [Option.bind_some, hfound, Option.all_some, hallocated] at hpaid
      simp only [hrow, Option.all_some, decide_eq_true_eq] at hpaid
      have hthrough := slashableAmount_of_le hnonneg hstake (slashResolverStake_ok h₁).1
      have htotal : slashed.total = row.2 := Option.some.inj (hthrough.symm.trans hpaid)
      have hcharge := (slashResolverStake_debit h₁ rfl).2
      rw [htotal] at hcharge
      by_cases hzero : row.2 = 0
      · refine Or.inl (List.filterMap_eq_nil_iff.mpr fun e he => ?_)
        rw [List.mem_singleton.mp he]
        exact if_neg fun hboth => hboth.2.2 (hcharge.trans hzero)
      · refine Or.inr ⟨hzero, ?_⟩
        have hone : Event.charge slashId row.1 (acc.world.debit
            ((w₁.freeze row.1 time).setEpoch row.1 (acc.world.resolverEpochState row.1).1
              (w₁.resolvers.epochSlashed row.1 + row.2)) .groupExecution (some slashId) row.1)
            = some row.2 := by
          refine (if_pos ⟨rfl, rfl, ?_⟩).trans (congrArg some hcharge)
          exact hcharge.trans_ne hzero
        rw [chargesOf, List.filterMap_cons, hone]
        rfl

/-- the payments of some rows charge nobody else -/
theorem chargesOf_payTurns_other (hother : resolver ∉ rows.map Prod.fst) :
    chargesOf id resolver (World.payTurns hash workflowId slashId entry time rows acc) = [] := by
  induction rows generalizing acc with
  | nil => rfl
  | cons row rows ih =>
    rw [List.map_cons, List.mem_cons, not_or] at hother
    rw [World.payTurns]
    split
    · rfl
    · rw [chargesOf_append, chargesOf_debits_other (Ne.symm hother.1), ih hother.2]
      rfl

/-- **One execution**: each member has its turn, and is charged in no other. -/
theorem turns_of_payments (hnodup : (rows.map Prod.fst).Nodup)
    (hfound : acc.world.getSlash slashId = some entry)
    (hallocated : allocate entry.amount entry.members = .ok allocations)
    (hrows : ∀ row ∈ rows, find allocations row.1 = some row.2 ∧ 0 ≤ row.2)
    (hexact : ∀ e ∈ World.payTurns hash workflowId slashId entry time rows acc,
      e.paidExactly allocate = true)
    (hok : rows.foldlM (World.payMember hash workflowId entry time) acc = .ok acc') :
    ∃ ps, acc'.payments = acc.payments ++ ps ∧ ps.map Payment.id = rows.map Prod.fst ∧
      acc'.blocked = (acc.blocked || ps.any fun p => p.execution = .unpaid) ∧
      ∀ row ∈ rows, ∃ p ∈ ps, Turn entry row p
        (chargesOf slashId row.1 (World.payTurns hash workflowId slashId entry time rows acc)) := by
  induction rows generalizing acc with
  | nil =>
    rw [← Except.ok.inj hok]
    exact ⟨[], (List.append_nil _).symm, rfl, (Bool.or_false _).symm, nofun⟩
  | cons row rows ih =>
    rw [List.foldlM_cons, bind_eq_ok] at hok
    obtain ⟨acc₁, h₁, hrest⟩ := hok
    rw [List.map_cons, List.nodup_cons] at hnodup
    obtain ⟨⟨hrow, hnonneg⟩, hrows⟩ := List.forall_mem_cons.mp hrows
    have hfound₁ : acc₁.world.getSlash slashId = some entry := by
      unfold World.getSlash
      rw [(docket_eq.mp (payMember_docket h₁)).2.2.2.2.1]
      exact hfound
    rw [World.payTurns, h₁] at hexact ⊢
    dsimp only at hexact ⊢
    obtain ⟨p, hp, hblocked, hturn⟩ := turn_of_payMember hfound hallocated hrow hnonneg
      (fun e he => hexact e (List.mem_append_left _ he)) h₁
    obtain ⟨ps, hps, hids, hblocked', hturns⟩ := ih hnodup.2 hfound₁ hrows
      (fun e he => hexact e (List.mem_append_right _ he)) hrest
    refine ⟨p :: ps, ?_, ?_, ?_, fun row' hrow' => ?_⟩
    · rw [hps, hp, List.append_assoc]
      rfl
    · rw [List.map_cons, List.map_cons, hids, hturn.keeps]
    · rw [hblocked', hblocked, List.any_cons, Bool.or_assoc]
    · rw [chargesOf_append]
      rcases List.mem_cons.mp hrow' with rfl | hrow'
      · rw [chargesOf_payTurns_other hnodup.1, List.append_nil]
        exact ⟨p, List.mem_cons_self, hturn⟩
      · have hne : row.1 ≠ row'.1 := by
          intro heq
          exact hnodup.1 (heq ▸ List.mem_map_of_mem hrow')
        obtain ⟨p', hp', hturn'⟩ := hturns row' hrow'
        rw [chargesOf_debits_other hne, List.nil_append]
        exact ⟨p', List.mem_cons_of_mem _ hp', hturn'⟩

theorem payments_blockTs (hok : rows.foldlM (World.payMember hash workflowId entry time) acc = .ok acc') :
    acc'.world.blockTs = acc.world.blockTs :=
  foldlM_invariant (I := fun a => a.world.blockTs = acc.world.blockTs)
    (fun _ _ _ _ ha hok => (docket_eq.mp (payMember_docket hok)).1.trans ha) rfl hok

/-! ## what happens to other slashes -/

/-- the entry of a slash is left alone, and the clock does not go back -/
structure Spares (id : ℕ) (w w' : World) : Prop where
  get : w'.getSlash id = w.getSlash id
  archived : find w.slashes.history id = none → find w'.slashes.history id = none
  time : w.blockTs ≤ w'.blockTs

namespace Spares

theorem trans (h₁ : Spares id w w₁) (h₂ : Spares id w₁ w') : Spares id w w' where
  get := h₂.get.trans h₁.get
  archived h := h₂.archived (h₁.archived h)
  time := h₁.time.trans h₂.time

theorem of_slashes (hslashes : w'.slashes = w.slashes) (htime : w.blockTs ≤ w'.blockTs) :
    Spares id w w' where
  get := by
    unfold World.getSlash
    rw [hslashes]
  archived h := by rw [hslashes, h]
  time := htime

/-- another entry of the registry is written -/
theorem write (hid : slashId ≠ id) (entry' : SlashEntry)
    (hpending : w'.slashes.pending = put w.slashes.pending slashId entry')
    (hhistory : w'.slashes.history = w.slashes.history) (hdesk : w'.desk = w.desk) :
    Spares id w w' where
  get := (getSlash_put hpending id).trans (if_neg hid)
  archived h := by rw [hhistory, h]
  time := (desk_eq.mp hdesk).1.ge

/-- an entry enters the registry, under an id that is not there -/
theorem insert (hfound : w.getSlash id = some entry) (hok : w.insertSlash entry' = .ok w') :
    Spares id w w' := by
  obtain ⟨_, _, hnew, _, rfl⟩ := insertSlash_ok.mp hok
  refine write ?_ entry' rfl rfl rfl
  intro hid
  rw [hid, hfound] at hnew
  cases hnew

theorem updateSlash (hid : slashId ≠ id) (w : World) (f : SlashEntry → SlashEntry) :
    Spares id w (w.updateSlash slashId f) := by
  rcases updateSlash_cases w slashId f with ⟨e, _, hw'⟩ | ⟨e, he, hw'⟩ | ⟨_, _, hw'⟩
  · rw [hw']
    exact write hid (f e) rfl rfl rfl
  · rw [hw']
    refine ⟨rfl, fun h => ?_, le_rfl⟩
    show find (put w.slashes.history slashId (f e)) id = none
    rw [find_put, if_neg hid, h]
  · rw [hw']
    exact of_slashes rfl le_rfl

theorem vindicateSlash (hid : slashId ≠ id)
    (hok : w.vindicateSlash slashId entry = .ok w') : Spares id w w' := by
  refine vindicateSlash_rule (P := Spares id w) hok ?_ ?_ ?_ (of_slashes rfl le_rfl)
  · exact fun _ _ _ h₁ => h₁.trans (of_slashes rfl le_rfl)
  · intro w₁ w₂ _ _ _ _ hreturned h₁
    obtain ⟨hts, _, _, hslashes⟩ := penal_eq.mp (returnSlashAppealBond_slashes hreturned)
    have hspared := h₁.trans (of_slashes hslashes hts.ge)
    exact ⟨hspared.get, hspared.archived, hspared.time⟩
  · exact fun w₁ f _ h₁ => h₁.trans (updateSlash hid _ _)

theorem archiveSlash (hid : slashId ≠ id) (w : World) (slash : SlashEntry) :
    Spares id w (w.archiveSlash slashId slash) where
  get := by
    have hfilter := find_filter (fun k => decide (k ≠ slashId)) w.slashes.pending id
    refine hfilter.trans (if_pos ?_)
    exact decide_eq_true (Ne.symm hid)
  archived h := by
    show find (put w.slashes.history slashId slash) id = none
    rw [find_put, if_neg hid, h]
  time := le_rfl

end Spares

/-! ## the payments recorded for the slash of a group -/

/-- the payments recorded for the slash of a group are the charges made -/
structure GroupKept (id : ℕ) (amount : ℤ) (members : List Member) (rows : List (Address × ℤ))
    (past : List Event) (w : World) (entry : SlashEntry) : Prop where
  found : w.getSlash id = some entry
  unarchived : find w.slashes.history id = none
  kind : entry.kind = .fraudGroup
  nobody : entry.resolver = none
  amount : entry.amount = amount
  members : entry.members = members
  /-- after the first execution no appeal is open, nor can be -/
  begun : entry.allocation ≠ [] → entry.appealDeadline < w.blockTs ∧
    ∀ row ∈ rows, ∀ a ∈ find entry.appeals row.1, a.status ≠ .appealed
  unsettled : ∀ row ∈ rows, entry.settled row.1 = none → chargesOf id row.1 past = []
  charged : ∀ row ∈ rows, chargesOf id row.1 past = [] ∨ chargesOf id row.1 past = [row.2]
  stayed : ∀ row ∈ rows, entry.stayed row.1 = true → chargesOf id row.1 past = []
  others : ∀ r, r ∉ rows.map Prod.fst → chargesOf id r past = []
  executed : entry.status = .executed ↔
    entry.allocation ≠ [] ∧ ∀ p ∈ entry.allocation, p.execution ≠ .unpaid

namespace GroupKept

/-- the slash is spared, and not charged -/
theorem frame (h : GroupKept id amount members rows past w entry) (hspared : Spares id w w')
    (hj : Untouched id j) : GroupKept id amount members rows (past ++ j) w' entry := by
  have hcharges : ∀ r, chargesOf id r (past ++ j) = chargesOf id r past := by
    intro r
    rw [chargesOf_append, hj.chargesOf, List.append_nil]
  refine ⟨hspared.get.trans h.found, hspared.archived h.unarchived, h.kind, h.nobody, h.amount,
    h.members, fun hbegun => ?_, fun row hrow => ?_, fun row hrow => ?_, fun row hrow => ?_,
    fun r hr => ?_, h.executed⟩
  · exact ⟨(h.begun hbegun).1.trans_le hspared.time, (h.begun hbegun).2⟩
  · rw [hcharges]
    exact h.unsettled row hrow
  · rw [hcharges]
    exact h.charged row hrow
  · rw [hcharges]
    exact h.stayed row hrow
  · rw [hcharges]
    exact h.others r hr

theorem other (h : GroupKept id amount members rows past w entry)
    (hfound : w.getSlash slashId = some entry') (hkind : entry'.kind ≠ .fraudGroup) :
    slashId ≠ id := by
  intro hid
  rw [hid, h.found] at hfound
  exact hkind (Option.some.inj hfound ▸ h.kind)

/-- the appeal of a member is written -/
theorem appeal (h : GroupKept id amount members rows past w entry) {member : Address}
    {appeal : MemberAppeal}
    (hpending : w'.slashes.pending = put w.slashes.pending id (entry.withAppeal member appeal))
    (hhistory : w'.slashes.history = w.slashes.history) (hdesk : w'.desk = w.desk)
    (hbegun : entry.allocation ≠ [] → (∃ row ∈ rows, row.1 = member) → appeal.status ≠ .appealed)
    (hstayed : appeal.status = .upheld → ∀ row ∈ rows, row.1 = member →
      chargesOf id row.1 past = []) :
    GroupKept id amount members rows (past ++ []) w' (entry.withAppeal member appeal) := by
  have happeals : ∀ r, find (entry.withAppeal member appeal).appeals r
      = if member = r then some appeal else find entry.appeals r :=
    fun r => find_put entry.appeals member r appeal
  rw [List.append_nil]
  refine ⟨(getSlash_put hpending id).trans (if_pos rfl), by rw [hhistory, h.unarchived], h.kind,
    h.nobody, h.amount, h.members, fun hpaid => ?_, h.unsettled, h.charged, fun row hrow hstay => ?_,
    h.others, h.executed⟩
  · obtain ⟨hexpired, hresolved⟩ := h.begun hpaid
    refine ⟨hexpired.trans_eq (desk_eq.mp hdesk).1.symm, fun row hrow a ha => ?_⟩
    rw [happeals] at ha
    split at ha
    · next hmember =>
      rw [← Option.some.inj ha]
      exact hbegun hpaid ⟨row, hrow, hmember.symm⟩
    · exact hresolved row hrow a ha
  · unfold SlashEntry.stayed at hstay
    rw [happeals] at hstay
    split at hstay
    · next hmember => exact hstayed (of_decide_eq_true hstay) row hrow hmember.symm
    · exact h.stayed row hrow hstay

/-- an execution of the slash makes the payments it records -/
theorem execution (h : GroupKept id amount members rows past w entry)
    (hnodup : (rows.map Prod.fst).Nodup) (hrows : rows ≠ [])
    (hmembers : rows.map Prod.fst = members.map Member.id) (hnonneg : ∀ row ∈ rows, 0 ≤ row.2)
    {done : World.GroupExecution}
    (hexecuted : GroupExecuted env.allocate env.hash w workflowId id entry rows done)
    (hexact : ∀ e ∈ World.payTurns env.hash workflowId id entry w.freezeUntil rows { world := w },
      e.paidExactly env.allocate = true) :
    GroupKept id amount members rows
      (past ++ World.payTurns env.hash workflowId id entry w.freezeUntil rows { world := w })
      (done.world.putSlash id (entry.groupExecuted done.payments done.blocked))
      (entry.groupExecuted done.payments done.blocked) := by
  have hslashes : done.world.slashes = w.slashes := payMember_slashes hexecuted.paid
  have hts : done.world.blockTs = w.blockTs := payments_blockTs hexecuted.paid
  have hfound : ({ world := w } : World.GroupExecution).world.getSlash id = some entry :=
    hexecuted.found
  obtain ⟨ps, hps, hids, hblocked, hturns⟩ := turns_of_payments hnodup hfound hexecuted.allocated
    (fun row hrow => ⟨find_of_mem hnodup hrow, hnonneg row hrow⟩) hexact hexecuted.paid
  rw [List.nil_append] at hps
  rw [Bool.false_or] at hblocked
  rw [hps, hblocked]
  have hprior : ∀ p ∈ ps, World.priorPayment
      (entry.groupExecuted ps (ps.any fun p => p.execution = .unpaid)) p.id = some p := fun p hp =>
    priorPayment_of_mem (hids ▸ hnodup) hp
  have hturn : ∀ row ∈ rows, ∃ p c, Turn entry row p c ∧
      (entry.groupExecuted ps (ps.any fun p => p.execution = .unpaid)).settled row.1
        = (some p).filter (fun p => p.execution = .paid && 0 < p.actualPaid) ∧
      chargesOf id row.1 (past ++ World.payTurns env.hash workflowId id entry w.freezeUntil rows
        { world := w }) = chargesOf id row.1 past ++ c := by
    intro row hrow
    obtain ⟨p, hp, hturn⟩ := hturns row hrow
    refine ⟨p, _, hturn, ?_, chargesOf_append _ _ _ _⟩
    rw [SlashEntry.settled, ← hturn.keeps, hprior p hp]
  have hne : ps ≠ [] := by
    intro hnil
    rw [hnil, List.map_nil, eq_comm, List.map_eq_nil_iff] at hids
    exact hrows hids
  refine ⟨?_, ?_, h.kind, h.nobody, h.amount, h.members, fun _ => ⟨?_, fun row hrow a ha => ?_⟩,
    fun row hrow hsettled => ?_, fun row hrow => ?_, fun row hrow hstayed => ?_, fun r hr => ?_, ?_⟩
  · exact (find_put _ _ _ _).trans (if_pos rfl)
  · show find done.world.slashes.history id = none
    rw [hslashes, h.unarchived]
  · exact hexecuted.expired.trans_eq hts.symm
  · obtain ⟨m, hm, hrow⟩ := List.mem_map.mp (hmembers ▸ List.mem_map_of_mem hrow)
    exact hexecuted.resolved m (h.members ▸ hm) a (hrow ▸ ha)
  · -- what is not settled now was not before, and is not paid by its turn
    obtain ⟨p, c, hturn, hnow, hcharges⟩ := hturn row hrow
    rw [hcharges]
    rw [hnow] at hsettled
    cases hturn with
    | carried hbefore =>
      obtain ⟨_, _, hpaid, hpos⟩ := settled_eq_some hbefore
      simp [hpaid, hpos.not_ge] at hsettled
    | stayed hbefore | unpaid hbefore => rw [h.unsettled row hrow hbefore, List.append_nil]
    | paid hbefore _ hcharged =>
      rw [h.unsettled row hrow hbefore, List.nil_append]
      rcases hcharged with hnone | ⟨hnonzero, _⟩
      · exact hnone
      · have hpos : 0 < row.2 := (hnonneg row hrow).lt_of_ne' hnonzero
        simp [payment, hpos.not_ge] at hsettled
  · obtain ⟨p, c, hturn, _, hcharges⟩ := hturn row hrow
    rw [hcharges]
    cases hturn with
    | carried | stayed | unpaid =>
      rw [List.append_nil]
      exact h.charged row hrow
    | paid hbefore _ hcharged =>
      rw [h.unsettled row hrow hbefore, List.nil_append]
      exact hcharged.imp_right And.right
  · obtain ⟨p, c, hturn, _, hcharges⟩ := hturn row hrow
    have hstayed' : entry.stayed row.1 = true := hstayed
    rw [hcharges, h.stayed row hrow hstayed', List.nil_append]
    cases hturn with
    | carried | stayed | unpaid => rfl
    | paid _ hunstayed _ =>
      rw [hstayed'] at hunstayed
      cases hunstayed
  · rw [chargesOf_append, h.others r hr, chargesOf_payTurns_other hr]
    rfl
  · show (if (ps.any fun p => p.execution = .unpaid) = true then SlashStatus.pending else .executed)
      = .executed ↔ ps ≠ [] ∧ ∀ p ∈ ps, p.execution ≠ .unpaid
    by_cases hany : (ps.any fun p => p.execution = .unpaid) = true
    · obtain ⟨p, hp, hunpaid⟩ := List.any_eq_true.mp hany
      rw [if_pos hany]
      exact ⟨nofun, fun hall => absurd (of_decide_eq_true hunpaid) (hall.2 p hp)⟩
    · rw [if_neg hany]
      refine ⟨fun _ => ⟨hne, fun p hp hunpaid => hany ?_⟩, fun _ => rfl⟩
      exact List.any_eq_true.mpr ⟨p, hp, decide_eq_true hunpaid⟩

end GroupKept

/-- **The payments recorded for a group stay the charges made**, whatever happens to slashes. -/
theorem groupKept_judged (env : Environment) (hnodup : (rows.map Prod.fst).Nodup) (hrows : rows ≠ [])
    (hmembers : rows.map Prod.fst = members.map Member.id) (hnonneg : ∀ row ∈ rows, 0 ≤ row.2)
    (hallocated : env.allocate amount members = .ok rows) :
    Judged env fun w j w' => ∀ past entry, GroupKept id amount members rows past w entry →
      (∀ e ∈ j, e.paidExactly env.allocate = true) →
      ∃ entry', GroupKept id amount members rows (past ++ j) w' entry' where
  refl w past entry h _ := ⟨entry, by rw [List.append_nil]; exact h⟩
  trans h₁ h₂ past entry h hexact := by
    obtain ⟨entry₁, hkept₁⟩ := h₁ past entry h fun e he => hexact e (List.mem_append_left _ he)
    obtain ⟨entry₂, hkept₂⟩ := h₂ _ entry₁ hkept₁ fun e he => hexact e (List.mem_append_right _ he)
    rw [← List.append_assoc]
    exact ⟨entry₂, hkept₂⟩
  silent hpenal past entry h _ := by
    obtain ⟨hts, _, _, hslashes⟩ := penal_eq.mp hpenal
    exact ⟨entry, h.frame (.of_slashes hslashes hts.ge) fun e he => nomatch he⟩
  reversal {w w' workflowId isRelease} _ hok past entry h _ := by
    have hts := (desk_eq.mp (handleReversalSlashing_desk hok)).1
    refine ⟨entry, ?_⟩
    unfold World.reversalJournal
    rw [hok, World.eventsOf_ok]
    rcases handleReversalSlashing_ok hok with rfl | ⟨_, _, _, reversal, _, _, _, _, _, hreversal, hcase⟩
    · rw [debits_same rfl]
      exact h.frame (.of_slashes rfl le_rfl) fun e he => nomatch he
    · have hid : reversal.slashId = w.slashes.nextSlashId := by
        rw [hreversal]
        rfl
      have hnew : w.slashes.nextSlashId ≠ id := by
        intro heq
        have hnone : w.getSlash reversal.slashId = none := by
          rcases hcase with ⟨_, hinsert⟩ | ⟨w₁, slashed, _, h₁, hinsert⟩
          · exact (insertSlash_ok.mp hinsert).2.2.1
          · have hslashes := (docket_eq.mp (slashResolverStake_ok h₁).2.2.2.1).2.2.2.2.1
            have hnone := (insertSlash_ok.mp hinsert).2.2.1
            unfold World.getSlash at hnone ⊢
            rw [hslashes] at hnone
            exact hnone
        rw [hid, heq, h.found] at hnone
        cases hnone
      refine h.frame ?_ (debits_about (Ne.symm hnew))
      rcases hcase with ⟨_, hinsert⟩ | ⟨w₁, slashed, _, h₁, hinsert⟩
      · exact .insert h.found hinsert
      · obtain ⟨hts, _, _, _, hslashes, _⟩ := docket_eq.mp (slashResolverStake_ok h₁).2.2.2.1
        have hspared : Spares id w w₁ := .of_slashes hslashes hts.ge
        exact hspared.trans (.insert (hspared.get.trans h.found) hinsert)
  vindicated {w w' workflowId level slashId isRelease vindicated} _ hsome hok past entry h _ := by
    obtain ⟨hreversible, hwhere⟩ := vindicatedEntry_cases (vindicatedSlash_entry hsome)
    have hreversal : vindicated.ofReversal = true := by
      unfold SlashEntry.reversible at hreversible
      exact (Bool.and_eq_true_iff.mp hreversible).1
    have hid : slashId ≠ id := by
      rcases hwhere with hfound | hfound
      · exact h.other hfound fun hkind => not_ofReversal_of_group hkind hreversal
      · intro hid
        rw [hid, h.unarchived] at hfound
        cases hfound
    refine ⟨entry, h.frame (.vindicateSlash hid hok) fun e he => ?_⟩
    unfold World.credits at he
    split at he
    · cases he
    · split at he
      · cases he
      · rw [List.mem_singleton.mp he]
        exact decide_eq_false hid
  cleanedUp {w w' workflowId slashId slash} _ hfound hexpired hok past entry h _ := by
    have hkind : slash.kind = .reversal := by
      unfold World.expiredReversal at hexpired
      simp only [Bool.and_eq_true, decide_eq_true_eq] at hexpired
      exact hexpired.1.2
    have hid : slashId ≠ id := h.other hfound (by rw [hkind]; nofun)
    refine ⟨entry, h.frame ?_ (debits_about (Ne.symm hid))⟩
    rcases cleanupSlash_ok hok with ⟨_, w₁, _, _, _, _, h₁, rfl⟩ | ⟨_, rfl⟩
    · obtain ⟨hts, _, _, _, hslashes, _⟩ := docket_eq.mp (slashResolverStake_ok h₁).2.2.2.1
      have hspared : Spares id w w₁ := .of_slashes hslashes hts.ge
      exact hspared.trans (.archiveSlash hid w₁ _)
    · exact .archiveSlash hid _ _
  timedOut {w w' workflowId resolver amount} _ hok past entry h _ := by
    obtain ⟨hts, _, _, _, hslashes, _⟩ := docket_eq.mp (slashOnTimeout_docket hok)
    refine ⟨entry, h.frame (.of_slashes hslashes hts.ge) fun e he => ?_⟩
    obtain ⟨_, _, rfl⟩ := mem_debits he
    rfl
  proposed _ hok past entry h _ :=
    ⟨entry, h.frame (.insert h.found (proposeFraudSlash_ok hok).2.2) fun e he => nomatch he⟩
  groupProposed _ hok past entry h _ :=
    ⟨entry, h.frame (.insert h.found (proposeFraudGroupSlash_ok hok).2.2.2.2) fun e he => nomatch he⟩
  appealed {w w' workflowId slashId caller} _ hok past entry h _ := by
    have hdesk := appealSlash_desk hok
    obtain ⟨appealed, hfound, _, _, hresolver, _⟩ := appealSlash_ok hok
    have hid : slashId ≠ id := by
      intro hid
      rw [hid, h.found] at hfound
      rw [← Option.some.inj hfound, h.nobody] at hresolver
      cases hresolver
    have hwritten := rewritten_appealSlash hfound hok
    exact ⟨entry, h.frame (.write hid _ hwritten.pending hwritten.history hdesk) fun e he =>
      nomatch he⟩
  resolved {w w' workflowId slashId caller upheld provenance} _ hok past entry h _ := by
    have hdesk := resolveAppeal_desk hok
    obtain ⟨resolved, hfound, _, hkind, _⟩ := resolveAppeal_ok hok
    have hid := h.other hfound hkind
    have hwritten := rewritten_resolveAppeal hfound hok
    exact ⟨entry, h.frame (.write hid _ hwritten.pending hwritten.history hdesk) fun e he =>
      nomatch he⟩
  memberAppealed {w w' workflowId slashId caller} _ hok past entry h _ := by
    have hdesk := appealFraudGroupSlash_desk hok
    obtain ⟨appealed, _, hfound, _, _, _, htime, _⟩ := appealFraudGroupSlash_ok hok
    obtain ⟨_, hpending, hhistory, _⟩ := rewritten_memberAppeal hfound hok
    by_cases hid : slashId = id
    · rw [hid, h.found] at hfound
      obtain rfl := Option.some.inj hfound
      rw [hid] at hpending
      refine ⟨_, h.appeal hpending hhistory hdesk (fun hbegun => ?_) nofun⟩
      exact absurd (h.begun hbegun).1 htime.not_gt
    · exact ⟨entry, h.frame (.write hid _ hpending hhistory hdesk) fun e he => nomatch he⟩
  memberResolved {w w' workflowId slashId caller member upheld provenance} _ hok past entry h _ := by
    have hdesk := resolveFraudGroupAppeal_desk hok
    obtain ⟨resolved, _, hfound, _⟩ := resolveFraudGroupAppeal_ok hok
    obtain ⟨appeal, happeal, hstatus, hpending, hhistory, _⟩ :=
      rewritten_memberResolution hfound hok
    by_cases hid : slashId = id
    · rw [hid, h.found] at hfound
      obtain rfl := Option.some.inj hfound
      rw [hid] at hpending
      refine ⟨_, h.appeal hpending hhistory hdesk (fun _ _ => ?_) fun _ row hrow hmember => ?_⟩
      · cases upheld <;> nofun
      · -- an appeal that is open means that nothing was executed
        refine h.unsettled row hrow ?_
        by_contra hsettled
        obtain ⟨p, hp⟩ := Option.ne_none_iff_exists'.mp hsettled
        have hbegun : entry.allocation ≠ [] := List.ne_nil_of_mem (settled_eq_some hp).2.1
        exact (h.begun hbegun).2 row hrow appeal (hmember ▸ happeal) hstatus
    · exact ⟨entry, h.frame (.write hid _ hpending hhistory hdesk) fun e he => nomatch he⟩
  executed {w w₁ workflowId slashId executed resolver slashed} _ hexecuted past entry h _ := by
    have hid := h.other hexecuted.found hexecuted.kind
    obtain ⟨hts, _, _, _, hslashes, _⟩ := docket_eq.mp (slashResolverStake_ok hexecuted.slashed).2.2.2.1
    have hput : Spares id w (w.putSlash slashId executed.executed) := .write hid _ rfl rfl rfl
    have hspared := hput.trans (.of_slashes hslashes hts.ge)
    refine ⟨entry, h.frame ⟨hspared.get, hspared.archived, hspared.time⟩ fun e he => ?_⟩
    rw [List.mem_singleton.mp he]
    exact decide_eq_false hid
  groupExecuted {w workflowId slashId executed allocations done} _ hexecuted past entry h hexact := by
    by_cases hid : slashId = id
    · subst hid
      have hfound := hexecuted.found
      rw [h.found] at hfound
      obtain rfl := Option.some.inj hfound
      have hrows' := hexecuted.allocated
      rw [h.amount, h.members, hallocated] at hrows'
      obtain rfl := Except.ok.inj hrows'
      exact ⟨_, h.execution hnodup hrows hmembers hnonneg hexecuted hexact⟩
    · have hslashes : done.world.slashes = w.slashes := payMember_slashes hexecuted.paid
      have hts : done.world.blockTs = w.blockTs := payments_blockTs hexecuted.paid
      have hspared : Spares id w done.world := .of_slashes hslashes hts.ge
      refine ⟨entry, h.frame (hspared.trans (.write hid _ rfl rfl rfl)) fun e he => ?_⟩
      obtain ⟨_, _, _, rfl⟩ := mem_payTurns he
      exact decide_eq_false hid
  registered _ past entry h _ :=
    ⟨entry, h.frame ⟨rfl, fun hnone => hnone, le_rfl⟩ fun e he => by
      rw [List.mem_singleton.mp he]; rfl⟩
  withdrawn _ _ past entry h _ :=
    ⟨entry, h.frame ⟨rfl, fun hnone => hnone, le_rfl⟩ fun e he => by
      rw [List.mem_singleton.mp he]; rfl⟩
  advanced htime past entry h _ :=
    ⟨entry, h.frame ⟨rfl, fun hnone => hnone, htime⟩ fun e he => nomatch he⟩

/-! ## runs -/

theorem numbered_of_empty (hpending : w.slashes.pending = []) (hhistory : w.slashes.history = []) :
    w.Numbered := by
  have hget : ∀ id e, w.getSlash id ≠ some e := by
    intro id e
    unfold World.getSlash
    rw [hpending]
    nofun
  refine ⟨⟨?_, fun id e he => absurd he (hget id e), fun id e he => absurd he (hget id e)⟩,
    fun id e he => ?_⟩
  · unfold World.Keyed
    rw [hpending]
    exact List.nodup_nil
  · rw [hhistory] at he
    cases he

theorem snapshotMembers_ids (w : World) (ids : List Address) :
    ((w.snapshotMembers ids).map Member.id).Perm ids := by
  unfold World.snapshotMembers
  refine ((List.perm_insertionSort _ _).map Member.id).trans ?_
  rw [List.map_map]
  exact (List.map_id ids).symm ▸ List.Perm.refl _

theorem mem_snapshotMembers {ids : List Address} {m : Member} (h : m ∈ w.snapshotMembers ids) :
    ∃ id ∈ ids, m = ⟨id, w.stake id⟩ := by
  obtain ⟨id, hid, rfl⟩ := List.mem_map.mp ((List.perm_insertionSort _ _).mem_iff.mp h)
  exact ⟨id, hid, rfl⟩

theorem proposeFraudGroupSlash_liable {caller : Option Address} {ids : List Address}
    {incidentFound : Bool}
    (h : w.proposeFraudGroupSlash allocate workflowId caller ids amount incidentFound = .ok w') :
    ids ≠ [] ∧ ∀ m ∈ w.snapshotMembers ids, 0 < m.slashableStake := by
  unfold World.proposeFraudGroupSlash at h
  simp only [refuse_eq_ok] at h
  obtain ⟨_, h⟩ := h
  split at h
  · cases h
  · simp only [refuse_eq_ok] at h
    obtain ⟨_, _, hliable, _, _, _, _, _, hstaked, _⟩ := h
    refine ⟨hliable, fun m hm => ?_⟩
    obtain ⟨id, hid, rfl⟩ := mem_snapshotMembers hm
    by_contra hnone
    exact hstaked (List.any_eq_true.mpr ⟨id, hid, decide_eq_true (not_lt.mp hnone)⟩)

theorem sum_charges_le (hnonneg : ∀ row ∈ rows, 0 ≤ row.2)
    (hcharged : ∀ row ∈ rows, chargesOf id row.1 j = [] ∨ chargesOf id row.1 j = [row.2]) :
    (rows.map fun row => (chargesOf id row.1 j).sum).sum ≤ (rows.map Prod.snd).sum := by
  refine List.sum_le_sum fun row hrow => ?_
  rcases hcharged row hrow with hnone | hone
  · rw [hnone]
    exact hnonneg row hrow
  · rw [hone, List.sum_singleton]

theorem groupKept_proposed {caller : Option Address} {ids : List Address} {incidentFound : Bool}
    (hnumbered : w.Numbered)
    (hok : w.proposeFraudGroupSlash allocate workflowId caller ids amount incidentFound = .ok w') :
    GroupKept w.slashes.nextSlashId amount (w.snapshotMembers ids) rows [] w'
      (w.groupEntry w.slashes.nextSlashId workflowId (w.snapshotMembers ids) amount) := by
  obtain ⟨_, _, _, _, hinsert⟩ := proposeFraudGroupSlash_ok hok
  obtain ⟨_, _, _, _, rfl⟩ := insertSlash_ok.mp hinsert
  refine ⟨(find_put _ _ _ _).trans (if_pos rfl), ?_, rfl, rfl, rfl, rfl, fun hbegun => ?_,
    fun row _ _ => rfl, fun row _ => Or.inl rfl, fun row _ _ => rfl, fun r _ => rfl,
    nofun, fun hbegun => ?_⟩
  · show find w.slashes.history w.slashes.nextSlashId = none
    cases hold : find w.slashes.history w.slashes.nextSlashId with
    | none => rfl
    | some e => exact absurd (hnumbered.archived _ e hold) (lt_irrefl _)
  · exact absurd rfl hbegun
  · exact absurd rfl hbegun.1

/-- **When payments are exact, a group is charged once**: every run after a proposal charges each
member nothing, or what the proposal allocates to it. -/
theorem group_charged_once (env : Environment) (hallocates : Allocates env.allocateRows)
    (hpending : w.slashes.pending = []) (hhistory : w.slashes.history = [])
    {before ops : List Operation} {caller : Option Address} {ids : List Address}
    {incidentFound : Bool}
    (hproposed : (step env (run (step env) w before)
      (.proposeFraudGroupSlash workflowId caller ids amount incidentFound)).isOk)
    (hexact : Along (step env) (PaidExactly env) (after (step env) (run (step env) w before)
      (.proposeFraudGroupSlash workflowId caller ids amount incidentFound)) ops) :
    ∃ rows, env.allocate amount ((run (step env) w before).snapshotMembers ids) = .ok rows ∧
      ChargedOnce env (run (step env) w before).slashes.nextSlashId amount rows
        (after (step env) (run (step env) w before)
          (.proposeFraudGroupSlash workflowId caller ids amount incidentFound)) ops := by
  have hnumbered : (run (step env) w before).Numbered :=
    numbered_run (numbered_of_empty hpending hhistory) before
  generalize run (step env) w before = w₀ at hproposed hexact hnumbered ⊢
  obtain ⟨w₁, hok⟩ := exists_ok hproposed
  rw [after_ok hok] at hexact ⊢
  have hok' : w₀.proposeFraudGroupSlash env.allocate workflowId caller ids amount incidentFound
      = .ok w₁ := hok
  obtain ⟨_, hpos, hnodup, ⟨rows, hallocated⟩, hinsert⟩ := proposeFraudGroupSlash_ok hok'
  obtain ⟨hliable, hstaked⟩ := proposeFraudGroupSlash_liable hok'
  have hperm := snapshotMembers_ids w₀ ids
  have hmembers : w₀.snapshotMembers ids ≠ [] := by
    intro hnil
    rw [hnil, List.map_nil, List.nil_perm] at hperm
    exact hliable hperm
  have hdistinct : ((w₀.snapshotMembers ids).map Member.id).Nodup := hperm.nodup_iff.mpr hnodup
  obtain ⟨hids, hnonneg, hbounded⟩ :=
    hallocates.memberRows hpos hmembers hstaked hdistinct hallocated
  have hrows : rows ≠ [] := by
    intro hnil
    rw [hnil, List.map_nil, eq_comm, List.map_eq_nil_iff] at hids
    exact hmembers hids
  have hkeys : (rows.map Prod.fst).Nodup := hids ▸ hdistinct
  refine ⟨rows, hallocated, ?_⟩
  obtain ⟨entry, hkept⟩ := (groupKept_judged env hkeys hrows hids hnonneg hallocated).run
    (hnumbered.keyed.insertSlash hinsert) ops [] _ (groupKept_proposed hnumbered hok')
    (emitted_forall hexact)
  rw [List.nil_append] at hkept
  exact ⟨hkept.charged, hkept.others,
    (sum_charges_le hnonneg hkept.charged).trans hbounded,
    entry, hkept.found, hkept.stayed, hkept.executed⟩

end

/-! ## a group of judges -/

theorem sum_ediv_le {total : ℤ} (htotal : 0 < total) (l : List ℤ) :
    (l.map fun n => n / total).sum ≤ l.sum / total := by
  induction l with
  | nil => exact (Int.zero_ediv total).ge
  | cons n l ih =>
    rw [List.map_cons, List.sum_cons, List.sum_cons, Int.le_ediv_iff_mul_le htotal, add_mul]
    have hn := Int.ediv_mul_le n htotal.ne'
    have hl := (Int.le_ediv_iff_mul_le htotal).mp ih
    omega

/-- an amount divided by weights; a row that is named twice is refused -/
def byWeight : RowAllocator := fun amount rows =>
  let total := (rows.map AllocationRow.weight).sum
  if 0 < total ∧ (∀ r ∈ rows, 0 ≤ r.weight) ∧ (rows.map AllocationRow.id).Nodup then
    .ok fun id => (rows.find? fun r => r.id = id).map fun r => amount * r.weight / total
  else .error .allocationFailure

theorem byWeight_allocates : Allocates byWeight where
  row {amount rows byRowId} hpos hok row hrow := by
    obtain ⟨⟨htotal, hweights, _⟩, hbyRowId⟩ := require_eq_ok.mp hok
    rw [Except.ok.injEq] at hbyRowId
    subst hbyRowId
    have hsome : (rows.find? fun r => decide (r.id = row.id)).isSome :=
      List.find?_isSome.mpr ⟨row, hrow, by simp⟩
    obtain ⟨r, hr⟩ := Option.isSome_iff_exists.mp hsome
    refine ⟨_, congrArg (Option.map _) hr, ?_⟩
    exact Int.ediv_nonneg (mul_nonneg hpos.le (hweights r (List.mem_of_find?_eq_some hr))) htotal.le
  bounded {amount rows byRowId} hpos _ hok := by
    obtain ⟨⟨htotal, _, hnodup⟩, hbyRowId⟩ := require_eq_ok.mp hok
    rw [Except.ok.injEq] at hbyRowId
    subst hbyRowId
    have hshare : ∀ row ∈ rows, (((rows.find? fun r => decide (r.id = row.id)).map fun r =>
        amount * r.weight / (rows.map AllocationRow.weight).sum).getD 0)
          = amount * row.weight / (rows.map AllocationRow.weight).sum := by
      intro row hrow
      cases hr : rows.find? fun r => decide (r.id = row.id) with
      | none =>
        have hno := List.find?_eq_none.mp hr row hrow
        simp at hno
      | some r =>
        have hsame : r = row := List.inj_on_of_nodup_map hnodup (List.mem_of_find?_eq_some hr) hrow
          (by simpa using List.find?_some hr)
        rw [hsame]
        rfl
    rw [List.map_congr_left hshare]
    have hshares := sum_ediv_le htotal (rows.map fun r => amount * r.weight)
    rw [List.sum_map_mul_left, Int.mul_ediv_cancel _ htotal.ne', List.map_map] at hshares
    exact hshares

/-- a dispute about the first of two judges, with their stakes -/
def judgedTogether (stake other : ℤ) : World :=
  { emptyWorld {} 0 with
    escrows :=
      { transfers := [(0, { token := "USDC", sender := "s", recipient := "r", amountAfterFee := 100
                            disputeResolver := some "judge", escrowState := .disputed })]
        snapshots := fun _ => { appealWindowDuration := some 100 }
        nextWorkflowId := 1 }
    resolvers :=
      { stakes := fun r => if r = "judge" then stake else if r = "other" then other else 0
        registered := fun r => r = "judge" ∨ r = "other" } }

def allocatingEnvironment : Environment := { bareEnvironment with allocateRows := byWeight }

/-- the appeal of the other judge is upheld, and the slash is executed twice -/
def executedTwice : List Operation :=
  [.appealFraudGroupSlash 0 "other" 0, .resolveFraudGroupAppeal 0 (some "gov") "other" true 0 true,
    .advanceTime 101, .executeFraudGroupSlash 0 0, .executeFraudGroupSlash 0 0]

theorem group_charged_once_upheld :
    ∃ rows, allocatingEnvironment.allocate 100
        ((run (step allocatingEnvironment) (judgedTogether 1000 1000) []).snapshotMembers
          ["other", "judge"]) = .ok rows ∧
      ChargedOnce allocatingEnvironment
        (run (step allocatingEnvironment) (judgedTogether 1000 1000) []).slashes.nextSlashId 100 rows
        (after (step allocatingEnvironment)
          (run (step allocatingEnvironment) (judgedTogether 1000 1000) [])
          (.proposeFraudGroupSlash 0 (some "gov") ["other", "judge"] 100 true)) executedTwice :=
  group_charged_once allocatingEnvironment byWeight_allocates rfl rfl (by decide +kernel)
    (by decide +kernel)

/-- a slash makes the stake of the judge a big integer, and then it is raised -/
def slashedBefore : List Operation :=
  [.proposeFraudSlash 0 (some "gov") "judge" 1, .advanceTime 101, .executeFraudSlash 0 0,
    .registerStake "judge" (10 * (2 ^ 53 + 1))]

/-- `2 ^ 53 + 1` is allocated to a judge, and `2 ^ 53` is charged. -/
theorem group_charged_once_counterexample :
    (step allocatingEnvironment (run (step allocatingEnvironment) (judgedTogether 1000 0) slashedBefore)
      (.proposeFraudGroupSlash 0 (some "gov") ["judge"] (2 ^ 53 + 1) true)).isOk = true ∧
    allocatingEnvironment.allocate (2 ^ 53 + 1)
      ((run (step allocatingEnvironment) (judgedTogether 1000 0) slashedBefore).snapshotMembers
        ["judge"]) = .ok [("judge", 2 ^ 53 + 1)] ∧
    ¬ ChargedOnce allocatingEnvironment 1 (2 ^ 53 + 1) [("judge", 2 ^ 53 + 1)]
      (after (step allocatingEnvironment)
        (run (step allocatingEnvironment) (judgedTogether 1000 0) slashedBefore)
        (.proposeFraudGroupSlash 0 (some "gov") ["judge"] (2 ^ 53 + 1) true))
      [.advanceTime 202, .executeFraudGroupSlash 0 1] := by
  refine ⟨by decide +kernel, by decide +kernel, ?_⟩
  rintro ⟨hcharged, _⟩
  revert hcharged
  decide +kernel

end PRF.Sew
