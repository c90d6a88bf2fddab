import ProtocolRobustness.Economics.SlashBuilt
import ProtocolRobustness.Economics.SlashOmitted

/-!
# Which built slash distributions are verified

The builder pays the awards that were resolved; the verifier recomputes all of the policy, asks for
evidence of every award and knows no runtime profile.

* `Unnoticed`         when the awards that are due and were not resolved make no difference;
* `Verifiable`        when a distribution that is built is one the verifier computes too;
* `verified_iff`      a built distribution is verified exactly then;
* `unnoticed_of_resolved`   no difference where all that is due was resolved;
* `unresolved_rejected`     a distribution with an award of its policy left out.
-/

set_option linter.unusedSectionVars false

namespace PRF.Economics
open Table Fallible LongArith

section
variable {ι ρ κ : Type} [LinearOrder ι] [DecidableEq ρ]

namespace Input
variable (input : Input ι ρ κ)

def resolvedAmount (id : ι) : Option HostInt :=
  (input.resolvedAwards.find? fun r => r.id = id).bind ResolvedAward.amount

/-- the payouts of the whole policy, whether they were resolved or not -/
def due : List (Payout ι) := input.policy.due input.gross input.values input.resolvedAmount

def Resolves (id : ι) : Prop := ∃ r ∈ input.resolvedAwards, r.id = id

instance (id : ι) : Decidable (input.Resolves id) := inferInstanceAs (Decidable (∃ r ∈ _, _))

/-- what is due of the awards that were resolved -/
def granted : List (Payout ι) := input.due.filter fun x => input.Resolves x.id

/-- what is due of those that were not -/
def omitted : List (Payout ι) := input.due.filter fun x => ¬ input.Resolves x.id

def base : HostAmounts ι := input.policy.allocation.shares input.gross

/-- a rate gives an amount; an amount from elsewhere was resolved and is positive -/
def Priced (p : PolicyAward ι) : Prop :=
  match p.amount.method with
  | .rateOfGross => (p.amount.share input.values input.gross).isSome
  | .resolvedAmount =>
    ∃ r ∈ input.resolvedAwards, r.id = p.id ∧ ∃ amount, r.amount = some amount ∧ 0 < amount.value

/-- An award has an amount, the product of its rate with the gross amount does not overflow, and the
amount is divided over its weights without an exception. -/
structure Payable (p : PolicyAward ι) : Prop where
  priced : input.Priced p
  rate : ¬ p.amount.Overflows input.values input.gross
  funding : ∀ amount, p.amount.compute input.values input.gross (input.resolvedAmount p.id)
    = some amount → p.funding.Computes amount

/-- What is due beyond the awards that were resolved makes no difference: the amounts and fundings of
the resolved ones begin those of all that are due, and the others change no allocation. -/
structure Unnoticed : Prop where
  terms : input.granted.map Payout.terms <+: input.due.map Payout.terms
  neutral : Neutral input.base input.granted input.omitted

structure Verifiable (env : Environment ι ρ κ) : Prop where
  base : input.policy.allocation.Covers input.gross ∧ input.base.Sums
  funded : ∀ a ∈ input.paid, a.funding.total = a.amount.value ∧ a.funding.Sums
  evidenced : ∀ a ∈ input.paid, a.evidenceReference.isSome
  profile : (env.resolution input.runtimeProfile input.policy).map Snapshot.root
    = (env.resolution none input.policy).map Snapshot.root
  payable : input.policy.steps = none → ∀ p ∈ input.policy.awardList, input.Payable p
  carried : input.policy.steps = none →
    DeductionsCarry input.due ∧ BalancesCarry input.base input.due
  unnoticed : input.policy.steps = none → input.Unnoticed

/-! ## amounts that are stored -/

variable {input} {env : Environment ι ρ κ}

theorem storedAmount_eq_some {l : List (Payout ι)} (hn : (l.map Payout.id).Nodup) {id : ι}
    {amount : HostInt} : storedAmount l id = some amount ↔ ∃ x ∈ l, x.id = id ∧ x.amount = amount := by
  have hrev : (l.reverse.map Payout.id).Nodup := by
    rw [List.map_reverse]
    exact List.nodup_reverse.mpr hn
  unfold storedAmount
  rw [Option.map_eq_some_iff]
  simp only [Keyed.search_eq_some hrev, List.mem_reverse, and_assoc]

theorem paidPayouts_of_awards (hsteps : input.policy.steps = none) : input.paidPayouts
    = (sortById (fun a => a.id) (input.resolvedAwards.filterMap input.paidAward)).map
        Award.toPayout := by
  simp only [paidPayouts, paid, hsteps]

theorem mem_paidPayouts (hadm : input.Admissible env) (hsteps : input.policy.steps = none)
    {x : Payout ι} : x ∈ input.paidPayouts ↔ ∃ p ∈ input.policy.awardList,
      ∃ r ∈ input.resolvedAwards, r.id = p.id ∧ ∃ amount,
        p.amount.compute input.values input.gross r.amount = some amount ∧ 0 < amount.value
        ∧ x = p.payout p.id amount (p.amount.calculation input.values input.gross p.id) := by
  rw [paidPayouts_of_awards hsteps, List.mem_map]
  constructor
  · intro h
    obtain ⟨a, ha, rfl⟩ := h
    obtain ⟨r, hr, hra⟩ := List.mem_filterMap.mp (mem_sortById.mp ha)
    obtain ⟨-, -, p, amount, hp, hcompute, hpos, hpayout⟩ := mem_paidAward hra
    obtain ⟨hmem, hid⟩ := (awardOf_eq_some hadm.awardIds).mp hp
    exact ⟨p, hmem, r, hr, hid.symm, amount, hcompute, hpos, hid ▸ hpayout⟩
  · intro h
    obtain ⟨p, hp, r, hr, hid, amount, hcompute, hpos, rfl⟩ := h
    have haward : input.policy.awardOf r.id = some p :=
      (awardOf_eq_some hadm.awardIds).mpr ⟨hp, hid.symm⟩
    refine ⟨⟨p.payout p.id amount (p.amount.calculation input.values input.gross p.id),
      r.resolution.trigger, r.resolution.evidenceReference, r.resolution.beneficiary⟩, ?_, rfl⟩
    refine mem_sortById.mpr (List.mem_filterMap.mpr ⟨r, hr, ?_⟩)
    unfold paidAward
    rw [haward, Option.bind_some, hcompute, Option.filter_some, if_pos (by simpa using hpos.ne'),
      Option.map_some, hid]

theorem nodup_paidPayouts (hadm : input.Admissible env) (hsteps : input.policy.steps = none) :
    (input.paidPayouts.map Payout.id).Nodup := by
  rw [paidPayouts_of_awards hsteps, List.map_map]
  refine ((sortById_perm _ _).map _).nodup_iff.mpr ?_
  exact Keyed.nodup_filterMap_key hadm.resolvedIds fun r _ a ha => (mem_paidAward ha).1

theorem resolvedAmount_eq (hadm : input.Admissible env) {r : ResolvedAward ι}
    (hr : r ∈ input.resolvedAwards) : input.resolvedAmount r.id = r.amount := by
  unfold resolvedAmount
  rw [(Keyed.search_eq_some hadm.resolvedIds).mpr ⟨hr, rfl⟩]
  rfl

theorem storedAmount_paid (hadm : input.Admissible env) (hsteps : input.policy.steps = none)
    {p : PolicyAward ι} (hp : p ∈ input.policy.awardList) (hm : p.amount.method = .resolvedAmount)
    {amount : HostInt} : storedAmount input.paidPayouts p.id = some amount ↔
      ∃ r ∈ input.resolvedAwards, r.id = p.id ∧ r.amount = some amount ∧ 0 < amount.value := by
  have hcompute : ∀ given, p.amount.compute input.values input.gross given
      = given.filter fun amount => 0 ≤ amount.value := fun given => by simp only [AmountSpec.compute, hm]
  rw [storedAmount_eq_some (nodup_paidPayouts hadm hsteps)]
  constructor
  · intro h
    obtain ⟨x, hx, hid, rfl⟩ := h
    obtain ⟨p', hp', r, hr, hrid, amount, hamount, hpos, rfl⟩ := (mem_paidPayouts hadm hsteps).mp hx
    have heq : p' = p := Keyed.eq_of_key_eq hadm.awardIds hp' hp hid
    subst heq
    rw [hcompute] at hamount
    exact ⟨r, hr, hrid, (Option.filter_eq_some_iff.mp hamount).1, hpos⟩
  · intro h
    obtain ⟨r, hr, hrid, hamount, hpos⟩ := h
    refine ⟨_, (mem_paidPayouts hadm hsteps).mpr ⟨p, hp, r, hr, hrid, amount, ?_, hpos, rfl⟩, rfl,
      rfl⟩
    rw [hcompute, hamount]
    simp [Option.filter, hpos.le]

theorem isSome_stored_iff (hadm : input.Admissible env) (hsteps : input.policy.steps = none)
    {p : PolicyAward ι} (hp : p ∈ input.policy.awardList) :
    (p.amount.compute input.values input.gross (storedAmount input.paidPayouts p.id)).isSome
      ↔ input.Priced p := by
  unfold Priced
  cases hm : p.amount.method with
  | rateOfGross => simp [AmountSpec.compute, hm]
  | resolvedAmount =>
    simp only [AmountSpec.compute, hm]
    rw [Option.isSome_iff_exists]
    constructor
    · intro h
      obtain ⟨amount, hamount⟩ := h
      obtain ⟨r, hr, hid, heq, hpos⟩ :=
        (storedAmount_paid hadm hsteps hp hm).mp (Option.filter_eq_some_iff.mp hamount).1
      exact ⟨r, hr, hid, amount, heq, hpos⟩
    · intro h
      obtain ⟨r, hr, hid, amount, heq, hpos⟩ := h
      refine ⟨amount, ?_⟩
      rw [(storedAmount_paid hadm hsteps hp hm).mpr ⟨r, hr, hid, heq, hpos⟩]
      simp [Option.filter, hpos.le]

theorem compute_stored (hadm : input.Admissible env) (hsteps : input.policy.steps = none)
    {p : PolicyAward ι} (hp : p ∈ input.policy.awardList) (hpriced : input.Priced p) :
    p.amount.compute input.values input.gross (storedAmount input.paidPayouts p.id)
      = p.amount.compute input.values input.gross (input.resolvedAmount p.id) := by
  cases hm : p.amount.method with
  | rateOfGross => exact AmountSpec.compute_of_rate hm _ _
  | resolvedAmount =>
    simp only [Priced, hm] at hpriced
    obtain ⟨r, hr, hid, amount, heq, hpos⟩ := hpriced
    rw [(storedAmount_paid hadm hsteps hp hm).mpr ⟨r, hr, hid, heq, hpos⟩, ← hid,
      resolvedAmount_eq hadm hr, heq]

theorem payable_stored (hadm : input.Admissible env) (hsteps : input.policy.steps = none) :
    input.policy.Payable input.gross input.values (storedAmount input.paidPayouts) ↔
      ∀ p ∈ input.policy.awardList, input.Payable p := by
  refine forall₂_congr fun p hp => ?_
  constructor
  · rintro ⟨hrate, amount, hamount, hcomputes⟩
    have hpriced := (isSome_stored_iff hadm hsteps hp).mp (Option.isSome_of_eq_some hamount)
    refine ⟨hpriced, hrate, fun amount' hamount' => ?_⟩
    rw [← compute_stored hadm hsteps hp hpriced, hamount] at hamount'
    exact Option.some.inj hamount' ▸ hcomputes
  · intro hpayable
    obtain ⟨amount, hamount⟩ := Option.isSome_iff_exists.mp
      ((isSome_stored_iff hadm hsteps hp).mpr hpayable.priced)
    refine ⟨hpayable.rate, amount, hamount, hpayable.funding amount ?_⟩
    rw [← compute_stored hadm hsteps hp hpayable.priced, hamount]

theorem due_stored (hadm : input.Admissible env) (hsteps : input.policy.steps = none)
    (hpriced : ∀ p ∈ input.policy.awardList, input.Priced p) :
    input.policy.due input.gross input.values (storedAmount input.paidPayouts) = input.due := by
  unfold due Policy.due
  rw [hsteps]
  show sortById _ _ = sortById _ _
  congr 1
  refine List.filterMap_congr fun p hp => ?_
  unfold PolicyAward.due
  rw [compute_stored hadm hsteps hp (hpriced p hp)]

/-! ## what was resolved -/

theorem due_of_awards (hsteps : input.policy.steps = none) : input.due = sortById Payout.id
    (input.policy.awardList.filterMap fun p =>
      p.due input.gross input.values (input.resolvedAmount p.id)) := by
  unfold due Policy.due
  rw [hsteps]

theorem due_eq_some {p : PolicyAward ι} {given : Option HostInt} {x : Payout ι} :
    p.due input.gross input.values given = some x ↔ ∃ amount,
      p.amount.compute input.values input.gross given = some amount ∧ 0 < amount.value
      ∧ x = p.payout p.id amount (p.amount.calculation input.values input.gross p.id) := by
  unfold PolicyAward.due
  simp only [Option.map_eq_some_iff, Option.filter_eq_some_iff, decide_eq_true_eq, and_assoc,
    eq_comm (a := x)]

theorem pairwise_due (hadm : input.Admissible env) (hsteps : input.policy.steps = none) :
    input.due.Pairwise fun x y => x.id < y.id := by
  rw [due_of_awards hsteps]
  refine pairwise_sortById (Keyed.nodup_filterMap_key hadm.awardIds fun p _ x hx => ?_)
  obtain ⟨amount, -, -, rfl⟩ := due_eq_some.mp hx
  rfl

/-- **The awards that are paid are those due that were resolved.** -/
theorem paidPayouts_eq_granted (hadm : input.Admissible env) (hsteps : input.policy.steps = none) :
    input.paidPayouts = input.granted := by
  have hpaid : input.paidPayouts.Pairwise fun x y => x.id < y.id := by
    rw [paidPayouts_of_awards hsteps, List.pairwise_map]
    exact pairwise_sortById (Keyed.nodup_filterMap_key hadm.resolvedIds fun r _ a ha =>
      (mem_paidAward ha).1)
  refine Keyed.eq_of_mem_iff hpaid ((pairwise_due hadm hsteps).filter _) fun x => ?_
  rw [mem_paidPayouts hadm hsteps, granted, List.mem_filter, due_of_awards hsteps, mem_sortById,
    List.mem_filterMap]
  simp only [due_eq_some, decide_eq_true_eq]
  constructor
  · rintro ⟨p, hp, r, hr, hid, amount, hamount, hpos, rfl⟩
    refine ⟨⟨p, hp, amount, ?_, hpos, rfl⟩, r, hr, hid⟩
    rw [← hid, resolvedAmount_eq hadm hr, hamount]
  · rintro ⟨⟨p, hp, amount, hamount, hpos, rfl⟩, r, hr, hid⟩
    have hid : r.id = p.id := hid
    refine ⟨p, hp, r, hr, hid, amount, ?_, hpos, rfl⟩
    rw [← hid, resolvedAmount_eq hadm hr] at hamount
    exact hamount

theorem granted_append_omitted (input : Input ι ρ κ) :
    (input.granted ++ input.omitted).Perm input.due := by
  have hpartition := List.filter_append_perm (fun x => decide (input.Resolves x.id)) input.due
  simpa only [granted, omitted, decide_not] using hpartition

/-! ## the checks on a distribution that was built -/

variable {d : Distribution ι ρ κ}

theorem payouts_of_build (h : input.build env = .ok d) : d.payouts = input.paidPayouts := by
  obtain ⟨hadm, -, w, hw, rfl, -⟩ := build_ok h
  show w.awards.map Award.toPayout = input.paid.map Award.toPayout
  rw [(faithful_of_awarded hadm hw).paid]

theorem gross_of_build (h : input.build env = .ok d) : d.gross = input.gross := by
  obtain ⟨-, -, w, -, rfl, -⟩ := build_ok h
  rfl

theorem base_of_build (h : input.build env = .ok d) : d.base = input.base := by
  obtain ⟨-, -, w, -, rfl, -⟩ := build_ok h
  rfl

theorem sealed_iff_covers (h : input.build env = .ok d) :
    Sealed env input.policy d ↔ input.policy.allocation.Covers input.gross := by
  obtain ⟨hadm, -, w, hw, rfl, -⟩ := build_ok h
  rw [← Spread.total_shares]
  constructor
  · exact fun hs => hs.base.symm
  · intro htotal
    refine ⟨hadm.policyRoot.symm, rfl, hadm.gross, htotal.symm, fun _ => ⟨rfl, rfl⟩, ?_⟩
    intro calculations hc summary hs
    cases hc
    cases hs
    exact ⟨rfl, rfl, Amounts.Same.refl _⟩

/-- of the sums over what is stored, the builder has computed all but those of the base and of the
fundings -/
theorem carries_iff (h : input.build env = .ok d) :
    d.Carries ↔ input.base.Sums ∧ ∀ a ∈ input.paid, a.funding.Sums := by
  have hpayouts := payouts_of_build h
  obtain ⟨hadm, hcomputed, w, hw, rfl, -⟩ := build_ok h
  have hfunding : (∀ p ∈ input.paidPayouts, p.funding.Sums) ↔ ∀ a ∈ input.paid, a.funding.Sums :=
    List.forall_mem_map
  rw [← hfunding, ← hpayouts]
  constructor
  · exact fun hc => ⟨hc.1, hc.2.2.1⟩
  · rintro ⟨hbase, hfundings⟩
    exact ⟨hbase, fun _ => hcomputed.summary, hfundings, hcomputed.deductions, hcomputed.balances,
      hcomputed.final⟩

theorem order_of_build (h : input.build env = .ok d) :
    d.payouts.map Payout.id = d.expectedOrder := by
  obtain ⟨hadm, -, w, hw, rfl, -⟩ := build_ok h
  have hf := faithful_of_awarded hadm hw
  have hids : (w.awards.map Award.toPayout).map Payout.id = w.awards.map fun a => a.id :=
    List.map_map
  show (w.awards.map Award.toPayout).map Payout.id = Body.expectedOrder _
  unfold Body.expectedOrder Body.appliedSteps
  show _ = if (input.policy.steps.map fun _ => w.steps).getD [] = []
    then sortById (fun id => id) ((w.awards.map Award.toPayout).map Payout.id)
    else (((input.policy.steps.map fun _ => w.steps).getD []).filter _).map StepRecord.id
  rw [hids]
  cases hsteps : input.policy.steps with
  | none =>
    show _ = sortById (fun id => id) _
    rw [sortById_eq_self]
    exact List.pairwise_map.mpr (hf.sorted hsteps)
  | some steps =>
    have happlied := hf.applied (by simp [hsteps])
    show _ = if w.steps = [] then _ else (w.steps.filter _).map StepRecord.id
    rw [happlied]
    by_cases hempty : w.steps = []
    · rw [if_pos hempty, hempty]
      rfl
    · rw [if_neg hempty]

theorem consistent_iff_funded (h : input.build env = .ok d) : Consistent d ↔
    (∀ a ∈ input.paid, a.funding.total = a.amount.value)
      ∧ ∀ a ∈ input.paid, a.evidenceReference.isSome := by
  have horder := order_of_build h
  obtain ⟨hadm, -, w, hw, rfl, hover, hneg, htotal⟩ := build_ok h
  have hf := faithful_of_awarded hadm hw
  rw [← hf.paid]
  constructor
  · intro hc
    refine ⟨fun a ha => hc.funded a.toPayout (List.mem_map_of_mem ha), fun a ha => ?_⟩
    exact (hc.grounded a ha (hf.positive a ha)).2
  · intro hcond
    obtain ⟨hfunded, hevidence⟩ := hcond
    refine ⟨horder, ?_, ?_, hover, ?_, hneg, htotal.symm, ?_⟩
    · intro p hp
      obtain ⟨a, ha, rfl⟩ := List.mem_map.mp hp
      exact congrArg _ (hf.traced a ha).symm
    · intro p hp
      obtain ⟨a, ha, rfl⟩ := List.mem_map.mp hp
      exact hfunded a ha
    · intro id hid
      show find (finalAllocations _ _).values.entries id = _
      rw [finalAllocations, HostAmounts.values_tabulate]
      exact Amounts.get_tabulate hid
    · exact fun a ha _ => ⟨hf.held a ha, hevidence a ha⟩

theorem independent_of_steps (h : input.build env = .ok d) (hsteps : input.policy.steps ≠ none) :
    independentDistribution input.policy d.gross input.values d.payouts
      = .ok ⟨d.base, d.payouts, d.final, d.steps⟩ := by
  obtain ⟨-, hcomputed, w, hw, rfl, -⟩ := build_ok h
  obtain ⟨steps, hsome⟩ := Option.ne_none_iff_exists'.mp hsteps
  unfold awarded at hw
  rw [hsome] at hw
  obtain ⟨acc, hrun, rfl⟩ := map_eq_ok.mp hw
  unfold independentDistribution
  simp only [bind_eq_ok, carried_eq_ok]
  refine ⟨_, apply_eq_ok.mpr ⟨hcomputed.base, rfl⟩, (acc.awards.map Award.toPayout, some acc.steps),
    ?_, (), ⟨hcomputed.deductions, hcomputed.balances⟩, ?_⟩
  · unfold independentPayouts
    rw [hsome]
    show (processSteps input.gross steps input.values).map _ = _
    rw [hrun]
    rfl
  · show Except.ok (Recomputed.mk _ _ _ _) = Except.ok (Recomputed.mk _ _ _ _)
    simp only [body, Body.payouts, hsome, Option.map_some]

theorem independent_of_awards (h : input.build env = .ok d) (hsteps : input.policy.steps = none)
    {r : Recomputed ι} : independentDistribution input.policy d.gross input.values d.payouts = .ok r
      ↔ (∀ p ∈ input.policy.awardList, input.Payable p)
        ∧ (DeductionsCarry input.due ∧ BalancesCarry input.base input.due)
        ∧ r = ⟨d.base, input.due, finalAllocations d.base input.due, none⟩ := by
  obtain ⟨hadm, hcomputed, -⟩ := build_ok h
  unfold independentDistribution independentPayouts
  rw [hsteps, payouts_of_build h, gross_of_build h, base_of_build h]
  simp only [bind_eq_ok, carried_eq_ok, apply_eq_ok, map_eq_ok, independentAwards_eq_ok]
  have hpayable := payable_stored hadm hsteps
  have hdue : (∀ p ∈ input.policy.awardList, input.Payable p) → sortById Payout.id
      (input.policy.awardList.filterMap fun p =>
        p.due input.gross input.values (storedAmount input.paidPayouts p.id)) = input.due := by
    intro hpay
    have hstored := due_stored hadm hsteps fun p hp => (hpay p hp).priced
    simpa only [Policy.due, hsteps] using hstored
  constructor
  · rintro ⟨base, ⟨-, rfl⟩, e, ⟨payouts, ⟨hpay, rfl⟩, rfl⟩, -, hcarried, hr⟩
    have hpay := hpayable.mp hpay
    rw [hdue hpay] at hcarried hr
    exact ⟨hpay, hcarried, (Except.ok.inj hr).symm⟩
  · rintro ⟨hpay, hcarried, rfl⟩
    exact ⟨_, ⟨hcomputed.base, rfl⟩, _, ⟨_, ⟨hpayable.mpr hpay, (hdue hpay).symm⟩, rfl⟩, (), hcarried,
      rfl⟩

theorem extensionRoot_of_build (h : input.build env = .ok d) :
    (d.extensionRoot.isSome → d.extensionRoot = (env.resolution none input.policy).map Snapshot.root)
      ↔ (env.resolution input.runtimeProfile input.policy).map Snapshot.root
        = (env.resolution none input.policy).map Snapshot.root := by
  obtain ⟨hadm, -, w, hw, rfl, -⟩ := build_ok h
  have hsome : ((env.resolution input.runtimeProfile input.policy).map Snapshot.root).isSome := by
    rw [Option.isSome_map]
    exact hadm.extensions
  exact ⟨fun hroot => hroot hsome, fun hroot _ => hroot⟩

theorem paired_self {l : List (Payout ι)} :
    ∀ e ∈ l.zip l, e.1.amount.value = e.2.amount.value ∧ e.1.funding.Same e.2.funding := by
  intro e he
  have hsame : e.1 = e.2 := by
    rw [← List.map_id l, List.zip_map', List.mem_map] at he
    obtain ⟨x, -, rfl⟩ := he
    rfl
  rw [hsame]
  exact ⟨rfl, HostAmounts.Same.refl _⟩

theorem matches_of_steps (h : input.build env = .ok d) (hsteps : input.policy.steps ≠ none) :
    Matches env input.policy input.values d ⟨d.base, d.payouts, d.final, d.steps⟩ ↔
      (env.resolution input.runtimeProfile input.policy).map Snapshot.root
        = (env.resolution none input.policy).map Snapshot.root := by
  rw [← extensionRoot_of_build h]
  constructor
  · exact fun hm => hm.extensions
  · intro hroot
    exact ⟨HostAmounts.Same.refl _, paired_self, HostAmounts.Same.refl _, fun hnone => absurd hnone hsteps,
      hroot, rfl⟩

theorem matches_of_awards (h : input.build env = .ok d) (hsteps : input.policy.steps = none) :
    Matches env input.policy input.values d
        ⟨d.base, input.due, finalAllocations d.base input.due, none⟩ ↔
      (env.resolution input.runtimeProfile input.policy).map Snapshot.root
          = (env.resolution none input.policy).map Snapshot.root
        ∧ input.Unnoticed := by
  have hroot := extensionRoot_of_build h
  have hpayouts := payouts_of_build h
  obtain ⟨hadm, -, w, hw, rfl, -⟩ := build_ok h
  have hf := faithful_of_awarded hadm hw
  rw [paidPayouts_eq_granted hadm hsteps] at hpayouts
  have hfinal : (input.body env (input.policy.allocation.shares input.gross) w).final
      = finalAllocations input.base input.granted := by
    rw [← hpayouts]
    rfl
  have hterms : input.granted.map Payout.terms <+: input.due.map Payout.terms ↔ _ :=
    terms_prefix_iff (List.length_filter_le _ _)
  have hneutral : (finalAllocations input.base input.granted).Same _ ↔ _ :=
    same_final_iff input.granted_append_omitted
  rw [← hroot]
  constructor
  · intro hm
    exact ⟨hm.extensions, hterms.mpr (hpayouts ▸ hm.paired), hneutral.mp (hfinal ▸ hm.final)⟩
  · intro hm
    obtain ⟨hextensions, hunnoticed⟩ := hm
    refine ⟨HostAmounts.Same.refl _, hpayouts ▸ hterms.mp hunnoticed.terms,
      hfinal ▸ hneutral.mpr hunnoticed.neutral, ?_, hextensions, ?_⟩
    · exact fun _ c hc => congrArg (Option.map Calculation.record) (hf.calculations hsteps c hc).symm
    · show (input.policy.steps.map fun _ => w.steps) = none
      rw [hsteps]
      rfl

/-! ## the distributions that are verified -/

/-- where all that is due was resolved, nothing is left out -/
theorem unnoticed_of_resolved (h : ∀ x ∈ input.due, input.Resolves x.id) : input.Unnoticed := by
  have hgranted : input.granted = input.due :=
    List.filter_eq_self.mpr fun x hx => decide_eq_true (h x hx)
  have homitted : input.omitted = [] :=
    List.filter_eq_nil_iff.mpr fun x hx hno => of_decide_eq_true hno (h x hx)
  refine ⟨?_, ?_⟩
  · rw [hgranted]
  · rw [homitted]
    exact neutral_nil

/-- a distribution that is built is verified, exactly when its input is verifiable -/
theorem verified_iff (h : input.build env = .ok d) :
    verify env input.policy input.values d = some [] ↔ input.Verifiable env := by
  rw [verify_eq_nil, carries_iff h, sealed_iff_covers h, consistent_iff_funded h]
  by_cases hsteps : input.policy.steps = none
  · simp only [independent_of_awards h hsteps]
    constructor
    · rintro ⟨⟨hsums, hfundings⟩, r, ⟨hpayable, hcarried, rfl⟩, hcovers, hmatches, hfunded, hevidence⟩
      obtain ⟨hprofile, hunnoticed⟩ := (matches_of_awards h hsteps).mp hmatches
      exact ⟨⟨hcovers, hsums⟩, fun a ha => ⟨hfunded a ha, hfundings a ha⟩, hevidence, hprofile,
        fun _ => hpayable, fun _ => hcarried, fun _ => hunnoticed⟩
    · intro hv
      refine ⟨⟨hv.base.2, fun a ha => (hv.funded a ha).2⟩, _,
        ⟨hv.payable hsteps, hv.carried hsteps, rfl⟩, hv.base.1, ?_, fun a ha => (hv.funded a ha).1,
        hv.evidenced⟩
      exact (matches_of_awards h hsteps).mpr ⟨hv.profile, hv.unnoticed hsteps⟩
  · simp only [independent_of_steps h hsteps, Except.ok.injEq, exists_eq_left',
      matches_of_steps h hsteps]
    constructor
    · rintro ⟨⟨hsums, hfundings⟩, hcovers, hprofile, hfunded, hevidence⟩
      exact ⟨⟨hcovers, hsums⟩, fun a ha => ⟨hfunded a ha, hfundings a ha⟩, hevidence, hprofile,
        fun hnone => absurd hnone hsteps, fun hnone => absurd hnone hsteps,
        fun hnone => absurd hnone hsteps⟩
    · intro hv
      exact ⟨⟨hv.base.2, fun a ha => (hv.funded a ha).2⟩, hv.base.1, hv.profile,
        fun a ha => (hv.funded a ha).1, hv.evidenced⟩

end Input

end

/-! ## an award that was not resolved -/

/-- five percent of the gross amount for whoever reported the fault -/
def bountyAward : PolicyAward String where
  id := "bounty"
  amount := ⟨.rateOfGross, false, some (.ofInt 10000), true, some "rate"⟩
  eligibility := ⟨"challenge", "challenger", true⟩
  funding := insurancePolicy.allocation
  settlement := ⟨"bounty-pool", "bounty"⟩

def bountyPolicy : Policy String := { insurancePolicy with awards := some [bountyAward] }

/-- there was no challenge, so nothing is resolved -/
def unresolvedInput : Input String ℕ Unit where
  gross := .ofInt 1000
  policy := bountyPolicy
  policyRoot := none
  parameterContext := some ⟨none, [("rate", .ofInt 500)]⟩
  resolvedAwards := []
  runtimeProfile := none
  context := ()

theorem unresolved_rejected : ¬ ∀ (env : Environment String ℕ Unit) (input : Input String ℕ Unit)
    (d : Distribution String ℕ Unit), input.build env = .ok d →
    verify env input.policy input.values d = some [] := by
  intro h
  have hrun : (unresolvedInput.build openEnvironment).toOption.map
      (verify openEnvironment unresolvedInput.policy unresolvedInput.values)
      = some (some [.recomputationMismatch]) := by decide +kernel
  cases hbuild : unresolvedInput.build openEnvironment with
  | error e =>
    rw [hbuild] at hrun
    cases hrun
  | ok d =>
    rw [hbuild] at hrun
    have hverify : verify openEnvironment unresolvedInput.policy unresolvedInput.values d
        = some [.recomputationMismatch] := Option.some.inj hrun
    rw [h openEnvironment unresolvedInput d hbuild] at hverify
    cases Option.some.inj hverify

/-- the same input after a challenge -/
def resolvedInput : Input String ℕ Unit :=
  { unresolvedInput with resolvedAwards := [⟨"bounty", none,
      ⟨some "challenge", some "evidence", ⟨some "challenger-1", some "challenger"⟩⟩⟩] }

theorem verified_iff_resolved : ∃ d, resolvedInput.build openEnvironment = .ok d
    ∧ (verify openEnvironment resolvedInput.policy resolvedInput.values d = some []
      ↔ resolvedInput.Verifiable openEnvironment) := by
  obtain ⟨d, hd⟩ := exists_ok (x := resolvedInput.build openEnvironment) (by decide +kernel)
  exact ⟨d, hd, Input.verified_iff hd⟩

end PRF.Economics
