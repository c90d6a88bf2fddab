import Mathlib.Data.List.ReduceOption
import ProtocolRobustness.Economics.SlashVerify
import ProtocolRobustness.Library.Keyed

/-!
# What a built slash distribution consists of

The shares of weights, the steps of a run, and the awards that were resolved, as the builder leaves
them in a distribution.

* `total_shares`    when the shares of an amount add up to it;
* `sound_steps`     the trace of a run of steps is that of its awards;
* `Input.paid`      the awards that are paid, and `awarded_eq`, that they are those built;
* `build_ok`        what it takes to build a distribution.
-/

set_option linter.unusedSectionVars false

namespace PRF.Economics
open Table Fallible LongArith

/-! ## shares -/

namespace Spread
section
variable {ι : Type} [DecidableEq ι] {s : Spread ι} {amount : HostInt}

/-- the quotients leave nothing, or something that one of the weights takes -/
def Covers (s : Spread ι) (amount : HostInt) : Prop :=
  (s.remainder amount).value = 0
    ∨ 0 < (s.remainder amount).value ∧ ∃ id ∈ s.remainderTo, id ∈ s.weights.ids

theorem total_shares : (s.shares amount).total = amount.value ↔ s.Covers amount := by
  have hremainder : (s.remainder amount).value = amount.value - (s.quotients amount).total := by
    rw [← HostAmounts.total_numbers]
    rfl
  unfold shares Covers taker
  cases hto : s.remainderTo with
  | none =>
    have hnone : ¬ ∃ id ∈ (none : Option ι), id ∈ s.weights.ids := by simp
    simp only [hnone, and_false, or_false, Option.filter_none]
    omega
  | some id =>
    by_cases htaken : 0 < (s.remainder amount).value ∧ id ∈ s.weights.ids
    · rw [Option.filter_some, if_pos (decide_eq_true htaken)]
      simp only [HostAmounts.total_add]
      simp only [Option.mem_some_iff, exists_eq_left', htaken, and_self, or_true, iff_true]
      omega
    · rw [Option.filter_some, if_neg (by simpa using htaken)]
      simp only [Option.mem_some_iff, exists_eq_left', or_iff_left htaken]
      omega

end
end Spread

/-! ## amounts -/

namespace AmountSpec
section
variable {ι : Type} [DecidableEq ι] {a : AmountSpec ι} {values : List (ι × HostInt)}
  {gross : HostInt} {given : Option HostInt} {amount : HostInt}

theorem amount_nonneg_of_share {gross rate : ℤ} {scale : Option ℤ} {floor : Bool} {share : Share}
    (h : scaledShare gross rate scale floor = some share) : 0 ≤ share.amount := by
  cases scale with
  | none => cases h
  | some scale =>
    simp only [scaledShare] at h
    split at h
    · next hdomain =>
      cases h
      obtain ⟨hgross, hrate, hscale, -⟩ := hdomain
      exact Int.tdiv_nonneg (mul_nonneg hgross hrate) hscale.le
    · cases h

theorem compute_nonneg (h : a.compute values gross given = some amount) : 0 ≤ amount.value := by
  unfold compute at h
  cases hm : a.method with
  | rateOfGross =>
    simp only [hm] at h
    obtain ⟨share, hshare, rfl⟩ := Option.map_eq_some_iff.mp h
    obtain ⟨rate, -, hshare⟩ := Option.bind_eq_some_iff.mp hshare
    exact amount_nonneg_of_share hshare
  | resolvedAmount =>
    simp only [hm] at h
    simpa using (Option.filter_eq_some_iff.mp h).2

theorem compute_of_rate (h : a.method = .rateOfGross) (given given' : Option HostInt) :
    a.compute values gross given = a.compute values gross given' := by
  simp only [compute, h]

theorem awardId_of_calculation {awardId : ι} {c : Calculation ι}
    (h : a.calculation values gross awardId = some c) : c.awardId = awardId := by
  unfold calculation at h
  split at h
  · obtain ⟨share, -, rfl⟩ := Option.map_eq_some_iff.mp h
    rfl
  · cases h

end
end AmountSpec

/-! ## runs of steps -/

section
variable {ι : Type} [DecidableEq ι] {gross : HostInt} {values : List (ι × HostInt)}

/-- the committed calculations and step records are those of the awards -/
structure Progress.Sound (acc : Progress ι) : Prop where
  order : acc.awards.map (fun a => a.id)
    = (acc.steps.filter fun x => x.status = .applied).map StepRecord.id
  traced : acc.calculations = acc.awards.map fun a => a.calculation
  named : ∀ a ∈ acc.awards, ∀ c, a.calculation = some c → c.awardId = a.id
  held : ∀ a ∈ acc.awards, a.beneficiary.id.isSome
  positive : ∀ a ∈ acc.awards, 0 < a.amount.value

theorem processStep_cases {acc acc' : Progress ι} {step : Step ι}
    (h : processStep gross values acc step = .ok acc') :
    (∃ record : StepRecord ι, record.status ≠ .applied ∧ acc' = acc.pass record)
      ∨ ∃ basis value amount, step.eligible = true ∧ 0 < amount.value
        ∧ acc' = acc.apply step basis value amount
            (step.amount.calculation values value step.id) := by
  simp only [processStep] at h
  split at h
  · cases h
  · next value hvalue =>
    split at h
    · next hskip =>
      refine Or.inl ⟨_, ?_, (Except.ok.inj h).symm⟩
      intro hs
      cases hs
    · next heligible =>
      have heligible : step.eligible = true := not_not.mp heligible
      rw [refuse_eq_ok] at h
      replace h := h.2
      split at h
      · cases h
      · next amount hamount =>
        rw [refuse_eq_ok] at h
        have h := h.2
        split at h
        · refine Or.inl ⟨_, ?_, (Except.ok.inj h).symm⟩
          intro hs
          cases hs
        · next hne =>
          rw [require_eq_ok] at h
          have hpos : 0 < amount.value := lt_of_le_of_ne (AmountSpec.compute_nonneg hamount) (Ne.symm hne)
          exact Or.inr ⟨_, value, amount, heligible, hpos, (Except.ok.inj h.2).symm⟩

theorem sound_pass {acc : Progress ι} (hs : acc.Sound) {record : StepRecord ι}
    (hstatus : record.status ≠ .applied) : (acc.pass record).Sound := by
  have horder : (acc.pass record).steps.filter (fun x => x.status = .applied)
      = acc.steps.filter fun x => x.status = .applied := by
    show (acc.steps ++ [record]).filter _ = _
    rw [List.filter_append, List.filter_cons_of_neg (by simpa using hstatus), List.filter_nil,
      List.append_nil]
  refine ⟨?_, hs.traced, hs.named, hs.held, hs.positive⟩
  rw [horder]
  exact hs.order

theorem sound_apply {acc : Progress ι} (hs : acc.Sound) {step : Step ι} {basis : Basis ι}
    {value amount : HostInt} (heligible : step.eligible = true) (hpos : 0 < amount.value) :
    (acc.apply step basis value amount (step.amount.calculation values value step.id)).Sound := by
  generalize hcalc : step.amount.calculation values value step.id = calculation
  have hawards : (acc.apply step basis value amount calculation).awards
      = acc.awards ++ [step.pay amount calculation] := rfl
  have hsteps : (acc.apply step basis value amount calculation).steps = acc.steps
      ++ [step.record acc.index basis value.value amount.value (acc.pool.subPromote amount).value
        .applied] := rfl
  have hheld : step.resolved.beneficiary.id.isSome := by
    simp only [Step.eligible, Bool.and_eq_true] at heligible
    exact heligible.2
  refine ⟨?_, ?_, ?_, ?_, ?_⟩
  · rw [hawards, hsteps, List.map_append, hs.order, List.filter_append, List.map_append]
    rfl
  · rw [hawards, List.map_append, ← hs.traced]
    rfl
  · intro a ha c hc
    rcases List.mem_append.mp (hawards ▸ ha) with ha | ha
    · exact hs.named a ha c hc
    · rw [List.mem_singleton.mp ha] at hc ⊢
      exact AmountSpec.awardId_of_calculation (hcalc.trans hc)
  · intro a ha
    rcases List.mem_append.mp (hawards ▸ ha) with ha | ha
    · exact hs.held a ha
    · rw [List.mem_singleton.mp ha]
      exact hheld
  · intro a ha
    rcases List.mem_append.mp (hawards ▸ ha) with ha | ha
    · exact hs.positive a ha
    · rw [List.mem_singleton.mp ha]
      exact hpos

theorem sound_processStep {acc acc' : Progress ι} {step : Step ι} (hs : acc.Sound)
    (h : processStep gross values acc step = .ok acc') : acc'.Sound := by
  obtain ⟨record, hstatus, rfl⟩ | ⟨basis, value, amount, heligible, hpos, rfl⟩ :=
    processStep_cases h
  · exact sound_pass hs hstatus
  · exact sound_apply hs heligible hpos

theorem sound_steps {steps : List (Step ι)} {acc : Progress ι}
    (h : processSteps gross steps values = .ok acc) : acc.Sound := by
  have hstart : (Progress.start gross : Progress ι).Sound :=
    ⟨rfl, rfl, fun a ha => absurd ha List.not_mem_nil, fun a ha => absurd ha List.not_mem_nil,
      fun a ha => absurd ha List.not_mem_nil⟩
  exact foldlM_invariant (I := Progress.Sound)
    (fun acc step acc' _ hs hturn => sound_processStep hs hturn) hstart h

theorem sublist_steps {steps : List (Step ι)} {acc acc' : Progress ι}
    (h : steps.foldlM (processStep gross values) acc = .ok acc') :
    ∃ ids, ids.Sublist (steps.map Step.id)
      ∧ acc'.awards.map (fun a => a.id) = acc.awards.map (fun a => a.id) ++ ids := by
  induction steps generalizing acc with
  | nil =>
    cases h
    exact ⟨[], List.Sublist.refl _, (List.append_nil _).symm⟩
  | cons step steps ih =>
    rw [List.foldlM_cons, bind_eq_ok] at h
    obtain ⟨acc₁, hstep, hrest⟩ := h
    obtain ⟨ids, hsub, hids⟩ := ih hrest
    obtain ⟨record, -, rfl⟩ | ⟨basis, value, amount, -, -, rfl⟩ := processStep_cases hstep
    · exact ⟨ids, hsub.cons _, hids⟩
    · refine ⟨step.id :: ids, hsub.cons_cons _, ?_⟩
      rw [hids]
      show (acc.awards ++ [_]).map _ ++ ids = _
      rw [List.map_append, List.append_assoc]
      rfl

theorem nodup_steps {steps : List (Step ι)} {acc : Progress ι}
    (h : processSteps gross steps values = .ok acc) (hn : (steps.map Step.id).Nodup) :
    (acc.awards.map fun a => a.id).Nodup := by
  obtain ⟨ids, hsub, hids⟩ := sublist_steps h
  rw [hids]
  exact hsub.nodup hn

end

/-! ## awards that were resolved -/

section
variable {ι ρ κ : Type} [LinearOrder ι] [DecidableEq ρ]

theorem sortById_perm {α : Type} (key : α → ι) (l : List α) : (sortById key l).Perm l :=
  List.perm_insertionSort _ l

theorem mem_sortById {α : Type} {key : α → ι} {l : List α} {a : α} : a ∈ sortById key l ↔ a ∈ l :=
  (sortById_perm key l).mem_iff

theorem pairwise_sortById {α : Type} {key : α → ι} {l : List α} (hn : (l.map key).Nodup) :
    (sortById key l).Pairwise fun a b => key a < key b :=
  Keyed.pairwise_lt_sort hn

theorem sortById_eq_self {l : List ι} (h : l.Pairwise fun a b => a < b) :
    sortById (fun id => id) l = l :=
  List.Pairwise.insertionSort_eq (h.imp le_of_lt)

theorem awardOf_eq_some {policy : Policy ι} (hn : (policy.awardList.map PolicyAward.id).Nodup)
    {id : ι} {p : PolicyAward ι} :
    policy.awardOf id = some p ↔ p ∈ policy.awardList ∧ p.id = id :=
  Keyed.search_eq_some hn

namespace Input
variable (input : Input ι ρ κ)

/-- what is known once the checks have passed -/
structure Admissible (env : Environment ι ρ κ) : Prop where
  gross : 0 ≤ input.gross.value
  awardIds : (input.policy.awardList.map PolicyAward.id).Nodup
  stepIds : ((input.policy.steps.getD []).map Step.id).Nodup
  policyRoot : input.policyRoot.getD (env.policyHash input.policy) = env.policyHash input.policy
  resolvedIds : (input.resolvedAwards.map ResolvedAward.id).Nodup
  known : ∀ r ∈ input.resolvedAwards, r.id ∈ input.policy.awardList.map PolicyAward.id
  extensions : (env.resolution input.runtimeProfile input.policy).isSome

def paidAward (r : ResolvedAward ι) : Option (Award ι) :=
  (input.policy.awardOf r.id).bind fun p =>
    ((p.amount.compute input.values input.gross r.amount).filter fun amount => amount.value ≠ 0).map
      fun amount => ⟨p.payout r.id amount (p.amount.calculation input.values input.gross r.id),
        r.resolution.trigger, r.resolution.evidenceReference, r.resolution.beneficiary⟩

def calculationOf (r : ResolvedAward ι) : Option (Calculation ι) :=
  (input.policy.awardOf r.id).bind fun p => p.amount.calculation input.values input.gross r.id

/-- the awards that are paid: those that were resolved, or those of the steps -/
def paid : List (Award ι) :=
  match input.policy.steps with
  | some steps =>
    match processSteps input.gross steps input.values with
    | .ok acc => acc.awards
    | .error _ => []
  | none => sortById (fun a => a.id) (input.resolvedAwards.filterMap input.paidAward)

def paidPayouts : List (Payout ι) := input.paid.map Award.toPayout

variable {input} {env : Environment ι ρ κ}

theorem admissible_of_violations (h : input.violations env = []) : input.Admissible env := by
  simp only [violations, Policy.validate, List.append_eq_nil_iff, flag_eq_nil, not_not, not_lt,
    not_exists, not_and] at h
  obtain ⟨⟨⟨⟨⟨⟨⟨hgross, hvalid⟩, hroot⟩, hresolved⟩, hknown⟩, -⟩, -⟩, hextensions⟩ := h
  obtain ⟨⟨⟨⟨-, hawards⟩, -⟩, hsteps⟩, -⟩ := hvalid
  have hsome : (env.resolution input.runtimeProfile input.policy).isSome :=
    Option.isSome_iff_ne_none.mpr (by simpa using hextensions)
  refine ⟨hgross, hawards, hsteps, ?_, hresolved, fun r hr => ?_, hsome⟩
  · cases hsupplied : input.policyRoot with
    | none => rfl
    | some root => simpa [hsupplied] using hroot
  · exact hknown r.id (List.mem_map_of_mem hr)

theorem mem_paidAward {r : ResolvedAward ι} {a : Award ι} (h : input.paidAward r = some a) :
    a.id = r.id ∧ a.calculation = input.calculationOf r
      ∧ ∃ p amount, input.policy.awardOf r.id = some p
        ∧ p.amount.compute input.values input.gross r.amount = some amount ∧ 0 < amount.value
        ∧ a.toPayout = p.payout r.id amount (p.amount.calculation input.values input.gross r.id) := by
  unfold paidAward at h
  obtain ⟨p, hp, h⟩ := Option.bind_eq_some_iff.mp h
  obtain ⟨amount, hamount, rfl⟩ := Option.map_eq_some_iff.mp h
  obtain ⟨hcompute, hne⟩ := Option.filter_eq_some_iff.mp hamount
  have hne : amount.value ≠ 0 := of_decide_eq_true hne
  have hnonneg := AmountSpec.compute_nonneg hcompute
  refine ⟨rfl, ?_, p, amount, hp, hcompute, lt_of_le_of_ne hnonneg hne.symm, rfl⟩
  show p.amount.calculation input.values input.gross r.id = input.calculationOf r
  unfold calculationOf
  rw [hp]
  rfl

theorem awardId_calculationOf {r : ResolvedAward ι} {c : Calculation ι}
    (h : input.calculationOf r = some c) : c.awardId = r.id := by
  obtain ⟨p, -, h⟩ := Option.bind_eq_some_iff.mp h
  exact AmountSpec.awardId_of_calculation h

theorem resolveOne_ok {r : ResolvedAward ι} {o : Outcome ι} (h : input.resolveOne r = .ok o)
    (hv : o.violations = []) : o.award = input.paidAward r ∧ o.calculation = input.calculationOf r
      ∧ ∀ a ∈ o.award, a.beneficiary.id.isSome := by
  unfold resolveOne at h
  unfold paidAward calculationOf
  cases hp : input.policy.awardOf r.id with
  | none =>
    rw [hp] at h
    cases h
  | some p =>
    simp only [hp, resolveAward, refuse_eq_ok] at h
    replace h := h.2
    cases hamount : p.amount.compute input.values input.gross r.amount with
    | none =>
      simp only [hamount] at h
      cases h
      cases hv
    | some amount =>
      simp only [hamount] at h
      by_cases hzero : amount.value = 0
      · rw [if_pos hzero] at h
        cases h
        refine ⟨?_, rfl, fun a ha => ?_⟩
        · simp [hzero, hamount]
        · cases ha
      · rw [if_neg hzero] at h
        by_cases hmet : p.eligibility.violations r.resolution = []
        · rw [if_neg (not_not.mpr hmet), require_eq_ok] at h
          cases h.2
          refine ⟨by simp [hzero, hamount], rfl, fun a ha => ?_⟩
          cases ha
          simp only [Eligibility.violations, List.append_eq_nil_iff, flag_eq_nil] at hmet
          exact Option.isSome_iff_ne_none.mpr (by simpa using hmet.2)
        · rw [if_pos hmet] at h
          cases h
          exact absurd hv hmet

theorem filterMap_forall₂ {α β γ : Type} {R : α → β → Prop} {f : α → Option γ} {g : β → Option γ}
    {l : List α} {l' : List β} (h : List.Forall₂ R l l') (hfg : ∀ a b, R a b → g b = f a) :
    l'.filterMap g = l.filterMap f := by
  induction h with
  | nil => rfl
  | cons hab _ ih => rw [List.filterMap_cons, List.filterMap_cons, hfg _ _ hab, ih]

theorem resolveAwards_ok {w : Awarded ι} (h : input.resolveAwards = .ok w) :
    w.awards = sortById (fun a => a.id) (input.resolvedAwards.filterMap input.paidAward)
      ∧ w.calculations
        = sortById (fun c => c.awardId) (input.resolvedAwards.filterMap input.calculationOf)
      ∧ w.steps = [] ∧ ∀ a ∈ w.awards, a.beneficiary.id.isSome := by
  unfold resolveAwards at h
  simp only [bind_eq_ok, checked_eq_ok, mapM_ok_iff, List.flatMap_eq_nil_iff] at h
  obtain ⟨outcomes, hrun, -, hviolations, hw⟩ := h
  have hspec : List.Forall₂ (fun r o => o.award = input.paidAward r
      ∧ o.calculation = input.calculationOf r ∧ ∀ a ∈ o.award, a.beneficiary.id.isSome)
      input.resolvedAwards outcomes := by
    clear hw
    generalize input.resolvedAwards = l at hrun ⊢
    induction hrun with
    | nil => exact .nil
    | cons hone _ ih =>
      refine .cons (resolveOne_ok hone (hviolations _ List.mem_cons_self)) (ih ?_)
      exact fun o ho => hviolations o (List.mem_cons_of_mem _ ho)
  cases Except.ok.inj hw
  refine ⟨?_, ?_, rfl, fun a ha => ?_⟩
  · show sortById _ _ = _
    rw [filterMap_forall₂ hspec fun r o hro => hro.1]
  · show sortById _ _ = _
    rw [filterMap_forall₂ hspec fun r o hro => hro.2.1]
  · obtain ⟨o, ho, hao⟩ := List.mem_filterMap.mp (mem_sortById.mp ha)
    obtain ⟨r, -, -, -, hheld⟩ := exists_of_mem_right hspec ho
    exact hheld a hao

variable (input) in
/-- what the verifier needs of the awards that were built -/
structure Faithful (w : Awarded ι) : Prop where
  paid : w.awards = input.paid
  nodup : (w.awards.map fun a => a.id).Nodup
  traced : ∀ a ∈ w.awards, w.calculations.find? (fun c => c.awardId = a.id) = a.calculation
  held : ∀ a ∈ w.awards, a.beneficiary.id.isSome
  positive : ∀ a ∈ w.awards, 0 < a.amount.value
  sorted : input.policy.steps = none → w.awards.Pairwise fun a b => a.id < b.id
  applied : input.policy.steps ≠ none → w.awards.map (fun a => a.id)
    = (w.steps.filter fun x => x.status = .applied).map StepRecord.id
  calculations : input.policy.steps = none → ∀ c ∈ w.calculations,
    (input.policy.awardOf c.awardId).bind
      (fun p => p.amount.calculation input.values input.gross c.awardId) = some c

theorem faithful_steps (hadm : input.Admissible env) {steps : List (Step ι)}
    (hsteps : input.policy.steps = some steps) {acc : Progress ι}
    (h : processSteps input.gross steps input.values = .ok acc) :
    input.Faithful ⟨acc.awards, acc.calculations.reduceOption, acc.steps⟩ := by
  have hs := sound_steps h
  have hn : (acc.awards.map fun a => a.id).Nodup :=
    nodup_steps h (by simpa [hsteps] using hadm.stepIds)
  refine ⟨?_, hn, fun a ha => ?_, hs.held, hs.positive, fun hnone => ?_, fun _ => hs.order,
    fun hnone => ?_⟩
  · simp only [Input.paid, hsteps, h]
  · have hmem : ∀ c, c ∈ acc.calculations.reduceOption ↔ ∃ b ∈ acc.awards, b.calculation = some c := by
      intro c
      rw [List.reduceOption_mem_iff, hs.traced, List.mem_map]
    refine Keyed.search_eq (fun c hc hid => ?_) fun c hc => ⟨(hmem c).mpr ⟨a, ha, hc⟩, hs.named a ha c hc⟩
    obtain ⟨b, hb, hbc⟩ := (hmem c).mp hc
    have hab : b = a := Keyed.eq_of_key_eq hn hb ha ((hs.named b hb c hbc).symm.trans hid)
    exact hab ▸ hbc
  · rw [hsteps] at hnone
    cases hnone
  · rw [hsteps] at hnone
    cases hnone

theorem faithful_awards (hadm : input.Admissible env) (hsteps : input.policy.steps = none)
    {w : Awarded ι} (h : input.resolveAwards = .ok w) : input.Faithful w := by
  obtain ⟨hawards, hcalculations, hrecords, hheld⟩ := resolveAwards_ok h
  have hn : ((input.resolvedAwards.filterMap input.paidAward).map fun a => a.id).Nodup :=
    Keyed.nodup_filterMap_key hadm.resolvedIds fun r _ a ha => (mem_paidAward ha).1
  refine ⟨?_, ?_, fun a ha => ?_, hheld, fun a ha => ?_, fun _ => ?_,
    fun hne => absurd hsteps hne, fun _ c hc => ?_⟩
  · simp only [Input.paid, hsteps]
    exact hawards
  · rw [hawards, ((sortById_perm _ _).map _).nodup_iff]
    exact hn
  · rw [hawards, mem_sortById] at ha
    obtain ⟨r, hr, hra⟩ := List.mem_filterMap.mp ha
    obtain ⟨hid, hcalc, -⟩ := mem_paidAward hra
    rw [hcalculations]
    refine Keyed.search_eq (fun c hc hcid => ?_) fun c hc => ⟨?_, ?_⟩
    · obtain ⟨r', hr', hc⟩ := List.mem_filterMap.mp (mem_sortById.mp hc)
      have hrr : r' = r := Keyed.eq_of_key_eq hadm.resolvedIds hr' hr
        ((awardId_calculationOf hc).symm.trans (hcid.trans hid))
      rw [hcalc, ← hrr, hc]
    · exact mem_sortById.mpr (List.mem_filterMap.mpr ⟨r, hr, hcalc ▸ hc⟩)
    · rw [awardId_calculationOf (hcalc ▸ hc), hid]
  · rw [hawards, mem_sortById] at ha
    obtain ⟨r, -, hra⟩ := List.mem_filterMap.mp ha
    obtain ⟨-, -, p, amount, -, -, hpos, hpayout⟩ := mem_paidAward hra
    have hamount : a.amount = amount := congrArg Payout.amount hpayout
    rwa [hamount]
  · rw [hawards]
    exact pairwise_sortById hn
  · rw [hcalculations, mem_sortById] at hc
    obtain ⟨r, hr, hc⟩ := List.mem_filterMap.mp hc
    rw [awardId_calculationOf hc]
    exact hc

theorem faithful_of_awarded (hadm : input.Admissible env) {w : Awarded ι}
    (h : input.awarded = .ok w) : input.Faithful w := by
  unfold awarded at h
  split at h
  · next steps hsteps =>
    obtain ⟨acc, hrun, rfl⟩ := map_eq_ok.mp h
    exact faithful_steps hadm hsteps hrun
  · next hsteps => exact faithful_awards hadm hsteps h

/-! ### the whole build -/

theorem apply_eq_ok {s : Spread ι} {amount : HostInt} {m : HostAmounts ι} :
    s.apply amount = .ok m ↔ s.Computes amount ∧ m = s.shares amount := by
  rw [Spread.apply, require_eq_ok, Except.ok.injEq, eq_comm (a := m)]

/-- the arithmetic of a distribution that was built did not overflow -/
structure Computed (input : Input ι ρ κ) (d : Distribution ι ρ κ) : Prop where
  base : input.policy.allocation.Computes input.gross
  summary : ∀ calculations ∈ d.calculations, SummaryCarries calculations
  deductions : DeductionsCarry d.payouts
  balances : BalancesCarry d.base d.payouts
  final : d.final.Sums

theorem build_ok {d : Distribution ι ρ κ} (h : input.build env = .ok d) :
    input.Admissible env ∧ Computed input d ∧ ∃ w, input.awarded = .ok w
      ∧ d = { input.body env (input.policy.allocation.shares input.gross) w with
          hash := env.distributionHash
            (input.body env (input.policy.allocation.shares input.gross) w) }
      ∧ overdraws d.base d.payouts = [] ∧ negatives d.final = []
      ∧ d.final.total = input.gross.value := by
  unfold build at h
  rw [require_eq_ok] at h
  replace h := h.2
  simp only [bind_eq_ok, checked_eq_ok, carried_eq_ok, apply_eq_ok, flag_eq_nil, not_not] at h
  obtain ⟨-, hchecks, base, ⟨hcomputes, rfl⟩, w, hw, -, ⟨hsummary, hdeductions⟩, -, hover, -,
    hbalances, -, hneg, -, ⟨hsums, -⟩, -, htotal, hd⟩ := h
  cases Except.ok.inj hd
  refine ⟨admissible_of_violations hchecks, ⟨hcomputes, ?_, hdeductions, hbalances, hsums⟩, w, hw,
    rfl, hover, hneg, htotal⟩
  rintro _ ⟨⟩
  exact hsummary

end Input

end

end PRF.Economics
