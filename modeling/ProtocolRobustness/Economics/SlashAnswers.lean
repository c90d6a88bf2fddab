import Mathlib.Data.List.ReduceOption
import ProtocolRobustness.Economics.SlashShares

/-!
# A slash distribution is built from regular input

* `resolveAward_gives`, `processStep_gives`   an award and a step that were checked are paid or not,
                       without an exception, and what is committed of them is canonical;
* `Running`            what the steps keep: the pool stays below the gross amount, and the numbers so far
                       are within the loads of the steps so far;
* `regular_uniform`    on regular input the engine answers, and what it accepts is well formed.
-/

namespace PRF.SlashShapes
open Datum Table LongArith
open Economics (HostAmounts Share Calculation Summary Payout)

/-! ## what is committed -/

structure FitCalculation (c : Calculation Datum) : Prop where
  awardId : c.awardId.encodable
  parameterKey : (parameterKeyOf c).isKey

structure FitAward (a : Award) : Prop where
  canonical : a.encodable
  funding : keyed a.funding
  destination : a.allocationId.truthy → a.allocationId.isKey

theorem FitCalculation.canonical {c : Calculation Datum} (h : FitCalculation c) :
    encodableCalculation c := by
  simp [encodableCalculation, h.awardId, encodable_of_isKey h.parameterKey]

theorem awardCalculation_fit {values allocation item id : Datum} {gross : HostInt}
    {c : Calculation Datum} (hw : WellFormed allocation item)
    (hr : RegularItem values allocation item) (hid : id.encodable)
    (hc : awardCalculation gross (item.get "amount") values id = some c) :
    c.awardId = id ∧ FitCalculation c := by
  unfold awardCalculation at hc
  split at hc
  · next hm =>
    obtain ⟨share, -, rfl⟩ := Option.map_eq_some_iff.mp hc
    have hcap : capabilityId ((item.get "amount").get "method")
        = some (some "prf/rate-of-gross") := by
      rw [hm]
      decide +kernel
    exact ⟨rfl, hid, hr.parameterKey (hw.parameterKey hcap)⟩
  · cases hc

theorem mismatches_trigger {policyElig resolved : Datum} (h : mismatches policyElig resolved = []) :
    policyElig.get "trigger" = (resolved.get "eligibility").get "trigger" := by
  simp only [mismatches, List.append_eq_nil_iff, flag_eq_nil, not_not] at h
  exact h.1.1.1

theorem Award.encodable_iff {a : Award} : a.encodable ↔
    a.id.encodable ∧ a.trigger.encodable ∧ a.evidenceReference.encodable ∧ a.beneficiary.encodable ∧
    keyed a.funding ∧ a.allocationId.encodable ∧ a.obligationKind.encodable ∧
    a.calculation.all encodableCalculation := by
  simp only [Award.encodable, decide_eq_true_eq]

theorem StepRecord.encodable_iff {s : StepRecord} : s.encodable ↔
    s.id.encodable ∧ s.basis.encodable ∧ s.onIneligible.encodable ∧ s.onFailure.encodable := by
  simp only [StepRecord.encodable, decide_eq_true_eq]

def Award.load (a : Award) : ℤ := a.funding.mass + a.amount.load

/-- a calculation whose numbers are within a load -/
def Bounded (load : ℤ) (c : Calculation Datum) : Prop :=
  c.amount.load ≤ load ∧ c.roundingRemainder.load ≤ load

/-- what becomes of the resolved award under an identifier, within its load -/
structure FitOutcome (id : Datum) (load : ℤ) (o : Outcome) : Prop where
  award : ∀ a, o.award = some a → a.id = id ∧ FitAward a ∧ a.load ≤ load
  calculation : ∀ c, o.calculation = some c → c.awardId = id ∧ FitCalculation c ∧ Bounded load c

theorem resolveAward_gives {values allocation policyAward r : Datum} {gross : HostInt}
    (hw : WellFormed allocation policyAward) (hr : RegularItem values allocation policyAward)
    (he : policyAward.encodable) (hp : Payable gross values policyAward r)
    (hl : itemLoad gross values policyAward r < 2 ^ 63) (hres : RegularResolved r)
    (hid : (r.get "award/id").encodable) :
    Gives (resolveAward gross policyAward r values)
      (FitOutcome (r.get "award/id") (itemLoad gross values policyAward r)) := by
  have hcalc : ∀ c, awardCalculation gross (policyAward.get "amount") values (r.get "award/id")
      = some c → c.awardId = r.get "award/id" ∧ FitCalculation c
        ∧ Bounded (itemLoad gross values policyAward r) c := fun c hc => by
    obtain ⟨hcid, hfit⟩ := awardCalculation_fit hw hr hid hc
    exact ⟨hcid, hfit, calculation_load (Below.refl gross) hc⟩
  have hunpaid : ∀ findings, FitOutcome (r.get "award/id") (itemLoad gross values policyAward r)
      ⟨none, awardCalculation gross (policyAward.get "amount") values (r.get "award/id"), findings⟩ :=
    fun _ => ⟨fun _ ha => (by cases ha), hcalc⟩
  unfold resolveAward
  refine Gives.bind (hp.amount_gives hr (Below.refl gross)) fun amount hamount => ?_
  cases amount with
  | none => exact Gives.some (hunpaid _)
  | some amount =>
    obtain ⟨full, hfull, hwithin⟩ := hamount amount rfl
    refine Gives.ite (fun _ => Gives.some (hunpaid _)) fun _ => ?_
    refine Gives.ite (fun _ => Gives.some (hunpaid _)) fun hm => ?_
    refine Gives.bind (hp.funding_gives hw hr he hl hfull hwithin) fun f hf => ?_
    obtain ⟨m, rfl, hkeyed, hload⟩ := hf
    refine Gives.some ⟨fun a ha => ?_, hcalc⟩
    cases ha
    refine ⟨rfl, ⟨?_, hkeyed, hr.destination⟩, hload⟩
    have htrigger : ((r.get "eligibility").get "trigger").encodable := by
      rw [← mismatches_trigger (not_not.mp hm)]
      exact encodable_get (encodable_get he _) _
    have halloc : ((policyAward.get "settlement").get "allocation-id").encodable :=
      encodable_get (encodable_get he _) _
    have hkind : ((policyAward.get "settlement").get "obligation-kind").encodable :=
      encodable_get (encodable_get he _) _
    have hall : (awardCalculation gross (policyAward.get "amount") values (r.get "award/id")).all
        encodableCalculation := by
      rw [Option.all_eq_true]
      exact fun c hc => (hcalc c hc).2.1.canonical
    exact Award.encodable_iff.mpr ⟨hid, htrigger, hres.evidenceReference, hres.beneficiary, hkeyed,
      halloc, hkind, hall⟩

structure FitProgress (load : ℤ) (p : Progress) : Prop where
  awards : ∀ a ∈ p.awards, FitAward a
  calculations : ∀ c ∈ p.calculations.reduceOption, FitCalculation c
  steps : ∀ s ∈ p.steps, s.encodable
  awardLoad : (p.awards.map Award.load).sum ≤ load
  amountLoad : (p.calculations.reduceOption.map fun c => c.amount.load).sum ≤ load
  remainderLoad : (p.calculations.reduceOption.map fun c => c.roundingRemainder.load).sum ≤ load

/-! ## steps -/

theorem stepRecord_encodable {step basis : Datum} (he : step.encodable) (hb : basis.encodable)
    (index : ℕ) (value amount remaining : ℤ) (status : Economics.StepStatus) :
    (stepRecord step index basis value amount remaining status).encodable := by
  have h1 : ((step.get "on-ineligible").orElse (kw "omit")).encodable :=
    encodable_orElse (encodable_get he _) rfl
  have h2 : ((step.get "on-failure").orElse (kw "abort")).encodable :=
    encodable_orElse (encodable_get he _) rfl
  exact StepRecord.encodable_iff.mpr ⟨encodable_get he _, hb, h1, h2⟩

/-- what the steps so far keep, with their load -/
structure Running (gross : HostInt) (load : ℤ) (p : Progress) : Prop extends FitProgress load p where
  nonneg : 0 ≤ load
  pool : Below p.pool gross
  poolLoad : p.pool.load ≤ gross.load + load
  outputs : ∀ e ∈ p.outputs, Below e.2 gross

section
variable {gross : HostInt} {load more : ℤ} {acc : Progress}

theorem Running.mono (h : Running gross load acc) (hmore : 0 ≤ more) :
    Running gross (load + more) acc := by
  have ha := h.awardLoad
  have hm := h.amountLoad
  have hr := h.remainderLoad
  have hp := h.poolLoad
  have h0 := h.nonneg
  exact ⟨⟨h.awards, h.calculations, h.steps, by omega, by omega, by omega⟩, by omega, h.pool, by omega,
    h.outputs⟩

theorem Running.fail (h : Running gross load acc) (f : Finding) : Running gross load (acc.fail f) :=
  ⟨⟨h.awards, h.calculations, h.steps, h.awardLoad, h.amountLoad, h.remainderLoad⟩, h.nonneg, h.pool,
    h.poolLoad, h.outputs⟩

theorem Running.pass (h : Running gross load acc) {record : StepRecord} (hr : record.encodable) :
    Running gross load (acc.pass record) := by
  refine ⟨⟨h.awards, h.calculations, fun s hs => ?_, h.awardLoad, h.amountLoad, h.remainderLoad⟩,
    h.nonneg, h.pool, h.poolLoad, h.outputs⟩
  rcases List.mem_append.mp hs with hs | hs
  · exact h.steps s hs
  · exact List.mem_singleton.mp hs ▸ hr

theorem reduceOption_load {calculations : List (Option (Calculation Datum))}
    {calculation : Option (Calculation Datum)} {f : Calculation Datum → HostInt} (hmore : 0 ≤ more)
    (h : (calculations.reduceOption.map fun c => (f c).load).sum ≤ load)
    (hc : ∀ c, calculation = some c → (f c).load ≤ more) :
    (((calculations ++ [calculation]).reduceOption).map fun c => (f c).load).sum ≤ load + more := by
  rw [List.reduceOption_append, List.map_append, List.sum_append]
  cases calculation with
  | none => simpa using h.trans (le_add_of_nonneg_right hmore)
  | some c => simpa using add_le_add h (hc c rfl)

theorem Running.apply (h : Running gross load acc) {step basis : Datum} {value amount pool : HostInt}
    {funding : HostAmounts Datum} {calculation : Option (Calculation Datum)} (he : step.encodable)
    (hb : basis.encodable) (hpool : acc.pool.sub? amount = some pool) (hamount : 0 ≤ amount.value)
    (hpoolLoad : pool.load ≤ acc.pool.load + amount.load)
    (ha : FitAward (stepAward step amount funding calculation))
    (hload : funding.mass + amount.load ≤ more)
    (hc : ∀ c, calculation = some c → FitCalculation c ∧ Bounded more c) :
    Running gross (load + more) (acc.apply step basis value amount pool funding calculation) := by
  have hmass := funding.mass_nonneg
  have hamountLoad := amount.load_nonneg
  have hold := h.poolLoad
  have h0 := h.nonneg
  have hbelow : Below pool gross := by
    have hvalue : pool.value = acc.pool.value - amount.value := HostInt.hold_value hpool
    have hbig : pool.big = false → acc.pool.big = false := fun hlong => by
      have hheld := HostInt.hold_big hpool
      rw [hlong] at hheld
      exact (Bool.or_eq_false_iff.mp hheld.symm).1
    have hle := h.pool.le
    exact ⟨by omega, fun hlong => h.pool.long (hbig hlong)⟩
  constructor
  · constructor
    · intro a hmem
      rcases List.mem_append.mp hmem with hmem | hmem
      · exact h.awards a hmem
      · exact List.mem_singleton.mp hmem ▸ ha
    · intro c hmem
      rw [List.reduceOption_mem_iff] at hmem
      rcases List.mem_append.mp hmem with hmem | hmem
      · exact h.calculations c (List.reduceOption_mem_iff.mpr hmem)
      · exact (hc c (List.mem_singleton.mp hmem).symm).1
    · intro s hmem
      rcases List.mem_append.mp hmem with hmem | hmem
      · exact h.steps s hmem
      · exact List.mem_singleton.mp hmem ▸ stepRecord_encodable he hb _ _ _ _ _
    · show ((acc.awards ++ [stepAward step amount funding calculation]).map Award.load).sum ≤ _
      rw [List.map_append, List.sum_append, List.map_singleton, List.sum_singleton]
      exact add_le_add h.awardLoad hload
    · exact reduceOption_load (by omega) h.amountLoad fun c hcalc => (hc c hcalc).2.1
    · exact reduceOption_load (by omega) h.remainderLoad fun c hcalc => (hc c hcalc).2.2
  · omega
  · exact hbelow
  · show pool.load ≤ _
    omega
  · intro e hmem
    rcases mem_put hmem with rfl | ⟨hmem, -⟩
    · exact hbelow
    · exact h.outputs e hmem

end

theorem resolveStepBasis_below {basis : Datum} {gross value : HostInt} {load : ℤ} {acc : Progress}
    (h : Running gross load acc)
    (hv : resolveStepBasis basis gross acc.pool acc.outputs = some value) : Below value gross := by
  unfold resolveStepBasis at hv
  split at hv
  · exact Option.some.inj hv ▸ Below.refl gross
  split at hv
  · exact Option.some.inj hv ▸ h.pool
  split at hv
  · exact h.outputs _ (mem_of_find hv)
  · cases hv

theorem processStep_gives {values allocation step : Datum} {gross : HostInt} {load : ℤ}
    (hr : RegularStep values allocation step) (hw : WellFormed allocation step)
    (he : step.encodable) (hp : Payable gross values step null)
    (hl : gross.load + (load + itemLoad gross values step null) < 2 ^ 63) {acc : Progress}
    (hacc : Running gross load acc) :
    Gives (processStep gross values acc step) (Running gross (load + itemLoad gross values step null)) := by
  have hb : ((step.get "basis").orElse grossBasis).encodable :=
    encodable_orElse (encodable_get he _) rfl
  have hgross := gross.load_nonneg
  have h0 := hacc.nonneg
  have hitem : 0 ≤ itemLoad gross values step null := itemLoad_nonneg
  have hkept := hacc.mono hitem
  unfold processStep
  dsimp only
  refine Gives.ite (fun _ => Gives.some hkept) fun _ => ?_
  cases hbasis : resolveStepBasis ((step.get "basis").orElse grossBasis) gross acc.pool acc.outputs with
  | none => exact Gives.some (hkept.fail _)
  | some value =>
    have hbelow := resolveStepBasis_below hacc hbasis
    refine Gives.ite (fun _ => Gives.some (hkept.pass (stepRecord_encodable he hb _ _ _ _ _)))
      fun _ => ?_
    refine Gives.bind (hp.amount_gives hr.toRegularItem hbelow) fun amount hamount => ?_
    cases amount with
    | none => exact Gives.some (hkept.fail _)
    | some amount =>
      obtain ⟨full, hfull, hwithin⟩ := hamount amount rfl
      refine Gives.ite (fun _ => Gives.some (hkept.fail _)) fun _ => ?_
      refine Gives.ite (fun _ => Gives.some (hkept.pass (stepRecord_encodable he hb _ _ _ _ _)))
        fun _ => ?_
      refine Gives.bind (hp.funding_gives hw hr.toRegularItem he (by omega) hfull hwithin) fun f hf => ?_
      obtain ⟨m, rfl, hkeyed, hload⟩ := hf
      have hmass := m.mass_nonneg
      have hpool := hacc.poolLoad
      obtain ⟨pool, hsub, -, -, hpoolLoad⟩ : ∃ pool, acc.pool.sub? amount = some pool ∧ _ :=
        HostInt.sub?_of_load (by omega)
      dsimp only
      rw [hsub, Option.bind_eq_bind, Option.bind_some]
      have hcalc : ∀ c, awardCalculation value (step.get "amount") values (step.get "step/id")
          = some c → FitCalculation c ∧ Bounded (itemLoad gross values step null) c := fun c hc =>
        ⟨(awardCalculation_fit hw hr.toRegularItem (encodable_get he _) hc).2,
          calculation_load hbelow hc⟩
      refine Gives.some (hacc.apply he hb hsub hwithin.nonneg hpoolLoad ⟨?_, hkeyed, hr.destination⟩
        hload hcalc)
      have hall : (awardCalculation value (step.get "amount") values (step.get "step/id")).all
          encodableCalculation := by
        rw [Option.all_eq_true]
        exact fun c hc => (hcalc c hc).1.canonical
      have hpart : ∀ k k', ((step.get k).get k').encodable :=
        fun k k' => encodable_get (encodable_get he k) k'
      exact Award.encodable_iff.mpr ⟨encodable_get he _, hpart _ _, hpart _ _, hpart _ _, hkeyed,
        hpart _ _, hpart _ _, hall⟩

theorem foldlM_steps_give {values allocation : Datum} {gross : HostInt} {steps : List Datum}
    (h : ∀ s ∈ steps, RegularStep values allocation s ∧ WellFormed allocation s ∧ s.encodable ∧
      Payable gross values s null) {load : ℤ} {acc : Progress} (hacc : Running gross load acc)
    (hl : gross.load + (load + (steps.map fun s => itemLoad gross values s null).sum) < 2 ^ 63) :
    Gives (steps.foldlM (processStep gross values) acc)
      (Running gross (load + (steps.map fun s => itemLoad gross values s null).sum)) := by
  induction steps generalizing load acc with
  | nil => exact Gives.some (by simpa using hacc)
  | cons s steps ih =>
    obtain ⟨⟨hr, hw, he, hp⟩, hrest⟩ := List.forall_mem_cons.mp h
    rw [List.map_cons, List.sum_cons, ← add_assoc load] at hl ⊢
    have htail : 0 ≤ (steps.map fun s => itemLoad gross values s null).sum :=
      List.sum_nonneg fun x hx => by
        obtain ⟨t, -, rfl⟩ := List.mem_map.mp hx
        exact itemLoad_nonneg
    rw [List.foldlM_cons]
    refine Gives.bind (processStep_gives hr hw he hp (by omega) hacc) fun acc' hacc' => ?_
    exact ih hrest hacc' hl

theorem processSteps_gives {values allocation : Datum} {gross : HostInt} {steps : List Datum}
    (h : ∀ s ∈ steps, RegularStep values allocation s ∧ WellFormed allocation s ∧ s.encodable ∧
      Payable gross values s null)
    (hl : gross.load + (steps.map fun s => itemLoad gross values s null).sum < 2 ^ 63) :
    Gives (processSteps gross values steps)
      (FitProgress (steps.map fun s => itemLoad gross values s null).sum) := by
  have hstart : Running gross 0 ⟨[], [], [], [], gross, 0, []⟩ :=
    ⟨⟨fun _ ha => (by cases ha), fun _ hc => (by cases hc), fun _ hs => (by cases hs), le_rfl, le_rfl,
      le_rfl⟩, le_rfl, Below.refl gross, (add_zero _).ge, fun _ he => (by cases he)⟩
  refine (foldlM_steps_give h hstart (by rwa [zero_add])).mono fun p hp => ?_
  rw [zero_add] at hp
  exact hp.toFitProgress

/-! ## awards -/

theorem sortBy_gives {α : Type} {id : α → Datum} {l : List α} (hn : (l.map id).Nodup)
    (hc : Comparable (l.map id)) : Gives (sortBy id l) fun l' => l'.Perm l := by
  have hpair : l.Pairwise fun x y => (compareData (id x) (id y)).isSome := by
    refine (List.pairwise_map.mp hn).imp_of_mem fun hx hy hne => ?_
    exact hc _ (List.mem_map_of_mem hx) _ (List.mem_map_of_mem hy) hne
  unfold sortBy
  rw [if_pos hpair]
  exact Gives.some (List.perm_insertionSort _ _)

theorem filterMap_ids {α β γ : Type} {f : β → Option α} {id : α → Datum} {key : γ → Datum}
    {rs : List γ} {os : List β}
    (h : List.Forall₂ (fun r o => ∀ a, f o = some a → id a = key r) rs os) :
    ((os.filterMap f).map id).Sublist (rs.map key) := by
  induction h with
  | nil => exact List.Sublist.slnil
  | @cons r o rs os hro h ih =>
    cases ho : f o with
    | none =>
      rw [List.filterMap_cons_none ho]
      exact ih.cons _
    | some a =>
      rw [List.filterMap_cons_some ho, List.map_cons, List.map_cons, hro a ho]
      exact ih.cons_cons _

theorem filterMap_load {α β γ : Type} {f : β → Option α} {load : α → ℤ} {bound : γ → ℤ} {rs : List γ}
    {os : List β} (h0 : ∀ r, 0 ≤ bound r)
    (h : List.Forall₂ (fun r o => ∀ a, f o = some a → load a ≤ bound r) rs os) :
    ((os.filterMap f).map load).sum ≤ (rs.map bound).sum := by
  induction h with
  | nil => exact le_rfl
  | @cons r o rs os hro h ih =>
    rw [List.map_cons, List.sum_cons]
    cases ho : f o with
    | none =>
      rw [List.filterMap_cons_none ho]
      exact ih.trans (le_add_of_nonneg_left (h0 r))
    | some a =>
      rw [List.filterMap_cons_some ho, List.map_cons, List.sum_cons]
      exact add_le_add (hro a ho) ih

theorem Comparable.subset {ids ids' : List Datum} (h : Comparable ids') (hs : ids ⊆ ids') :
    Comparable ids := fun x hx y hy => h x (hs hx) y (hs hy)

theorem awardFor_mem {awards : List Datum} {id : Datum} (ht : id.truthy)
    (h : id ∈ awards.map fun a => a.get "award/id") :
    awardFor awards id ∈ awards ∧ (awardFor awards id).get "award/id" = id := by
  obtain ⟨a, ha, rfl⟩ := List.mem_map.mp h
  have hat : a.truthy := by
    by_contra hn
    match a, hn, ht with
    | .atom x, _, ht => cases ht
    | .vec xs, _, ht => cases ht
    | .set xs, hn, _ => exact hn (by simp [truthy, null, Datum.bool])
    | .map es, hn, _ => exact hn (by simp [truthy, null, Datum.bool])
  unfold awardFor
  cases hf : awards.find? fun x => x.get "award/id" = a.get "award/id" ∧ x.truthy with
  | none =>
    have hno := List.find?_eq_none.mp hf a ha
    exact absurd (decide_eq_true ⟨rfl, hat⟩) hno
  | some x =>
    have hx := List.find?_some hf
    exact ⟨List.mem_of_find?_eq_some hf, (of_decide_eq_true hx).1⟩

/-! ## the keys of what is aggregated -/

/-- what is added up of awards that fit -/
structure FitPayout (p : Payout Datum) : Prop where
  funding : keyed p.funding
  destination : ∀ id ∈ p.allocationId, id.isKey

theorem FitAward.payout {a : Award} (h : FitAward a) : FitPayout a.payout := by
  refine ⟨h.funding, fun id hid => ?_⟩
  have hid : (if a.allocationId.truthy then some a.allocationId else none) = some id := hid
  split at hid
  · next ht => exact Option.some.inj hid ▸ h.destination ht
  · cases hid

section
variable {base : HostAmounts Datum} {payouts : List (Payout Datum)}

theorem keyed_deductions (h : ∀ p ∈ payouts, FitPayout p) : keyed (Economics.deductions payouts) := by
  refine List.foldlRecOn (motive := fun m : HostAmounts Datum => keyed m) payouts _ rfl
    fun acc hacc p hp => ?_
  rw [keyed_iff] at hacc ⊢
  intro id hid
  rcases HostAmounts.mem_ids_merge.mp hid with hid | hid
  · exact hacc id hid
  · exact keyed_iff.mp (h p hp).funding id hid

theorem keyed_settlements (h : ∀ p ∈ payouts, FitPayout p) : keyed (Economics.settlements payouts) := by
  refine List.foldlRecOn (motive := fun m : HostAmounts Datum => keyed m) payouts _ rfl
    fun acc hacc p hp => ?_
  unfold Economics.settle
  split
  · next dest hdest =>
    rw [keyed_iff] at hacc ⊢
    intro id hid
    rcases HostAmounts.mem_ids_add.mp hid with hid | rfl
    · exact hacc id hid
    · exact (h p hp).destination _ hdest
  · exact hacc

theorem keyed_finalAllocations (hb : keyed base) (h : ∀ p ∈ payouts, FitPayout p) :
    keyed (Economics.finalAllocations base payouts) := by
  rw [keyed_iff]
  intro id hid
  have hid : id ∈ Economics.allocationIds base payouts := HostAmounts.mem_ids_tabulate.mp hid
  rcases List.mem_append.mp hid with hid | hid
  · exact keyed_iff.mp hb id hid
  rcases List.mem_append.mp hid with hid | hid
  · exact keyed_iff.mp (keyed_deductions h) id hid
  · exact keyed_iff.mp (keyed_settlements h) id hid

end

theorem summary_keys {calculations : List (Calculation Datum)}
    (h : ∀ c ∈ calculations, FitCalculation c) :
    ∀ k ∈ (Economics.summarize calculations).amountByParameterKey.ids, (k.getD null).isKey := by
  show ∀ k ∈ (calculations.foldl (fun acc c => acc.add c.parameterKey c.share.amount)
    Economics.Amounts.empty).ids, _
  refine List.foldlRecOn (motive := fun m : Economics.Amounts (Option Datum) =>
    ∀ k ∈ m.ids, (k.getD null).isKey) calculations _ nofun fun acc hacc c hc => ?_
  intro k hk
  rcases Economics.Amounts.mem_ids_add.mp hk with hk | rfl
  · exact hacc k hk
  · exact (h c hc).parameterKey

namespace Input
variable {env : Env} {i : Input}

/-- what the checks have made sure of where they find nothing -/
structure Checked (i : Input) : Prop where
  gross : i.gross.int?.isSome
  policy : i.policy.truthy
  validated : validatePolicy i.policy = some []
  policyRoot : i.policyRoot.truthy → i.policyRoot.encodable
  resolvedIds : ∀ resolved awards, i.resolvedAwards.seq? = some resolved →
    (i.policy.get "awards").seq? = some awards →
    (resolved.map fun r => r.get "award/id").Nodup ∧ ∀ r ∈ resolved,
      r.get "award/id" ∈ (awards.map fun a => a.get "award/id") ∧ (r.get "award/id").truthy

theorem Checked.awards (hc : Checked i) {awards : List Datum}
    (h : (i.policy.get "awards").seq? = some awards) :
    ∀ a ∈ awards, validatePolicyAward i.allocation a = some [] :=
  (validatePolicy_eq_nil hc.validated).2 awards h

theorem Regular.awards_wellFormed (h : i.Regular) (hc : Checked i) {awards : List Datum}
    (ha : (i.policy.get "awards").seq? = some awards) {a : Datum} (hmem : a ∈ awards) :
    WellFormed i.allocation a ∧ RegularItem i.values i.allocation a ∧ a.encodable := by
  have hr := h.awards.of_eq ha a hmem
  have he := encodable_seq (encodable_get (h.policy hc.policy).canonical "awards") ha a hmem
  refine ⟨?_, hr, he⟩
  by_cases hn : Namespaced a
  · exact (h.unchecked hc.validated).awards awards ha a hmem hn
  · exact wellFormed_of_validated hn (hc.awards ha a hmem)

/-- the load of what may be paid -/
def dueLoad (i : Input) (gross : HostInt) : ℤ :=
  (i.dues.map fun due => itemLoad gross i.values due.1 due.2).sum

theorem itemLoad_le (gross : HostInt) {due : Datum × Datum} (h : due ∈ i.dues) :
    itemLoad gross i.values due.1 due.2 ≤ i.dueLoad gross := by
  refine List.single_le_sum (fun x hx => ?_) _ (List.mem_map_of_mem h)
  obtain ⟨d, -, rfl⟩ := List.mem_map.mp hx
  exact itemLoad_nonneg

theorem Small.dueLoad_lt {gross : HostInt} (h : i.Small gross) :
    gross.load + i.dueLoad gross < 2 ^ 63 := by
  have htotal : divisionLoad gross i.allocation + i.dueLoad gross < 2 ^ 63 := h.total
  have hshare := shareLoad_nonneg gross i.allocation
  unfold divisionLoad at htotal
  omega

theorem Regular.resolveAwards (h : i.Regular) (hc : Checked i) {gross : HostInt}
    (hsmall : i.Small gross) (hs : ¬ (i.policy.get "steps").truthy) :
    Gives (i.resolveAwards gross) (FitProgress (i.dueLoad gross)) := by
  unfold Input.resolveAwards
  refine Gives.bind h.resolved.with_eq fun resolved ⟨hresolved, hcomp, hreg⟩ => ?_
  refine Gives.bind h.awards.with_eq fun awards ⟨hawards, _⟩ => ?_
  obtain ⟨hnodup, hknown⟩ := hc.resolvedIds resolved awards hresolved hawards
  have hdues : i.dues = resolved.map fun r => (awardFor awards (r.get "award/id"), r) := by
    rw [dues, if_neg hs, hresolved, hawards]
    rfl
  have hgross := gross.load_nonneg
  have hlt := hsmall.dueLoad_lt
  refine Gives.bind (Gives.mapM (R := fun r o => FitOutcome (r.get "award/id")
    (itemLoad gross i.values (awardFor awards (r.get "award/id")) r) o) fun r hr => ?_)
    fun outcomes houtcomes => ?_
  · obtain ⟨hid, ht⟩ := hknown r hr
    obtain ⟨hmem, hget⟩ := awardFor_mem ht hid
    obtain ⟨hw, hri, he⟩ := h.awards_wellFormed hc hawards hmem
    have hdue : (awardFor awards (r.get "award/id"), r) ∈ i.dues := hdues ▸ List.mem_map_of_mem hr
    have hitem := itemLoad_le gross hdue
    dsimp only at hitem
    exact resolveAward_gives hw hri he (hsmall.dues _ hdue) (by omega) (hreg r hr)
      (hget ▸ encodable_get he _)
  have hpaid : ((outcomes.filterMap Outcome.award).map Award.id).Sublist
      (resolved.map fun r => r.get "award/id") :=
    filterMap_ids (houtcomes.imp fun r o ho a ha => (ho.award a ha).1)
  have hcalc : ((outcomes.filterMap Outcome.calculation).map Calculation.awardId).Sublist
      (resolved.map fun r => r.get "award/id") :=
    filterMap_ids (houtcomes.imp fun r o ho c hc => (ho.calculation c hc).1)
  have hload : i.dueLoad gross = (resolved.map fun r =>
      itemLoad gross i.values (awardFor awards (r.get "award/id")) r).sum := by
    rw [dueLoad, hdues, List.map_map]
    rfl
  refine Gives.bind (sortBy_gives (hpaid.nodup hnodup) (hcomp.subset hpaid.subset))
    fun paid hpaidPerm => ?_
  refine Gives.bind (sortBy_gives (hcalc.nodup hnodup) (hcomp.subset hcalc.subset))
    fun calculations hcalcPerm => ?_
  have hreduce : (calculations.map some).reduceOption = calculations := by
    unfold List.reduceOption
    rw [List.filterMap_map]
    exact List.filterMap_some
  refine Gives.some ⟨fun a ha => ?_, fun c hcm => ?_, nofun, ?_, ?_, ?_⟩
  · obtain ⟨o, ho, hoa⟩ := List.mem_filterMap.mp (hpaidPerm.mem_iff.mp ha)
    obtain ⟨r, -, hro⟩ := Fallible.exists_of_mem_right houtcomes ho
    exact (hro.award a hoa).2.1
  · have hcm : c ∈ calculations := hreduce ▸ hcm
    obtain ⟨o, ho, hoc⟩ := List.mem_filterMap.mp (hcalcPerm.mem_iff.mp hcm)
    obtain ⟨r, -, hro⟩ := Fallible.exists_of_mem_right houtcomes ho
    exact (hro.calculation c hoc).2.1
  · show (paid.map Award.load).sum ≤ _
    rw [(hpaidPerm.map Award.load).sum_eq, hload]
    exact filterMap_load (fun _ => itemLoad_nonneg) (houtcomes.imp fun r o ho a ha => (ho.award a ha).2.2)
  · show ((calculations.map some).reduceOption.map fun c => c.amount.load).sum ≤ _
    rw [hreduce, (hcalcPerm.map fun c => c.amount.load).sum_eq, hload]
    exact filterMap_load (fun _ => itemLoad_nonneg)
      (houtcomes.imp fun r o ho c hc => (ho.calculation c hc).2.2.1)
  · show ((calculations.map some).reduceOption.map fun c => c.roundingRemainder.load).sum ≤ _
    rw [hreduce, (hcalcPerm.map fun c => c.roundingRemainder.load).sum_eq, hload]
    exact filterMap_load (fun _ => itemLoad_nonneg)
      (houtcomes.imp fun r o ho c hc => (ho.calculation c hc).2.2.2)

theorem Regular.awarded (h : i.Regular) (hc : Checked i) {gross : HostInt} (hsmall : i.Small gross) :
    Gives (i.awarded gross) (FitProgress (i.dueLoad gross)) := by
  unfold Input.awarded
  refine Gives.ite (fun hs => ?_) fun hs => h.resolveAwards hc hsmall hs
  have hsteps := h.steps
  rw [stepsOf, if_pos hs] at hsteps
  refine Gives.bind hsteps.with_eq fun steps hboth => ?_
  obtain ⟨heq, hall⟩ := hboth
  have hof : stepsOf i.policy = some steps := (if_pos hs).trans heq
  have hw := (h.unchecked hc.validated).steps steps hof
  have he := encodable_seq (encodable_get (h.policy hc.policy).canonical "steps") heq
  have hdues : i.dues = steps.map fun step => (step, null) := by
    rw [dues, if_pos hs, heq]
    rfl
  have hload : i.dueLoad gross = (steps.map fun s => itemLoad gross i.values s null).sum := by
    rw [dueLoad, hdues, List.map_map]
    rfl
  have hlt := hsmall.dueLoad_lt
  rw [hload] at hlt ⊢
  refine processSteps_gives (fun s hmem => ⟨hall s hmem, hw s hmem, he s hmem, ?_⟩) hlt
  exact hsmall.dues (s, null) (hdues ▸ List.mem_map_of_mem hmem)

theorem Regular.base (h : i.Regular) (hc : Checked i) {gross : HostInt} (hsmall : i.Small gross) :
    Gives (computeAllocation gross i.allocation) fun m =>
      keyed m ∧ m.mass ≤ divisionLoad gross i.allocation := by
  have hf := (validatePolicy_eq_nil hc.validated).1
  have hp := h.policy hc.policy
  obtain ⟨hid, hplain⟩ := allocationFindings_eq_nil hp.allocation hf
  have hscaled : Scaled (i.policy.get "allocation") := by
    by_cases hm : (i.policy.get "allocation").get "method" = kw "prf/weighted"
    · exact (h.unchecked hc.validated).allocation hm
    · exact hplain hm
  obtain ⟨es, hd⟩ := hscaled.divides (encodable_get hp.canonical "allocation")
  have hlt : divisionLoad gross i.allocation < 2 ^ 63 := by
    have htotal : divisionLoad gross i.allocation + i.dueLoad gross < 2 ^ 63 := hsmall.total
    have hdue : 0 ≤ i.dueLoad gross := List.sum_nonneg fun x hx => by
      obtain ⟨d, -, rfl⟩ := List.mem_map.mp hx
      exact itemLoad_nonneg
    omega
  unfold computeAllocation
  rw [show i.allocation = i.policy.get "allocation" from rfl, hid]
  exact shares_gives hd hsmall.allocation hlt

theorem Regular.distribution_encodable (h : i.Regular) (hc : Checked i) {base : HostAmounts Datum}
    {progress : Progress} {load : ℤ} (hb : keyed base) (hp : FitProgress load progress)
    (gross : HostInt) (root : String) (extensions : Snapshot) :
    (i.distribution gross root extensions base progress).encodable := by
  have hroot : (i.policyRoot.orElse (str root)).encodable := by
    unfold orElse
    split
    · next ht => exact hc.policyRoot ht
    · rfl
  have hawards : progress.awards.all Award.encodable :=
    List.all_eq_true.mpr fun a ha => (hp.awards a ha).canonical
  have hcalcs : progress.calculations.reduceOption.all encodableCalculation :=
    List.all_eq_true.mpr fun c hmem => (hp.calculations c hmem).canonical
  have hsummary : (Economics.summarize progress.calculations.reduceOption).amountByParameterKey.ids.all
      fun k => (k.getD null).isKey := List.all_eq_true.mpr (summary_keys hp.calculations)
  have hpayouts : ∀ p ∈ progress.awards.map Award.payout, FitPayout p :=
    List.forall_mem_map.mpr fun a ha => (hp.awards a ha).payout
  have hsteps : (if (i.policy.get "steps").truthy then some progress.steps else none).all
      fun steps => steps.all StepRecord.encodable := by
    split
    · exact List.all_eq_true.mpr hp.steps
    · rfl
  simp only [Distribution.encodable, decide_eq_true_eq]
  exact ⟨h.context hc.policy, hroot, h.parameterContext hc.policy, hb, hawards, hcalcs, hsummary,
    keyed_finalAllocations hb hpayouts, hsteps⟩

theorem payouts_load {awards : List Award} {load : ℤ} (h : (awards.map Award.load).sum ≤ load) :
    Economics.fundingLoad (awards.map Award.payout) + Economics.amountLoad (awards.map Award.payout)
      ≤ load := by
  unfold Economics.fundingLoad Economics.amountLoad
  rw [List.map_map, List.map_map, ← List.sum_map_add]
  exact h

theorem Regular.settle (h : i.Regular) (hc : Checked i) {gross : HostInt} (hsmall : i.Small gross)
    (root : String) (extensions : Snapshot) :
    Gives (i.settle env gross root extensions) fun _ => True := by
  have htotal : divisionLoad gross i.allocation + i.dueLoad gross < 2 ^ 63 := hsmall.total
  have hshare := shareLoad_nonneg gross i.allocation
  have hgross := gross.load_nonneg
  have hbase0 : 0 ≤ divisionLoad gross i.allocation := by
    unfold divisionLoad
    omega
  unfold Input.settle
  refine Gives.bind (h.base hc hsmall) fun base ⟨hb, hmass⟩ => ?_
  refine Gives.bind (h.awarded hc hsmall) fun progress hp => ?_
  have hload := payouts_load hp.awardLoad
  have hamount := hp.amountLoad
  have hremainder := hp.remainderLoad
  have hamount0 : 0 ≤ Economics.amountLoad (progress.awards.map Award.payout) :=
    Economics.sum_load_nonneg _ _
  have hsummary : Economics.SummaryCarries progress.calculations.reduceOption :=
    Economics.summaryCarries (by omega) (by omega)
  have hdeductions : Economics.DeductionsCarry (progress.awards.map Award.payout) :=
    Economics.deductionsCarry (by omega)
  obtain ⟨hbalances, hfinal⟩ : Economics.BalancesCarry base (progress.awards.map Award.payout) ∧ _ :=
    Economics.balancesCarry (by omega)
  dsimp only
  refine Gives.ite (fun _ => Gives.some trivial) fun _ => ?_
  rw [if_neg (not_not.mpr ⟨hsummary, hdeductions⟩)]
  refine Gives.ite (fun _ => Gives.some trivial) fun _ => ?_
  rw [if_neg (not_not.mpr hbalances)]
  refine Gives.ite (fun _ => Gives.some trivial) fun _ => ?_
  rw [if_neg (not_not.mpr hfinal)]
  refine Gives.ite (fun _ => ?_) fun _ => ?_
  · rw [if_pos (Economics.totalsCarry (by omega))]
    exact Gives.some trivial
  · rw [if_pos (h.distribution_encodable hc hb hp gross root extensions)]
    exact Gives.some trivial

/-! ## the engine -/

/-- every award and every step of the policy is well formed -/
structure Sound (i : Input) : Prop where
  awards : ∀ awards, (i.policy.get "awards").seq? = some awards →
    ∀ a ∈ awards, WellFormed i.allocation a
  steps : ∀ steps, stepsOf i.policy = some steps → ∀ s ∈ steps, WellFormed i.allocation s

theorem Regular.sound (h : i.Regular) (hc : Checked i) : Sound i where
  awards _ ha _ hmem := (h.awards_wellFormed hc ha hmem).1
  steps steps hs s hmem := (h.unchecked hc.validated).steps steps hs s hmem

end Input

end PRF.SlashShapes
