import ProtocolRobustness.Economics.SlashShapes

/-!
# What a slash distribution takes for granted of its input

* `Named`, `Weighed`   methods with a name, weights that are a map to numbers with a sum;
* `RegularItem`, `RegularStep`, `RegularPolicy`   the shape of what the validation reads;
* `WellFormed`         the structural rules, and `wellFormed_of_validated`, what
                       `validate-policy-award` makes sure of;
* `Unchecked`          what the validation does not look into;
* `Input.Small`        numbers whose products and sums fit in 64 bits;
* `Regular.checks`     on regular input, the checks of the builder answer.
-/

namespace PRF.SlashShapes
open Datum Table LongArith
open Economics (HostAmounts Share Calculation Summary)

/-! ## capabilities -/

/-- no method, or one with a name -/
def Named (method : Datum) : Prop := method.truthy = false ∨ ∃ s, method = kw s

theorem capabilityId_gives {method : Datum} (h : Named method) :
    Gives (capabilityId method) fun _ => True := by
  unfold capabilityId
  rcases h with h | ⟨s, rfl⟩
  · rw [if_neg (by simp [h])]
    exact Gives.some trivial
  · rw [if_pos (kw_truthy s)]
    exact Gives.some trivial

theorem spelling {core : String} {method : Datum}
    (h : capabilityId method = some (some ("prf/" ++ core))) :
    method = kw core ∨ method = kw ("prf/" ++ core) := by
  unfold capabilityId at h
  split at h
  · match method, h with
    | .atom (.kw s), h =>
      have h := Option.some.inj (Option.some.inj h)
      by_cases hns : '/' ∈ s.toList
      · rw [if_pos hns] at h
        exact Or.inr (congrArg kw h)
      · rw [if_neg hns] at h
        have hl := congrArg String.toList h
        rw [String.toList_append, String.toList_append] at hl
        exact Or.inl (congrArg kw (String.toList_inj.mp (List.append_cancel_left hl)))
  · cases h

theorem capabilityKey_gives {kind : String} {method : Datum} (h : Named method) :
    Gives (capabilityKey kind method) fun _ => True :=
  (capabilityId_gives h).map fun _ _ => trivial

theorem supported_gives {kind : String} {method : Datum} (h : Named method) :
    Gives (supported kind method) fun _ => True :=
  (capabilityKey_gives h).map fun _ _ => trivial

theorem supported_eq_true {kind : String} {method : Datum} (h : supported kind method = some true) :
    ∃ id, capabilityId method = some (some id) ∧ (kind, id) ∈ coreCapabilityKeys := by
  obtain ⟨key, hkey, h⟩ := Option.map_eq_some_iff.mp h
  obtain ⟨id, hid, rfl⟩ := Option.map_eq_some_iff.mp hkey
  cases id with
  | none => cases h
  | some id => exact ⟨id, hid, by simpa using h⟩

theorem supported_funding {method : Datum} (h : supported fundingKind method = some true) :
    capabilityId method = some (some "prf/weighted-deduction") := by
  obtain ⟨id, hid, hmem⟩ := supported_eq_true h
  have hid' : id = "prf/weighted-deduction" := by
    simpa [coreCapabilityKeys, fundingKind, awardAmountKind, allocationKind] using hmem
  rw [hid, hid']

theorem supported_allocation {method : Datum} (h : supported allocationKind method = some true) :
    capabilityId method = some (some "prf/weighted") := by
  obtain ⟨id, hid, hmem⟩ := supported_eq_true h
  have hid' : id = "prf/weighted" := by
    simpa [coreCapabilityKeys, fundingKind, awardAmountKind, allocationKind] using hmem
  rw [hid, hid']

theorem rateOfGross_spelling {method : Datum}
    (h : capabilityId method = some (some "prf/rate-of-gross")) :
    method = kw "rate-of-gross" ∨ method = kw "prf/rate-of-gross" :=
  spelling (show _ = some (some ("prf/" ++ "rate-of-gross")) from h)

theorem funding_spelling {method : Datum} (h : supported fundingKind method = some true) :
    method = kw "weighted-deduction" ∨ method = kw "prf/weighted-deduction" :=
  spelling (show _ = some (some ("prf/" ++ "weighted-deduction")) from supported_funding h)

theorem allocation_spelling {method : Datum} (h : supported allocationKind method = some true) :
    method = kw "weighted" ∨ method = kw "prf/weighted" :=
  spelling (show _ = some (some ("prf/" ++ "weighted")) from supported_allocation h)

/-! ## weights -/

/-- no weights, or a map to numbers that can be added up -/
def Weighed (weights : Datum) : Prop :=
  weights = null ∨ ∃ es, weights = .map es ∧ (∀ e ∈ es, e.2.number?.isSome) ∧
    (numberSum ((es.map Prod.snd).filterMap number?)).isSome

theorem Weighed.keys {weights : Datum} (h : Weighed weights) :
    Gives weights.keys? fun _ => True := by
  rcases h with rfl | ⟨es, rfl, -, -⟩
  · exact Gives.of_isSome rfl
  · exact Gives.of_isSome rfl

theorem Weighed.contains {weights : Datum} (h : Weighed weights) (k : Datum) :
    Gives (weights.contains? k) fun _ => True := by
  rcases h with rfl | ⟨es, rfl, -⟩
  · exact Gives.of_isSome rfl
  · exact Gives.of_isSome rfl

theorem mapM_number {ds : List Datum} (h : ∀ d ∈ ds, d.number?.isSome) :
    ds.mapM number? = some (ds.filterMap number?) := by
  induction ds with
  | nil => rfl
  | cons d ds ih =>
    obtain ⟨n, hn⟩ := Option.isSome_iff_exists.mp (h d List.mem_cons_self)
    rw [List.mapM_cons, hn, ih fun d hd => h d (List.mem_cons_of_mem _ hd),
      List.filterMap_cons_some hn]
    rfl

theorem Weighed.sums {weights : Datum} (h : Weighed weights) (scale : Datum) :
    Gives (bipsSumToScale weights scale) fun _ => True := by
  unfold bipsSumToScale weightSum
  refine Gives.map (P := fun _ => True) ?_ fun _ _ => trivial
  rcases h with rfl | ⟨es, rfl, hes, hsum⟩
  · exact Gives.of_isSome rfl
  · show Gives ((es.map Prod.snd).mapM number? >>= numberSum) _
    rw [mapM_number (List.forall_mem_map.mpr hes)]
    exact Gives.of_isSome hsum

/-! ## awards and steps -/

/-- what the engine takes for granted of an award or a step -/
structure RegularItem (values allocation item : Datum) : Prop where
  amountMethod : Named ((item.get "amount").get "method")
  fundingMethod : Named ((item.get "funding").get "method")
  weights : supported fundingKind ((item.get "funding").get "method") = some true →
    Weighed ((item.get "funding").get "weights") ∧ Weighed (allocation.get "weights")
  scale : (item.get "amount").get "method" = kw "rate-of-gross" →
    (values.lookup ((item.get "amount").get "parameter-key")).int?.isSome →
    ((item.get "amount").get "scale").number?.isSome
  parameterKey : (item.get "amount").get "parameter-key" ≠ null →
    ((item.get "amount").get "parameter-key").isKey
  destination : ((item.get "settlement").get "allocation-id").truthy →
    ((item.get "settlement").get "allocation-id").isKey

theorem amountFindings_gives {spec : Datum} (h : Named (spec.get "method")) :
    Gives (amountFindings spec) fun _ => True := by
  unfold amountFindings
  refine Gives.ite (fun _ => ?_) fun _ => Gives.some trivial
  refine Gives.bind (supported_gives h) fun _ _ => ?_
  exact Gives.ite (fun _ => Gives.some trivial) fun _ => Gives.some trivial

theorem deductionFindings_gives {base sources : List Datum} {spec : Datum}
    (h : Weighed (spec.get "weights")) :
    Gives (deductionFindings base sources spec) fun _ => True := by
  unfold deductionFindings
  refine Gives.bind (h.sums _) fun sums _ => ?_
  have hknown : Gives (fundingRemainderKnown (spec.get "weights") (spec.get "remainder-to"))
      fun _ => True := Gives.ite (fun _ => Gives.some trivial) fun _ => h.contains _
  exact Gives.bind hknown fun _ _ => Gives.some trivial

theorem fundingFindings_gives {baseWeights spec : Datum} (h : Named (spec.get "method"))
    (hw : supported fundingKind (spec.get "method") = some true →
      Weighed (spec.get "weights") ∧ Weighed baseWeights) :
    Gives (fundingFindings baseWeights spec) fun _ => True := by
  unfold fundingFindings
  refine Gives.ite (fun _ => ?_) fun _ => Gives.some trivial
  refine Gives.bind (supported_gives h).with_eq fun b ⟨hb, _⟩ => ?_
  refine Gives.ite (fun hbt => ?_) fun _ => Gives.some trivial
  obtain ⟨hf, hbase⟩ := hw (hbt ▸ hb)
  refine Gives.bind hbase.keys fun base _ => Gives.bind hf.keys fun sources _ => ?_
  exact Gives.ite (fun _ => deductionFindings_gives hf) fun _ => Gives.some trivial

theorem RegularItem.validates {values allocation item : Datum}
    (h : RegularItem values allocation item) :
    Gives (validatePolicyAward allocation item) fun _ => True := by
  unfold validatePolicyAward
  refine Gives.bind (amountFindings_gives h.amountMethod) fun _ _ => ?_
  exact Gives.bind (fundingFindings_gives h.fundingMethod h.weights) fun _ _ => Gives.some trivial

/-- the structural rules of an award, however its methods are spelled -/
structure WellFormed (allocation award : Datum) : Prop where
  amountMethod : supported awardAmountKind ((award.get "amount").get "method") = some true
  scale : capabilityId ((award.get "amount").get "method") = some (some "prf/rate-of-gross") →
    positiveInt ((award.get "amount").get "scale")
  rounding : capabilityId ((award.get "amount").get "method") = some (some "prf/rate-of-gross") →
    (award.get "amount").get "rounding" = kw "floor"
  parameterKey : capabilityId ((award.get "amount").get "method") = some (some "prf/rate-of-gross") →
    (award.get "amount").get "parameter-key" ≠ null
  fundingMethod : supported fundingKind ((award.get "funding").get "method") = some true
  fundingScale : positiveInt ((award.get "funding").get "scale")
  sums : bipsSumToScale ((award.get "funding").get "weights") ((award.get "funding").get "scale")
    = some true
  remainder : (award.get "funding").get "remainder-to" ≠ null ∧
    ((award.get "funding").get "weights").contains? ((award.get "funding").get "remainder-to")
      = some true
  known : ∃ base sources, (allocation.get "weights").keys? = some base ∧
    ((award.get "funding").get "weights").keys? = some sources ∧ ∀ k ∈ sources, k ∈ base
  settlement : (award.get "settlement").get "allocation-id" ≠ null

theorem amountFindings_eq_nil {spec : Datum} (h : amountFindings spec = some [])
    (hs : spec.get "method" ≠ kw "prf/rate-of-gross") :
    supported awardAmountKind (spec.get "method") = some true ∧
    (capabilityId (spec.get "method") = some (some "prf/rate-of-gross") →
      positiveInt (spec.get "scale") ∧ spec.get "rounding" = kw "floor" ∧
        spec.get "parameter-key" ≠ null) := by
  unfold amountFindings at h
  split at h
  · obtain ⟨b, hb, h⟩ := Option.bind_eq_some_iff.mp h
    split at h
    · next hbt =>
      refine ⟨hbt ▸ hb, fun hid => ?_⟩
      have hr := (rateOfGross_spelling hid).resolve_right hs
      have h := Option.some.inj h
      simp only [List.append_eq_nil_iff, flag_eq_nil, hr, true_and, not_not] at h
      exact ⟨h.1.1, h.1.2, h.2⟩
    · cases h
  · cases h

theorem fundingFindings_eq_nil {baseWeights spec : Datum}
    (h : fundingFindings baseWeights spec = some [])
    (hs : spec.get "method" ≠ kw "prf/weighted-deduction") :
    supported fundingKind (spec.get "method") = some true ∧ ∃ base sources,
      baseWeights.keys? = some base ∧ (spec.get "weights").keys? = some sources ∧
      deductionFindings base sources spec = some [] := by
  unfold fundingFindings at h
  split at h
  · obtain ⟨b, hb, h⟩ := Option.bind_eq_some_iff.mp h
    split at h
    · next hbt =>
      obtain ⟨base, hbase, h⟩ := Option.bind_eq_some_iff.mp h
      obtain ⟨sources, hsources, h⟩ := Option.bind_eq_some_iff.mp h
      rw [if_pos ((funding_spelling (hbt ▸ hb)).resolve_right hs)] at h
      exact ⟨hbt ▸ hb, base, sources, hbase, hsources, h⟩
    · cases h
  · cases h

theorem deductionFindings_eq_nil {base sources : List Datum} {spec : Datum}
    (h : deductionFindings base sources spec = some []) :
    positiveInt (spec.get "scale") ∧
    bipsSumToScale (spec.get "weights") (spec.get "scale") = some true ∧
    spec.get "remainder-to" ≠ null ∧
    (spec.get "weights").contains? (spec.get "remainder-to") = some true ∧
    ∀ k ∈ sources, k ∈ base := by
  obtain ⟨sums, hsums, h⟩ := Option.bind_eq_some_iff.mp h
  obtain ⟨known, hknown, h⟩ := Option.bind_eq_some_iff.mp h
  have h := Option.some.inj h
  simp only [List.append_eq_nil_iff, flag_eq_nil, not_not, not_exists, not_and] at h
  obtain ⟨⟨⟨⟨hscale, hs⟩, hr⟩, hk⟩, hsources⟩ := h
  rw [fundingRemainderKnown, if_neg hr] at hknown
  refine ⟨hscale, hs ▸ hsums, hr, hk ▸ hknown, fun k hmem => ?_⟩
  exact by_contra fun hk => hsources k hmem fun hb => absurd hb hk

theorem validated {allocation award : Datum} (h : validatePolicyAward allocation award = some []) :
    (award.get "award/id").truthy ∧ amountFindings (award.get "amount") = some [] ∧
    fundingFindings (allocation.get "weights") (award.get "funding") = some [] ∧
    settlementFindings (award.get "settlement") = [] := by
  obtain ⟨amount, hamount, h⟩ := Option.bind_eq_some_iff.mp h
  obtain ⟨funding, hfunding, h⟩ := Option.bind_eq_some_iff.mp h
  have h := Option.some.inj h
  simp only [List.append_eq_nil_iff, flag_eq_nil, not_not] at h
  obtain ⟨⟨⟨⟨hid, rfl⟩, -⟩, rfl⟩, hs⟩ := h
  exact ⟨hid, hamount, hfunding, hs⟩

/-- whether one of the methods is spelled with the namespace of the core package -/
def Namespaced (item : Datum) : Prop :=
  (item.get "amount").get "method" = kw "prf/rate-of-gross" ∨
    (item.get "funding").get "method" = kw "prf/weighted-deduction"

/-- **What passes `validate-policy-award` is well formed, but where a method is spelled with its
namespace.** -/
theorem wellFormed_of_validated {allocation item : Datum} (hn : ¬ Namespaced item)
    (h : validatePolicyAward allocation item = some []) : WellFormed allocation item := by
  obtain ⟨-, ha, hf, hs⟩ := validated h
  obtain ⟨hm, hrated⟩ := amountFindings_eq_nil ha fun hc => hn (Or.inl hc)
  obtain ⟨hfm, base, sources, hbase, hsources, hd⟩ :=
    fundingFindings_eq_nil hf fun hc => hn (Or.inr hc)
  obtain ⟨hscale, hsums, hrem, hcontains, hknown⟩ := deductionFindings_eq_nil hd
  refine ⟨hm, fun hid => (hrated hid).1, fun hid => (hrated hid).2.1, fun hid => (hrated hid).2.2,
    hfm, hscale, hsums, ⟨hrem, hcontains⟩, ⟨base, sources, hbase, hsources, hknown⟩, ?_⟩
  unfold settlementFindings at hs
  split at hs
  · rw [List.append_eq_nil_iff, flag_eq_nil, flag_eq_nil] at hs
    exact hs.1
  · cases hs

/-! ## policies -/

/-- what the engine takes for granted of a step: it is a map or nil -/
structure RegularStep (values allocation step : Datum) : Prop extends
    RegularItem values allocation step where
  associative : (awardView step).isSome

theorem awardView_get {step view : Datum} (h : awardView step = some view) {k : String}
    (hk : "award/id" ≠ k) : view.get k = step.get k :=
  get_assoc h hk

/-- an award and a step are read in the same fields -/
theorem RegularItem.view {values allocation step view : Datum}
    (h : RegularItem values allocation step) (hv : awardView step = some view) :
    RegularItem values allocation view := by
  have ha : view.get "amount" = step.get "amount" := awardView_get hv (by decide)
  have hf : view.get "funding" = step.get "funding" := awardView_get hv (by decide)
  have hs : view.get "settlement" = step.get "settlement" := awardView_get hv (by decide)
  constructor <;> simp only [ha, hf, hs]
  · exact h.amountMethod
  · exact h.fundingMethod
  · exact h.weights
  · exact h.scale
  · exact h.parameterKey
  · exact h.destination

theorem stepFindings_gives {values allocation step : Datum} {priorIds : List Datum}
    (h : RegularStep values allocation step) :
    Gives (stepFindings allocation priorIds step) fun _ => True := by
  unfold stepFindings
  refine Gives.bind (Gives.of_isSome h.associative).with_eq fun view ⟨hv, _⟩ => ?_
  refine Gives.bind (h.toRegularItem.view hv).validates fun _ _ => ?_
  exact Gives.bind (supported_gives h.amountMethod) fun _ _ => Gives.some trivial

theorem stepsFindings_gives {values allocation : Datum} {priorIds steps : List Datum}
    (h : ∀ s ∈ steps, RegularStep values allocation s) :
    Gives (stepsFindings allocation priorIds steps) fun _ => True := by
  induction steps generalizing priorIds with
  | nil => exact Gives.some trivial
  | cons s steps ih =>
    obtain ⟨hs, hsteps⟩ := List.forall_mem_cons.mp h
    refine Gives.bind (stepFindings_gives hs) fun _ _ => ?_
    exact Gives.bind (ih hsteps) fun _ _ => Gives.some trivial

theorem validateSteps_gives {values allocation : Datum} {steps : List Datum}
    (h : ∀ s ∈ steps, RegularStep values allocation s) :
    Gives (validateSteps allocation steps) fun _ => True :=
  Gives.bind (stepsFindings_gives h) fun _ _ => Gives.some trivial

/-- what the engine takes for granted of the base allocation -/
structure RegularAllocation (spec : Datum) : Prop where
  method : Named (spec.get "method")
  weights : spec.get "method" = kw "weighted" → Weighed (spec.get "weights")

/-- weights that are a map to numbers, over a positive scale -/
structure Scaled (spec : Datum) : Prop where
  scale : positiveInt (spec.get "scale")
  weights : ∃ es, spec.get "weights" = .map es ∧ ∀ e ∈ es, e.2.number?.isSome

theorem weightedFindings_gives {spec : Datum} (h : Weighed (spec.get "weights")) :
    Gives (weightedFindings spec) fun _ => True := by
  have hsum : Gives (baseWeightsSum (spec.get "weights") (spec.get "scale")) fun _ => True :=
    Gives.ite (fun _ => h.sums _) fun _ => Gives.some trivial
  have hknown : Gives (baseRemainderKnown (spec.get "weights") (spec.get "remainder-to"))
      fun _ => True :=
    Gives.ite (fun _ => h.keys.map fun _ _ => trivial) fun _ => Gives.some trivial
  exact Gives.bind hsum fun _ _ => Gives.bind hknown fun _ _ => Gives.some trivial

theorem allocationFindings_gives {spec : Datum} (h : RegularAllocation spec) :
    Gives (allocationFindings spec) fun _ => True := by
  unfold allocationFindings
  refine Gives.ite (fun _ => ?_) fun _ => Gives.some trivial
  refine Gives.bind (supported_gives h.method) fun _ _ => Gives.ite (fun _ => ?_) fun _ =>
    Gives.some trivial
  by_cases hm : spec.get "method" = kw "weighted"
  · rw [if_pos hm]
    exact weightedFindings_gives (h.weights hm)
  · rw [if_neg hm]
    exact Gives.some trivial

/-- a base allocation without findings, but for the method with its namespace -/
theorem allocationFindings_eq_nil {spec : Datum} (h : RegularAllocation spec)
    (hf : allocationFindings spec = some []) :
    capabilityId (spec.get "method") = some (some "prf/weighted") ∧
    (spec.get "method" ≠ kw "prf/weighted" → Scaled spec) := by
  unfold allocationFindings at hf
  split at hf
  · obtain ⟨b, hb, hf⟩ := Option.bind_eq_some_iff.mp hf
    split at hf
    · next hbt =>
      have hid := supported_allocation (hbt ▸ hb)
      refine ⟨hid, fun hn => ?_⟩
      have hm := (allocation_spelling (hbt ▸ hb)).resolve_right hn
      rw [if_pos hm] at hf
      obtain ⟨sums, hsums, hf⟩ := Option.bind_eq_some_iff.mp hf
      obtain ⟨known, hknown, hf⟩ := Option.bind_eq_some_iff.mp hf
      have hf := Option.some.inj hf
      simp only [List.append_eq_nil_iff, flag_eq_nil, not_not] at hf
      obtain ⟨⟨⟨⟨hscale, hnull⟩, -⟩, -⟩, -⟩ := hf
      rcases h.weights hm with hw | hw
      · exact absurd hw hnull
      · obtain ⟨es, hw, hes, -⟩ := hw
        exact ⟨hscale, es, hw, hes⟩
    · cases hf
  · cases hf

/-- what the engine takes for granted of a policy, with its awards and its steps -/
structure RegularPolicy (values policy : Datum) : Prop where
  canonical : policy.encodable
  allocation : RegularAllocation (policy.get "allocation")
  awards : Gives (policy.get "awards").seq? fun awards =>
    ∀ a ∈ awards, RegularItem values (policy.get "allocation") a
  steps : Gives (stepsOf policy) fun steps =>
    ∀ s ∈ steps, RegularStep values (policy.get "allocation") s

theorem RegularPolicy.validates {values policy : Datum} (h : RegularPolicy values policy) :
    Gives (validatePolicy policy) fun _ => True := by
  unfold validatePolicy
  refine Gives.bind (allocationFindings_gives h.allocation) fun _ _ => ?_
  refine Gives.bind h.awards fun awards hawards => ?_
  refine Gives.bind (Gives.mapM (R := fun _ _ => True) fun a ha => (hawards a ha).validates)
    fun _ _ => ?_
  refine Gives.bind h.steps fun steps hsteps => ?_
  exact Gives.bind (validateSteps_gives hsteps) fun _ _ => Gives.some trivial

theorem validatePolicy_eq_nil {policy : Datum} (h : validatePolicy policy = some []) :
    allocationFindings (policy.get "allocation") = some [] ∧
    ∀ awards, (policy.get "awards").seq? = some awards →
      ∀ a ∈ awards, validatePolicyAward (policy.get "allocation") a = some [] := by
  obtain ⟨allocation, hallocation, h⟩ := Option.bind_eq_some_iff.mp h
  obtain ⟨awards, hawards, h⟩ := Option.bind_eq_some_iff.mp h
  obtain ⟨perAward, hper, h⟩ := Option.bind_eq_some_iff.mp h
  obtain ⟨steps, hsteps, h⟩ := Option.bind_eq_some_iff.mp h
  obtain ⟨ofSteps, hofSteps, h⟩ := Option.bind_eq_some_iff.mp h
  have h := Option.some.inj h
  simp only [List.append_eq_nil_iff] at h
  obtain ⟨⟨⟨⟨⟨-, rfl⟩, -⟩, -⟩, hflat⟩, -⟩ := h
  refine ⟨hallocation, fun awards' hawards' a ha => ?_⟩
  cases hawards.symm.trans hawards'
  obtain ⟨findings, hmem, hf⟩ := Fallible.exists_of_mem_left (Fallible.mapM_eq_some_iff.mp hper) ha
  rw [hf, List.flatten_eq_nil_iff.mp hflat findings hmem]

/-- what `validate-policy` does not look into is well formed all the same: the steps, and what is
spelled with the namespace -/
structure Unchecked (policy : Datum) : Prop where
  allocation : (policy.get "allocation").get "method" = kw "prf/weighted" →
    Scaled (policy.get "allocation")
  awards : ∀ awards, (policy.get "awards").seq? = some awards → ∀ a ∈ awards, Namespaced a →
    WellFormed (policy.get "allocation") a
  steps : ∀ steps, stepsOf policy = some steps → ∀ s ∈ steps,
    WellFormed (policy.get "allocation") s

/-! ## the checks -/

theorem rateFindings_gives {values allocation item : Datum}
    (h : RegularItem values allocation item) :
    Gives (rateFindings values (item.get "amount")) fun _ => True := by
  unfold rateFindings
  dsimp only
  refine Gives.ite (fun hc => ?_) fun _ => Gives.some trivial
  cases hr : (values.lookup ((item.get "amount").get "parameter-key")).int? with
  | none => exact Gives.some trivial
  | some rate =>
    have hscale := h.scale hc.2 (by simp [hr])
    exact Gives.bind (Gives.of_isSome hscale) fun _ _ => Gives.some trivial

theorem regular_null (values allocation : Datum) : RegularItem values allocation null where
  amountMethod := Or.inl rfl
  fundingMethod := Or.inl rfl
  weights h := by cases h
  scale h := by cases h
  parameterKey h := absurd rfl h
  destination h := by cases h

theorem awardFor_regular {values allocation : Datum} {awards : List Datum}
    (h : ∀ a ∈ awards, RegularItem values allocation a) (id : Datum) :
    RegularItem values allocation (awardFor awards id) := by
  unfold awardFor
  cases ha : awards.find? fun a => a.get "award/id" = id ∧ a.truthy with
  | none => exact regular_null values allocation
  | some a => exact h a (List.mem_of_find?_eq_some ha)

theorem policyCapabilityKeys_gives {values policy : Datum} (h : RegularPolicy values policy) :
    Gives (policyCapabilityKeys policy) fun _ => True := by
  have hitems : Gives (policy.get (if (policy.get "steps").truthy then "steps" else "awards")).seq?
      fun items => ∀ x ∈ items, RegularItem values (policy.get "allocation") x := by
    by_cases hs : (policy.get "steps").truthy
    · have hsteps := h.steps
      rw [stepsOf, if_pos hs] at hsteps
      rw [if_pos hs]
      exact hsteps.mono fun steps hall s hmem => (hall s hmem).toRegularItem
    · rw [if_neg hs]
      exact h.awards
  unfold policyCapabilityKeys
  refine Gives.bind (capabilityKey_gives h.allocation.method) fun _ _ => ?_
  refine Gives.bind hitems fun items hall => ?_
  refine Gives.bind (Gives.mapM (R := fun _ _ => True) fun x hx =>
    capabilityKey_gives (hall x hx).amountMethod) fun _ _ => ?_
  exact Gives.bind (Gives.mapM (R := fun _ _ => True) fun x hx =>
    capabilityKey_gives (hall x hx).fundingMethod) fun _ _ => Gives.some trivial

/-- any two of different data can be compared -/
def Comparable (ids : List Datum) : Prop :=
  ∀ x ∈ ids, ∀ y ∈ ids, x ≠ y → (compareData x y).isSome

/-- what is committed of a resolved award is canonical -/
structure RegularResolved (r : Datum) : Prop where
  beneficiary : (r.get "beneficiary").encodable
  evidenceReference : ((r.get "eligibility").get "evidence-reference").encodable

/-! ## numbers -/

def weightsOf (spec : Datum) : List ℤ := ((spec.get "weights").vals?.getD []).filterMap int?

def scaleOf (spec : Datum) : HostInt := .ofInt ((spec.get "scale").int?.getD 0)

/-- no product of an amount and a weight overflows -/
def Multiplies (amount : HostInt) (spec : Datum) : Prop :=
  ∀ weight ∈ weightsOf spec, ¬ HostInt.MulOverflows amount (.ofInt weight)

instance (amount : HostInt) (spec : Datum) : Decidable (Multiplies amount spec) :=
  inferInstanceAs (Decidable (∀ _ ∈ _, _))

/-- the quotient of an amount by its weight -/
def shareOf (amount : HostInt) (spec : Datum) (weight : ℤ) : HostInt :=
  (amount.mulPromote (.ofInt weight)).quot (scaleOf spec)

def shareLoad (amount : HostInt) (spec : Datum) : ℤ :=
  ((weightsOf spec).map fun weight => (shareOf amount spec weight).load).sum

/-- what the division of an amount by its weights may add to a 64-bit sum: the amount, the quotients,
and what they leave of it -/
def divisionLoad (amount : HostInt) (spec : Datum) : ℤ := amount.load + 2 * shareLoad amount spec

section
variable (gross : HostInt) (values item resolved : Datum)

/-- the amount of an award or a step that is paid out of the whole gross amount -/
def fullAmount : Option HostInt :=
  (capabilityId ((item.get "amount").get "method")).bind fun id =>
    amountBy gross (item.get "amount") values id resolved

/-- the products of an award or a step fit -/
structure Payable : Prop where
  rate : ¬ RateOverflows gross (item.get "amount") values
  funding : ∀ amount ∈ fullAmount gross values item resolved, Multiplies amount (item.get "funding")

/-- what an award or a step may add to a 64-bit sum: its amount, what is left when its rate is rounded,
and its funding -/
def itemLoad : ℤ :=
  match fullAmount gross values item resolved with
  | some amount =>
    divisionLoad amount (item.get "funding") + amount.load + (scaleOf (item.get "amount")).load
  | none => 0

end

namespace Input
variable (env : Env) (i : Input)

/-- what may be paid: the steps, or else the awards that were resolved, each with its resolved award -/
def dues : List (Datum × Datum) :=
  if (i.policy.get "steps").truthy then
    ((i.policy.get "steps").seq?.getD []).map fun step => (step, null)
  else (i.resolvedAwards.seq?.getD []).map fun r =>
    (awardFor ((i.policy.get "awards").seq?.getD []) (r.get "award/id"), r)

/-- **The products and the sums of a distribution fit in 64 bits**, where they are not those of big
integers. -/
structure Small (gross : HostInt) : Prop where
  allocation : Multiplies gross i.allocation
  dues : ∀ due ∈ i.dues, Payable gross i.values due.1 due.2
  total : divisionLoad gross i.allocation
    + (i.dues.map fun due => itemLoad gross i.values due.1 due.2).sum < 2 ^ 63

/-- **What the engine takes for granted.** -/
structure Regular : Prop where
  resolved : Gives i.resolvedAwards.seq? fun resolved =>
    Comparable (resolved.map fun r => r.get "award/id") ∧ ∀ r ∈ resolved, RegularResolved r
  policy : i.policy.truthy → RegularPolicy i.values i.policy
  unchecked : validatePolicy i.policy = some [] → Unchecked i.policy
  small : ∀ gross ∈ i.gross.int?, i.Small (.ofInt gross)
  context : i.policy.truthy → i.context.encodable
  parameterContext : i.policy.truthy → i.parameterContext.encodable
  runtimeProfile : i.policy.truthy → i.runtimeProfile.encodable

variable {env i}

theorem get_of_falsy (h : ¬ i.policy.truthy) (k : String) : i.policy.get k = null := by
  by_cases hn : i.policy = null
  · rw [hn]
    rfl
  · by_cases hf : i.policy = bool false
    · rw [hf]
      rfl
    · exact absurd (by simp [truthy, hn, hf]) h

theorem Regular.awards (h : i.Regular) : Gives (i.policy.get "awards").seq? fun awards =>
    ∀ a ∈ awards, RegularItem i.values i.allocation a := by
  by_cases hp : i.policy.truthy
  · exact (h.policy hp).awards
  · rw [get_of_falsy hp]
    exact Gives.some fun _ ha => by cases ha

theorem Regular.steps (h : i.Regular) : Gives (stepsOf i.policy) fun steps =>
    ∀ s ∈ steps, RegularStep i.values i.allocation s := by
  by_cases hp : i.policy.truthy
  · exact (h.policy hp).steps
  · rw [stepsOf, get_of_falsy hp]
    exact Gives.some fun _ ha => by cases ha

theorem Regular.policyHash (h : i.Regular) (hp : i.policy.truthy) :
    Gives (i.policyHash env) fun _ => True := by
  unfold Input.policyHash
  rw [if_pos (h.policy hp).canonical]
  exact Gives.some trivial

theorem Regular.resolution (h : i.Regular) (hp : i.policy.truthy) :
    Gives (i.resolution env) fun _ => True := by
  unfold Input.resolution
  refine Gives.bind (policyCapabilityKeys_gives (h.policy hp)) fun keys _ => ?_
  refine Gives.ite (fun _ => ?_) fun _ => Gives.some trivial
  rw [if_pos (h.runtimeProfile hp)]
  exact Gives.some trivial

/-- **On regular input the checks answer.** -/
theorem Regular.checks (h : i.Regular) : Gives (i.checks env) fun _ => True := by
  have hpolicy : Gives i.policyFindings fun _ => True :=
    Gives.ite (fun hp => (h.policy hp).validates) fun _ => Gives.some trivial
  have hroot : Gives (i.rootFindings env) fun _ => True :=
    Gives.ite (fun hp => (h.policyHash hp).map fun _ _ => trivial) fun _ => Gives.some trivial
  have hext : Gives (i.extensionFindings env) fun _ => True :=
    Gives.ite (fun hp => (h.resolution hp).map fun _ _ => trivial) fun _ => Gives.some trivial
  unfold Input.checks
  refine Gives.bind hpolicy fun _ _ => Gives.bind hroot fun _ _ => ?_
  refine Gives.bind h.resolved fun resolved _ => Gives.bind h.awards fun awards hawards => ?_
  refine Gives.bind h.steps fun steps hsteps => ?_
  refine Gives.bind (Gives.mapM (R := fun _ _ => True) fun r _ =>
    rateFindings_gives (awardFor_regular hawards (r.get "award/id"))) fun _ _ => ?_
  refine Gives.bind (Gives.mapM (R := fun _ _ => True) fun s hs =>
    rateFindings_gives (hsteps s hs).toRegularItem) fun _ _ => ?_
  exact Gives.bind hext fun _ _ => Gives.some trivial

end Input

end PRF.SlashShapes
