import ProtocolRobustness.Economics.SlashLoads
import ProtocolRobustness.Economics.SlashUniform

/-!
# What is paid of a small amount

* `shares_gives`       weights that were checked divide an amount whose products and sums fit;
* `Below`, `amount_within`   an amount that is paid out of a part of the gross amount is below the one
                       that is paid out of the whole;
* `Payable.funding_gives`   and so it is funded, within the load that was counted for it;
* `calculation_load`        and so are the numbers of its calculation.
-/

namespace PRF.SlashShapes
open Datum Table LongArith
open Economics (HostAmounts Share Calculation Summary)

/-! ## dividing an amount -/

theorem keyed_iff {m : HostAmounts Datum} : keyed m ↔ ∀ id ∈ m.ids, id.isKey := List.all_eq_true

theorem int_of_number {d : Datum} (he : d.encodable) (hn : d.number?.isSome) : d.int?.isSome := by
  match d, he, hn with
  | .atom (.int n), _, _ => rfl
  | .atom (.ratio q), he, _ => cases he

theorem mem_tableOf {es : List (Datum × HostInt)} {id : Datum} (h : id ∈ (tableOf es).ids) :
    ∃ e ∈ es, e.1 = id := by
  rcases mem_keys_into (show id ∈ (into [] es).map Prod.fst from h) with h | h
  · cases h
  · exact List.mem_map.mp h

theorem mass_into (m : HostAmounts Datum) (es : List (Datum × HostInt)) :
    (⟨into m.entries es, nodup_into m.nodup es⟩ : HostAmounts Datum).mass
      ≤ m.mass + (es.map fun e => e.2.load).sum := by
  induction es generalizing m with
  | nil => simp [into_nil]
  | cons e es ih =>
    rw [List.map_cons, List.sum_cons]
    have hput := HostAmounts.mass_put m e.1 e.2
    have hold := (m.number e.1).load_nonneg
    refine (ih ⟨put m.entries e.1 e.2, nodup_put m.nodup _ _⟩).trans ?_
    omega

theorem mass_tableOf (es : List (Datum × HostInt)) :
    (tableOf es).mass ≤ (es.map fun e => e.2.load).sum :=
  (mass_into .empty es).trans (zero_add _).le

/-- weights of strings and keywords, which are integers over a positive scale -/
structure Divides (spec : Datum) (es : List (Datum × Datum)) : Prop where
  weights : spec.get "weights" = .map es
  keys : ∀ e ∈ es, e.1.isKey
  ints : ∀ e ∈ es, e.2.int?.isSome
  scale : positiveInt (spec.get "scale")

theorem Scaled.divides {spec : Datum} (h : Scaled spec) (he : spec.encodable) :
    ∃ es, Divides spec es := by
  obtain ⟨hs, es, hw, hes⟩ := h
  have hmap : (Datum.map es).encodable := hw ▸ encodable_get he "weights"
  rw [encodable_map] at hmap
  exact ⟨es, hw, fun e hmem => (hmap e hmem).1,
    fun e hmem => int_of_number (hmap e hmem).2 (hes e hmem), hs⟩

theorem scaleOf_eq {spec : Datum} (h : positiveInt (spec.get "scale")) :
    ∃ scale, (spec.get "scale").int? = some scale ∧ 0 < scale ∧ scaleOf spec = .ofInt scale := by
  obtain ⟨scale, hscale, hpos⟩ := (Option.any_eq_true _ _).mp h
  exact ⟨scale, hscale, by simpa using hpos, by rw [scaleOf, hscale]; rfl⟩

theorem quotients_give {spec : Datum} {es : List (Datum × Datum)} {amount : HostInt}
    (hs : positiveInt (spec.get "scale")) (hints : ∀ e ∈ es, e.2.int?.isSome)
    (hm : ∀ weight ∈ (es.map Prod.snd).filterMap int?, ¬ HostInt.MulOverflows amount (.ofInt weight)) :
    Gives (es.mapM (quotient amount (spec.get "scale"))) fun qs =>
      qs.map Prod.fst = es.map Prod.fst ∧ (qs.map fun q => q.2.load).sum
        = (((es.map Prod.snd).filterMap int?).map fun w => (shareOf amount spec w).load).sum := by
  obtain ⟨scale, hscale, hpos, hscaleOf⟩ := scaleOf_eq hs
  induction es with
  | nil => exact Gives.some ⟨rfl, rfl⟩
  | cons e es ih =>
    obtain ⟨weight, hweight⟩ := Option.isSome_iff_exists.mp (hints e List.mem_cons_self)
    have hweights : ((e :: es).map Prod.snd).filterMap int?
        = weight :: (es.map Prod.snd).filterMap int? := by
      rw [List.map_cons, List.filterMap_cons_some hweight]
    rw [hweights] at hm ⊢
    obtain ⟨hfirst, hrest⟩ := List.forall_mem_cons.mp hm
    have hone : quotient amount (spec.get "scale") e = some (e.1, shareOf amount spec weight) := by
      unfold quotient shareOf
      rw [hweight, hscale, hscaleOf, Option.bind_eq_bind, Option.bind_some, Option.bind_eq_bind,
        Option.bind_some, HostInt.mul?_of_not_overflows hfirst]
      exact if_neg (by omega)
    rw [List.mapM_cons, hone]
    rw [Option.bind_eq_bind, Option.bind_some]
    refine Gives.bind (ih (fun e he => hints e (List.mem_cons_of_mem _ he)) hrest) ?_
    rintro qs ⟨hkeys, hload⟩
    refine Gives.some ⟨by rw [List.map_cons, hkeys, List.map_cons], ?_⟩
    rw [List.map_cons, List.sum_cons, hload, List.map_cons, List.sum_cons]

theorem shareLoad_nonneg (amount : HostInt) (spec : Datum) : 0 ≤ shareLoad amount spec :=
  Economics.sum_load_nonneg _ _

theorem shares_gives {spec : Datum} {es : List (Datum × Datum)} (h : Divides spec es)
    {amount : HostInt} (hm : Multiplies amount spec) (hl : divisionLoad amount spec < 2 ^ 63) :
    Gives (shares amount spec) fun m => keyed m ∧ m.mass ≤ divisionLoad amount spec := by
  have hload0 := shareLoad_nonneg amount spec
  have hamount0 := amount.load_nonneg
  have hweights : weightsOf spec = (es.map Prod.snd).filterMap int? := by
    rw [weightsOf, h.weights]
    rfl
  unfold Multiplies at hm
  unfold divisionLoad at hl ⊢
  rw [hweights] at hm
  unfold shares
  rw [h.weights]
  refine Gives.bind (Gives.some (P := fun es' => es' = es) rfl) ?_
  rintro es rfl
  refine Gives.bind (quotients_give h.scale h.ints hm) fun qs hqs => ?_
  obtain ⟨hqkeys, hqload⟩ := hqs
  rw [← hweights] at hqload
  have hmass : (tableOf qs).mass ≤ shareLoad amount spec := (mass_tableOf qs).trans hqload.le
  have hkeys : ∀ id ∈ (tableOf qs).ids, id.isKey := by
    intro id hid
    obtain ⟨q, hq, rfl⟩ := mem_tableOf hid
    have hq' : q.1 ∈ es.map Prod.fst := hqkeys ▸ List.mem_map_of_mem hq
    obtain ⟨e, he, hqe⟩ := List.mem_map.mp hq'
    exact hqe ▸ h.keys e he
  have hnumbers : ((tableOf qs).numbers.map HostInt.load).sum = (tableOf qs).mass := by
    rw [HostAmounts.mass_eq, HostAmounts.numbers, List.map_map]
    rfl
  obtain ⟨allocated, hallocated, haload⟩ : ∃ a, HostInt.sum? (tableOf qs).numbers = some a ∧ _ :=
    HostInt.sum?_of_load (by omega)
  obtain ⟨remainder, hremainder, -, -, hrload⟩ : ∃ r, amount.sub? allocated = some r ∧ _ :=
    HostInt.sub?_of_load (by omega)
  dsimp only
  rw [hallocated, Option.bind_eq_bind, Option.bind_some, hremainder, Option.bind_eq_bind,
    Option.bind_some]
  have hplain : keyed (tableOf qs) ∧ (tableOf qs).mass ≤ amount.load + 2 * shareLoad amount spec :=
    ⟨keyed_iff.mpr hkeys, by omega⟩
  refine Gives.ite (fun _ => ?_) fun _ => Gives.some hplain
  rw [contains_map, Option.bind_some]
  refine Gives.ite (fun _ => Gives.some hplain) fun hknown => ?_
  have hnumber := (tableOf qs).load_number_le (spec.get "remainder-to")
  rw [if_neg (HostInt.not_addOverflows_of_load (by omega))]
  have hadd := (tableOf qs).mass_add (spec.get "remainder-to") remainder
  refine Gives.some ⟨keyed_iff.mpr fun id hid => ?_, by omega⟩
  rcases HostAmounts.mem_ids_add.mp hid with hid | rfl
  · exact hkeys id hid
  · obtain ⟨e, he, hr⟩ := List.any_eq_true.mp (not_not.mp hknown)
    exact (of_decide_eq_true hr) ▸ h.keys e he

/-! ## smaller amounts -/

theorem Multiplies.mono {a b : HostInt} {spec : Datum} (h : Multiplies b spec)
    (hw : HostInt.Within a b) : Multiplies a spec :=
  fun weight hweight => hw.not_mulOverflows (h weight hweight)

theorem divisionLoad_mono {a b : HostInt} {spec : Datum} (hs : positiveInt (spec.get "scale"))
    (h : Multiplies b spec) (hw : HostInt.Within a b) : divisionLoad a spec ≤ divisionLoad b spec := by
  obtain ⟨scale, -, hpos, hscaleOf⟩ := scaleOf_eq hs
  have hshare : shareLoad a spec ≤ shareLoad b spec := by
    refine List.sum_le_sum fun weight hweight => ?_
    refine hw.quot_mono ?_ (h weight hweight)
    rw [hscaleOf]
    exact hpos
  have hload := hw.load_mono
  unfold divisionLoad
  omega

/-- not above another number, and held in 64 bits only where that one is -/
structure Below (v gross : HostInt) : Prop where
  le : v.value ≤ gross.value
  long : v.big = false → gross.big = false

theorem Below.refl (gross : HostInt) : Below gross gross := ⟨le_rfl, id⟩

/-- what a share of a rate is made of -/
structure Rated (gross : HostInt) (spec values : Datum) (share : Share) (rate scale : ℤ) : Prop where
  rateOf_eq : rateOf spec values = some rate
  scale_eq : (spec.get "scale").int? = some scale
  gross_nonneg : 0 ≤ gross.value
  rate_nonneg : 0 ≤ rate
  scale_pos : 0 < scale
  rate_le : rate ≤ scale
  amount : share.amount = (gross.value * rate).tdiv scale
  remainder : share.roundingRemainder = gross.value * rate - share.amount * scale

section
variable {gross v : HostInt} {spec values : Datum} {share : Share}

theorem rateOfGross_eq_some (h : rateOfGross gross spec values = some share) :
    ∃ rate scale, Rated gross spec values share rate scale := by
  obtain ⟨rate, hrate, h⟩ := Option.bind_eq_some_iff.mp h
  cases hscale : (spec.get "scale").int? with
  | none =>
    rw [hscale] at h
    cases h
  | some scale =>
    rw [hscale] at h
    simp only [Economics.scaledShare] at h
    split at h
    · next hc =>
      cases h
      exact ⟨rate, scale, hrate, hscale, hc.1, hc.2.1, hc.2.2.1, hc.2.2.2.1, rfl, rfl⟩
    · cases h

theorem Rated.amount_le {rate scale : ℤ} (h : Rated gross spec values share rate scale) :
    0 ≤ share.amount ∧ share.amount ≤ gross.value := by
  have hprod := mul_nonneg h.gross_nonneg h.rate_nonneg
  have hle : gross.value * rate ≤ gross.value * scale :=
    mul_le_mul_of_nonneg_left h.rate_le h.gross_nonneg
  rw [h.amount, Int.tdiv_eq_ediv_of_nonneg hprod]
  exact ⟨Int.ediv_nonneg hprod h.scale_pos.le, Int.ediv_le_of_le_mul h.scale_pos hle⟩

theorem rateOfGross_full (hv : v.value ≤ gross.value) (h : rateOfGross v spec values = some share) :
    ∃ full, rateOfGross gross spec values = some full ∧ share.amount ≤ full.amount := by
  obtain ⟨rate, scale, hr⟩ := rateOfGross_eq_some h
  obtain ⟨rate', hrate', h⟩ := Option.bind_eq_some_iff.mp h
  cases hr.rateOf_eq.symm.trans hrate'
  have hgross := hr.gross_nonneg.trans hv
  rw [hr.scale_eq] at h
  have hc : 0 ≤ v.value ∧ 0 ≤ rate ∧ 0 < scale ∧ rate ≤ scale ∧
      decide (spec.get "rounding" = kw "floor") = true := by
    by_contra hno
    simp only [Economics.scaledShare, if_neg hno] at h
    cases h
  have hfull : rateOfGross gross spec values = some ⟨gross.value, rate, scale, gross.value * rate,
      (gross.value * rate).tdiv scale, gross.value * rate - (gross.value * rate).tdiv scale * scale,
      Economics.classify gross.value rate ((gross.value * rate).tdiv scale)⟩ := by
    unfold rateOfGross
    rw [hr.rateOf_eq, hr.scale_eq]
    exact if_pos ⟨hgross, hc.2⟩
  refine ⟨_, hfull, ?_⟩
  rw [hr.amount, Int.tdiv_eq_ediv_of_nonneg (mul_nonneg hr.gross_nonneg hr.rate_nonneg)]
  show _ ≤ (gross.value * rate).tdiv scale
  rw [Int.tdiv_eq_ediv_of_nonneg (mul_nonneg hgross hr.rate_nonneg)]
  exact Int.ediv_le_ediv hr.scale_pos (mul_le_mul_of_nonneg_right hv hr.rate_nonneg)

theorem bigRate_eq_false : bigRate gross spec values = false ↔ gross.big = false ∧
    (∀ rate ∈ rateOf spec values, Fits rate) ∧ ∀ scale ∈ (spec.get "scale").int?, Fits scale := by
  simp [bigRate, Bool.or_eq_false_iff, Option.any_eq_false, and_assoc]

theorem Below.not_rateOverflows (hv : Below v gross) (h : ¬ RateOverflows gross spec values) :
    ¬ RateOverflows v spec values := by
  rintro ⟨hshare, rate, hrate, hlong, hrlong, hfits⟩
  obtain ⟨share, hshare⟩ := Option.isSome_iff_exists.mp hshare
  obtain ⟨full, hfull, -⟩ := rateOfGross_full hv.le hshare
  obtain ⟨rate', scale, hr⟩ := rateOfGross_eq_some hshare
  cases hrate.symm.trans hr.rateOf_eq
  refine h ⟨Option.isSome_of_eq_some hfull, rate, hrate, hv.long hlong, hrlong, fun hg => hfits ?_⟩
  exact HostInt.Within.fits_mul ⟨hr.gross_nonneg, hv.le, hv.long⟩ hg

theorem share_within (hv : Below v gross) (h : rateOfGross v spec values = some share) :
    ∃ full, rateOfGross gross spec values = some full ∧ HostInt.Within
      (.promote (bigRate v spec values) share.amount)
      (.promote (bigRate gross spec values) full.amount) := by
  obtain ⟨full, hfull, hle⟩ := rateOfGross_full hv.le h
  obtain ⟨rate, scale, hr⟩ := rateOfGross_eq_some h
  obtain ⟨rate', scale', hr'⟩ := rateOfGross_eq_some hfull
  refine ⟨full, hfull, hr.amount_le.1, hle, fun hlong => ?_⟩
  obtain ⟨hvlong, hrate, hscale⟩ := bigRate_eq_false.mp (Bool.or_eq_false_iff.mp hlong).1
  have hgross := hv.long hvlong
  have hfits : Fits full.amount :=
    ⟨le_trans (by norm_num) hr'.amount_le.1, hr'.amount_le.2.trans_lt (gross.fits hgross).2⟩
  have hrated := bigRate_eq_false.mpr ⟨hgross, hrate, hscale⟩
  simp [HostInt.promote, hrated, hfits]

theorem amount_within {id : Option String} {resolved : Datum} {amount : HostInt} (hv : Below v gross)
    (h : amountBy v spec values id resolved = some amount) :
    ∃ full, amountBy gross spec values id resolved = some full ∧ HostInt.Within amount full := by
  unfold amountBy at h ⊢
  by_cases hrate : id = some "prf/rate-of-gross"
  · rw [if_pos hrate] at h ⊢
    obtain ⟨share, hshare, rfl⟩ := Option.map_eq_some_iff.mp h
    obtain ⟨full, hfull, hwithin⟩ := share_within hv hshare
    exact ⟨_, by rw [hfull]; rfl, hwithin⟩
  · rw [if_neg hrate] at h ⊢
    refine ⟨amount, h, ?_, le_rfl, fun hlong => hlong⟩
    split at h
    · obtain ⟨n, hn, rfl⟩ := Option.map_eq_some_iff.mp h
      simpa using (Option.filter_eq_some_iff.mp hn).2
    · cases h

end

/-! ## awards and steps -/

/-- the funding of what is well formed divides -/
theorem WellFormed.divides {values allocation item : Datum} (hw : WellFormed allocation item)
    (hr : RegularItem values allocation item) (he : item.encodable) :
    ∃ es, Divides (item.get "funding") es := by
  rcases (hr.weights hw.fundingMethod).1 with hnull | hmap
  · have hc := hw.remainder.2
    rw [hnull] at hc
    cases hc
  · obtain ⟨es, hes, hnumbers, -⟩ := hmap
    exact Scaled.divides ⟨hw.fundingScale, es, hes, hnumbers⟩ (encodable_get he "funding")

section
variable {gross v : HostInt} {values allocation item resolved : Datum}

theorem itemLoad_of_full {full : HostInt} (h : fullAmount gross values item resolved = some full) :
    itemLoad gross values item resolved = divisionLoad full (item.get "funding") + full.load
      + (scaleOf (item.get "amount")).load := by
  rw [itemLoad, h]

theorem itemLoad_nonneg : 0 ≤ itemLoad gross values item resolved := by
  unfold itemLoad
  split
  · next full _ =>
    have h1 := shareLoad_nonneg full (item.get "funding")
    have h2 := full.load_nonneg
    have h3 := (scaleOf (item.get "amount")).load_nonneg
    unfold divisionLoad
    omega
  · exact le_rfl

theorem Payable.amount_gives (h : Payable gross values item resolved)
    (hr : RegularItem values allocation item) (hv : Below v gross) :
    Gives (computeAwardAmount v (item.get "amount") values resolved) fun amount =>
      ∀ a, amount = some a → ∃ full, fullAmount gross values item resolved = some full
        ∧ HostInt.Within a full := by
  unfold computeAwardAmount
  refine Gives.bind (capabilityId_gives hr.amountMethod).with_eq fun id ⟨hid, _⟩ => ?_
  rw [if_neg fun hc => hv.not_rateOverflows h.rate hc.2]
  refine Gives.some fun a ha => ?_
  obtain ⟨full, hfull, hwithin⟩ := amount_within hv ha
  exact ⟨full, by rw [fullAmount, hid]; exact hfull, hwithin⟩

/-- **What is well formed is funded**, within the load that was counted for it. -/
theorem Payable.funding_gives (h : Payable gross values item resolved)
    (hw : WellFormed allocation item) (hr : RegularItem values allocation item) (he : item.encodable)
    (hl : itemLoad gross values item resolved < 2 ^ 63) {amount full : HostInt}
    (hfull : fullAmount gross values item resolved = some full) (ha : HostInt.Within amount full) :
    Gives (computeAwardFunding amount (item.get "funding")) fun f => ∃ m, f = some m ∧ keyed m ∧
      m.mass + amount.load ≤ itemLoad gross values item resolved := by
  obtain ⟨es, hes⟩ := hw.divides hr he
  have hm := h.funding full hfull
  have hdivision := divisionLoad_mono hw.fundingScale hm ha
  have hamount := ha.load_mono
  have hfull0 := full.load_nonneg
  have hscale0 := (scaleOf (item.get "amount")).load_nonneg
  rw [itemLoad_of_full hfull] at hl ⊢
  unfold computeAwardFunding
  rw [supported_funding hw.fundingMethod]
  refine (shares_gives hes (hm.mono ha) (by omega)).map fun m ⟨hkeyed, hmass⟩ => ?_
  exact ⟨m, rfl, hkeyed, by omega⟩

theorem calculation_load {id : Datum} {c : Calculation Datum} (hv : Below v gross)
    (hc : awardCalculation v (item.get "amount") values id = some c) :
    c.amount.load ≤ itemLoad gross values item resolved
      ∧ c.roundingRemainder.load ≤ itemLoad gross values item resolved := by
  unfold awardCalculation at hc
  split at hc
  · next hmethod =>
    obtain ⟨share, hshare, rfl⟩ := Option.map_eq_some_iff.mp hc
    obtain ⟨full, hfull, hwithin⟩ := share_within hv hshare
    obtain ⟨rate, scale, hr⟩ := rateOfGross_eq_some hshare
    have hid : capabilityId ((item.get "amount").get "method")
        = some (some "prf/rate-of-gross") := by
      rw [hmethod]
      decide +kernel
    have hamount : fullAmount gross values item resolved
        = some (.promote (bigRate gross (item.get "amount") values) full.amount) := by
      rw [fullAmount, hid, Option.bind_some, amountBy, if_pos rfl, hfull]
      rfl
    have hscale : scaleOf (item.get "amount") = .ofInt scale := by
      rw [scaleOf, hr.scale_eq]
      rfl
    have hremainder : (HostInt.promote (bigRate v (item.get "amount") values)
        share.roundingRemainder).load ≤ (scaleOf (item.get "amount")).load := by
      refine HostInt.load_le (HostInt.load_nonneg _) fun hlong => ?_
      obtain ⟨-, -, hfits⟩ := bigRate_eq_false.mp (Bool.or_eq_false_iff.mp hlong).1
      have hlongScale : (HostInt.ofInt scale).big = false := by
        simp [HostInt.ofInt, hfits scale hr.scale_eq]
      rw [hscale, HostInt.load_long hlongScale]
      show |share.roundingRemainder| ≤ |scale|
      have hprod := mul_nonneg hr.gross_nonneg hr.rate_nonneg
      have hrem : share.roundingRemainder = (v.value * rate) % scale := by
        rw [hr.remainder, hr.amount, Int.tdiv_eq_ediv_of_nonneg hprod, mul_comm _ scale]
        exact (Int.emod_def _ _).symm
      rw [hrem, abs_of_nonneg (Int.emod_nonneg _ hr.scale_pos.ne'), abs_of_pos hr.scale_pos]
      exact (Int.emod_lt_of_pos _ hr.scale_pos).le
    have hload := hwithin.load_mono
    have hshare0 := shareLoad_nonneg (.promote (bigRate gross (item.get "amount") values) full.amount)
      (item.get "funding")
    have hfull0 := HostInt.load_nonneg (.promote (bigRate gross (item.get "amount") values) full.amount)
    have hscale0 := (scaleOf (item.get "amount")).load_nonneg
    rw [itemLoad_of_full hamount]
    unfold divisionLoad
    refine ⟨?_, ?_⟩
    · show (HostInt.promote (bigRate v (item.get "amount") values) share.amount).load ≤ _
      omega
    · show (HostInt.promote (bigRate v (item.get "amount") values) share.roundingRemainder).load ≤ _
      omega
  · cases hc

end

end PRF.SlashShapes
