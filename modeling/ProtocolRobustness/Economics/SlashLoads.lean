import ProtocolRobustness.Economics.SlashBuild

/-!
# Slash distributions small enough for 64 bits

* `deductionsCarry`, `balancesCarry`   the sums over payouts, when their loads add up to something
                      that fits;
* `summaryCarries`    the sums of the summary.
-/

namespace PRF.Economics
open LongArith HostInt

section
variable {ι : Type} [DecidableEq ι] {payouts : List (Payout ι)} {base : HostAmounts ι}

theorem sum_load_nonneg {α : Type} (l : List α) (f : α → HostInt) :
    0 ≤ (l.map fun a => (f a).load).sum :=
  List.sum_nonneg fun x hx => by
    obtain ⟨a, -, rfl⟩ := List.mem_map.mp hx
    exact (f a).load_nonneg

/-! ## payouts -/

def fundingLoad (payouts : List (Payout ι)) : ℤ := (payouts.map fun p => p.funding.mass).sum

def amountLoad (payouts : List (Payout ι)) : ℤ := (payouts.map fun p => p.amount.load).sum

theorem mass_foldl_merge (m : HostAmounts ι) :
    (payouts.foldl (fun acc p => acc.merge p.funding) m).mass ≤ m.mass + fundingLoad payouts := by
  unfold fundingLoad
  induction payouts generalizing m with
  | nil => simp
  | cons p payouts ih =>
    rw [List.foldl_cons, List.map_cons, List.sum_cons]
    have hmerge := HostAmounts.mass_merge m p.funding
    have htail := ih (m.merge p.funding)
    omega

theorem mass_deductions : (deductions payouts).mass ≤ fundingLoad payouts :=
  (mass_foldl_merge .empty).trans (zero_add _).le

theorem mass_settle (m : HostAmounts ι) (p : Payout ι) : (settle m p).mass ≤ m.mass + p.amount.load := by
  unfold settle
  split
  · exact HostAmounts.mass_add m _ p.amount
  · exact le_add_of_nonneg_right p.amount.load_nonneg

theorem mass_foldl_settle (m : HostAmounts ι) :
    (payouts.foldl settle m).mass ≤ m.mass + amountLoad payouts := by
  unfold amountLoad
  induction payouts generalizing m with
  | nil => simp
  | cons p payouts ih =>
    rw [List.foldl_cons, List.map_cons, List.sum_cons]
    have hsettle := mass_settle m p
    have htail := ih (settle m p)
    omega

theorem mass_settlements : (settlements payouts).mass ≤ amountLoad payouts :=
  (mass_foldl_settle .empty).trans (zero_add _).le

theorem deductionsCarry (h : fundingLoad payouts < 2 ^ 63) : DeductionsCarry payouts := by
  have hsum : ((payouts.flatMap fun p => p.funding.entries).map fun e => e.2.load).sum
      = fundingLoad payouts := by
    unfold fundingLoad
    clear h
    induction payouts with
    | nil => rfl
    | cons p payouts ih =>
      rw [List.flatMap_cons, List.map_append, List.sum_append, ih, List.map_cons, List.sum_cons,
        HostAmounts.mass_eq]
  obtain ⟨m, hm⟩ := CheckedSum.sums_of_load (hsum ▸ h)
  exact Option.isSome_of_eq_some hm

theorem settlementsCarry (h : amountLoad payouts < 2 ^ 63) :
    (CheckedSum.sums [] (payouts.filterMap Payout.inflow)).isSome := by
  have hsum : ((payouts.filterMap Payout.inflow).map fun e => e.2.load).sum ≤ amountLoad payouts := by
    unfold amountLoad
    clear h
    induction payouts with
    | nil => exact le_rfl
    | cons p payouts ih =>
      rw [List.map_cons, List.sum_cons]
      cases hp : p.inflow with
      | none =>
        rw [List.filterMap_cons_none hp]
        exact ih.trans (le_add_of_nonneg_left p.amount.load_nonneg)
      | some e =>
        obtain ⟨id, -, rfl⟩ := Option.map_eq_some_iff.mp hp
        rw [List.filterMap_cons_some hp, List.map_cons, List.sum_cons]
        exact add_le_add_right ih _
  obtain ⟨m, hm⟩ := CheckedSum.sums_of_load (hsum.trans_lt h)
  exact Option.isSome_of_eq_some hm

theorem load_balance (id : ι) : (balance base payouts id).load ≤ (base.number id).load
    + ((deductions payouts).number id).load + ((settlements payouts).number id).load := by
  have hsub := load_subPromote (base.number id) ((deductions payouts).number id)
  have hadd := load_addPromote ((base.number id).subPromote ((deductions payouts).number id))
    ((settlements payouts).number id)
  exact hadd.trans (add_le_add_left hsub _)

theorem balance?_of_load {id : ι} (h : (base.number id).load + ((deductions payouts).number id).load
    + ((settlements payouts).number id).load < 2 ^ 63) : (balance? base payouts id).isSome := by
  have hb := (base.number id).load_nonneg
  have hs := ((settlements payouts).number id).load_nonneg
  generalize hd : (deductions payouts).number id = d at h
  have hlong : d.big = false → |-d.value| ≤ d.load := fun hl => by rw [abs_neg, load_long hl]
  obtain ⟨n, hn, -, hbig, hload⟩ := hold_of_load d.load_nonneg hlong (by omega)
  have hneg : d.neg? = some n := hn
  obtain ⟨l, hl, -, -, hlload⟩ : ∃ l, (base.number id).add? n = some l ∧ _ := add?_of_load (by omega)
  obtain ⟨c, hc, -⟩ : ∃ c, l.add? ((settlements payouts).number id) = some c ∧ _ :=
    add?_of_load (by omega)
  unfold balance?
  rw [hd, hneg]
  show (((base.number id).add? n).bind fun left => _).isSome
  rw [hl]
  exact Option.isSome_of_eq_some hc

theorem mass_finalAllocations : (finalAllocations base payouts).mass
    ≤ base.mass + (deductions payouts).mass + (settlements payouts).mass := by
  generalize hids : allocationIds base payouts = ids
  have hn := List.nodup_dedup ids
  have hmem : ∀ id, id ∈ base.ids ∨ id ∈ (deductions payouts).ids ∨ id ∈ (settlements payouts).ids →
      id ∈ ids.dedup := by
    intro id hid
    rw [List.mem_dedup, ← hids]
    simpa only [allocationIds, List.mem_append] using hid
  have hmass : (finalAllocations base payouts).mass
      = (ids.dedup.map fun id => (balance base payouts id).load).sum := by
    rw [HostAmounts.mass_eq]
    unfold finalAllocations HostAmounts.tabulate
    rw [hids, List.map_map]
    rfl
  rw [hmass, ← HostAmounts.sum_loads base hn fun id h => hmem id (Or.inl h),
    ← HostAmounts.sum_loads (deductions payouts) hn fun id h => hmem id (Or.inr (Or.inl h)),
    ← HostAmounts.sum_loads (settlements payouts) hn fun id h => hmem id (Or.inr (Or.inr h)),
    ← List.sum_map_add, ← List.sum_map_add]
  exact List.sum_le_sum fun id _ => load_balance id

/-- **The balances of small payouts are computed, and add up.** -/
theorem balancesCarry (h : base.mass + fundingLoad payouts + amountLoad payouts < 2 ^ 63) :
    BalancesCarry base payouts ∧ (finalAllocations base payouts).Sums := by
  have hd : (deductions payouts).mass ≤ _ := mass_deductions
  have hs : (settlements payouts).mass ≤ _ := mass_settlements
  have hfinal : (finalAllocations base payouts).mass ≤ _ := mass_finalAllocations
  have hbase := base.mass_nonneg
  have hd0 := (deductions payouts).mass_nonneg
  refine ⟨⟨settlementsCarry (by omega), fun id _ => balance?_of_load ?_⟩,
    HostAmounts.sums_of_mass (by omega)⟩
  have hb := base.load_number_le id
  have hdid := (deductions payouts).load_number_le id
  have hsid := (settlements payouts).load_number_le id
  omega

theorem totalsCarry (h : base.mass + fundingLoad payouts + amountLoad payouts < 2 ^ 63) :
    TotalsCarry base payouts := by
  have hd : (deductions payouts).mass ≤ _ := mass_deductions
  have hs : (settlements payouts).mass ≤ _ := mass_settlements
  have hbase := base.mass_nonneg
  have hd0 := (deductions payouts).mass_nonneg
  have hs0 := (settlements payouts).mass_nonneg
  obtain ⟨t, ht, -⟩ : ∃ t, HostInt.sum? (payouts.map Payout.amount) = some t ∧ _ := sum?_of_load (by
    rw [List.map_map]
    exact lt_of_le_of_lt (le_add_of_nonneg_left (by omega)) h)
  exact ⟨HostAmounts.sums_of_mass (by omega), HostAmounts.sums_of_mass (by omega),
    HostAmounts.sums_of_mass (by omega), Option.isSome_of_eq_some ht⟩

/-! ## the summary -/

theorem summaryCarries {calculations : List (Calculation ι)}
    (hamount : (calculations.map fun c => c.amount.load).sum < 2 ^ 63)
    (hremainder : (calculations.map fun c => c.roundingRemainder.load).sum < 2 ^ 63) :
    SummaryCarries calculations := by
  obtain ⟨a, ha, -⟩ : ∃ a, HostInt.sum? (calculations.map Calculation.amount) = some a ∧ _ :=
    sum?_of_load (by rwa [List.map_map])
  obtain ⟨r, hr, -⟩ : ∃ r, HostInt.sum? (calculations.map Calculation.roundingRemainder) = some r ∧ _ :=
    sum?_of_load (by rwa [List.map_map])
  obtain ⟨m, hm⟩ : ∃ m, CheckedSum.sums [] (calculations.map fun c => (c.parameterKey, c.amount))
      = some m := CheckedSum.sums_of_load (by rwa [List.map_map])
  exact ⟨Option.isSome_of_eq_some ha, Option.isSome_of_eq_some hr, Option.isSome_of_eq_some hm⟩

end

end PRF.Economics
