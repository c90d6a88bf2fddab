import ProtocolRobustness.Economics.ShortfallLedger

/-!
# Verifying an allocation

The verifier replays a call, and then derives its division anew: ties by the names of the ids, and
no liability that absorbs nothing.

* `namesLe`       the order of ties of the second derivation;
* `TiesAgree`     the units of the largest remainders fall on the same ids by either order, and
                  nothing is available where nothing is owed;
* `verify_iff`    just then `verify` accepts what `allocate` returns.
-/

namespace PRF.Economics.Shortfall
open Bytes Table Apportion

instance : Std.Total nameLe := inferInstanceAs (Std.Total notAfter)

instance : IsTrans String nameLe := inferInstanceAs (IsTrans String notAfter)

/-- liabilities by the names of their ids -/
def namesLe (a b : Liability) : Prop := nameLe a.1 b.1

instance : DecidableRel namesLe := fun _ _ => inferInstanceAs (Decidable (nameLe _ _))

instance : Std.Total namesLe where
  total a b := Std.Total.total (r := nameLe) a.1 b.1

instance : IsTrans Liability namesLe where
  trans a b c h h' := IsTrans.trans (r := nameLe) a.1 b.1 c.1 h h'

/-- nothing is left over where nothing is owed, and the two orders of ties give the units of the
largest remainders to the same ids -/
def TiesAgree (available : ℤ) (rows : List Liability) : Prop :=
  (liabilityTotal rows = 0 → available = 0)
    ∧ (available < liabilityTotal rows → ∀ e ∈ rows,
      (e ∈ Hamilton.winners namesLe available Prod.snd rows
        ↔ e ∈ Hamilton.winners bytesLe available Prod.snd rows))

instance (available : ℤ) (rows : List Liability) : Decidable (TiesAgree available rows) :=
  inferInstanceAs (Decidable ((_ → _) ∧ (_ → ∀ e ∈ rows, _)))

/-! ## the second derivation -/

def participant (e : Liability) : Participant String := ⟨e.1, e.2, some e.2⟩

def itemsOf (rows : List Liability) : List (Item String) := normalizeItems (rows.map participant)

def liabilityOf (it : Item String) : Liability := (it.id, it.weight)

/-- what the second derivation requests for a liability -/
def derived (available : ℤ) (rows : List Liability) (e : Liability) : ℤ :=
  if liabilityTotal rows = 0 then 0 else Hamilton.share namesLe available Prod.snd rows e

def derivedRow (available : ℤ) (rows : List Liability) (e : Liability) : Division String :=
  ⟨e.1, e.2, some e.2, min (derived available rows e) e.2,
    derived available rows e - min (derived available rows e) e.2⟩

section
variable {available : ℤ} {rows : List Liability} (ha : 0 ≤ available) (h : Owed rows)

theorem participants_itemsOf : (itemsOf rows).map Item.toParticipant = rows.map participant :=
  participants_normalizeItems _

theorem liabilityOf_itemsOf : (itemsOf rows).map liabilityOf = rows := by
  have e : (itemsOf rows).map liabilityOf
      = ((itemsOf rows).map Item.toParticipant).map fun p => (p.id, p.weight) := by
    rw [List.map_map]
    rfl
  rw [e, participants_itemsOf, List.map_map]
  exact List.map_id rows

theorem mem_of_itemsOf {it : Item String} (hit : it ∈ itemsOf rows) : liabilityOf it ∈ rows := by
  have hmem := List.mem_map_of_mem (f := liabilityOf) hit
  rwa [liabilityOf_itemsOf] at hmem

theorem cap_itemsOf {it : Item String} (hit : it ∈ itemsOf rows) : it.cap = some it.weight := by
  have hp : it.toParticipant ∈ rows.map participant :=
    participants_itemsOf ▸ List.mem_map_of_mem hit
  obtain ⟨e, -, he⟩ := List.mem_map.mp hp
  rw [← he]
  rfl

theorem itemTotal_itemsOf : itemTotal (itemsOf rows) = liabilityTotal rows := by
  have e : (((itemsOf rows).map liabilityOf).map Prod.snd).sum = liabilityTotal rows := by
    rw [liabilityOf_itemsOf]
    rfl
  rw [← e, List.map_map]
  rfl

include h in
theorem liabilityOf_injOn : ∀ it ∈ itemsOf rows, ∀ it' ∈ itemsOf rows,
    liabilityOf it = liabilityOf it' → it = it' := by
  have hn : ((itemsOf rows).map liabilityOf).Nodup := by
    rw [liabilityOf_itemsOf]
    exact h.nodup
  exact fun it hit it' hit' => List.inj_on_of_nodup_map hn hit hit'

include ha h in
theorem requested_itemsOf {it : Item String} (hit : it ∈ itemsOf rows) :
    singlePassRequested nameLe available (itemsOf rows) .floorWithLargestRemainder .canonicalId it
      = derived available rows (liabilityOf it) := by
  have hw : ∀ it ∈ itemsOf rows, 0 ≤ it.weight := by
    intro it hit
    exact h.nonneg (liabilityOf it) (mem_of_itemsOf hit)
  unfold derived
  by_cases h0 : liabilityTotal rows = 0
  · rw [if_pos h0]
    exact singlePassRequested_zero hw (itemTotal_itemsOf.trans h0) hit
  · have ht : 0 < itemTotal (itemsOf rows) :=
      lt_of_le_of_ne (itemTotal_nonneg hw) fun e => h0 (itemTotal_itemsOf.symm.trans e.symm)
    have hidx : ((itemsOf rows).map Item.idx).Nodup := by
      rw [itemsOf, idx_normalizeItems]
      exact List.nodup_range
    rw [if_neg h0, singlePassRequested_eq ha hw ht hidx hit]
    have hmap : Hamilton.share _ available _ _ _ = _ :=
      Hamilton.share_map namesLe Prod.snd liabilityOf (liabilityOf_injOn h) hit
    rw [liabilityOf_itemsOf] at hmap
    exact hmap

include ha h in
/-- **The reconstruction, row by row.** -/
theorem reconstruct_itemsOf : reconstruct nameLe ⟨available, rows.map participant,
    .floorWithLargestRemainder, .canonicalId, .unallocated⟩
      = some (totalled available (rows.map (derivedRow available rows))) := by
  refine congrArg (fun l => some (totalled available l)) ?_
  show (itemsOf rows).map _ = _
  have e : ((itemsOf rows).map liabilityOf).map (derivedRow available rows)
      = rows.map (derivedRow available rows) := by
    rw [liabilityOf_itemsOf]
  rw [← e, List.map_map]
  refine List.map_congr_left fun it hit => ?_
  show applyCap (singlePassRequested nameLe available (itemsOf rows) .floorWithLargestRemainder
    .canonicalId it) it = _
  rw [requested_itemsOf ha h hit]
  unfold applyCap
  rw [cap_itemsOf hit]
  rfl

/-- the claim that an allocation makes -/
def claimOf (available : ℤ) (rows : List Liability) (allocated : String → ℤ) (total : ℤ) :
    ClaimedDivision String :=
  ⟨rows.map fun e => (e.1, allocated e.1), total, available - total, 0⟩

include ha h in
/-- the ids are the same on both sides, so that the amounts and the totals decide -/
theorem passes_iff (allocated : String → ℤ) (total : ℤ) :
    verifyWeightedProportionality nameLe ⟨available, rows.map participant,
        .floorWithLargestRemainder, .canonicalId, .unallocated⟩
        (claimOf available rows allocated total) = true ↔
      (∀ e ∈ rows, min (derived available rows e) e.2 = allocated e.1)
        ∧ (rows.map fun e => min (derived available rows e) e.2).sum = total
        ∧ (rows.map (derived available rows)).sum = available := by
  have hkeys : ((rows.map fun e => (e.1, allocated e.1)).map Prod.fst).Nodup := by
    rw [List.map_map]
    exact h.distinct
  have hfind : ∀ e ∈ rows, (rows.map fun e => (e.1, allocated e.1)).find?
      (fun e' => e'.1 = e.1) = some (e.1, allocated e.1) := fun e he =>
    (Keyed.search_eq_some hkeys).mpr ⟨List.mem_map_of_mem he, rfl⟩
  have hsum : (rows.map fun e => min (derived available rows e) e.2).sum
      + ((rows.map (derivedRow available rows)).map Division.unmet).sum
      = (rows.map (derived available rows)).sum := by
    rw [List.map_map, ← List.sum_map_add]
    refine congrArg List.sum (List.map_congr_left fun e _ => ?_)
    show min (derived available rows e) e.2
      + (derived available rows e - min (derived available rows e) e.2) = derived available rows e
    omega
  have hallocated : ((rows.map (derivedRow available rows)).map Division.allocated).sum
      = (rows.map fun e => min (derived available rows e) e.2).sum := by
    rw [List.map_map]
    rfl
  have hmissing : ((rows.map (derivedRow available rows)).all fun d =>
      (rows.map fun e => (e.1, allocated e.1)).any fun e => e.1 = d.id) = true := by
    refine List.all_eq_true.mpr fun d hd => ?_
    obtain ⟨e, he, rfl⟩ := List.mem_map.mp hd
    exact List.any_eq_true.mpr ⟨_, List.mem_map_of_mem he, decide_eq_true rfl⟩
  have hextra : ((rows.map fun e => (e.1, allocated e.1)).all fun e =>
      (rows.map (derivedRow available rows)).any fun d => d.id = e.1) = true := by
    refine List.all_eq_true.mpr fun c hc => ?_
    obtain ⟨e, he, rfl⟩ := List.mem_map.mp hc
    exact List.any_eq_true.mpr ⟨_, List.mem_map_of_mem he, decide_eq_true rfl⟩
  have hvalues : ((rows.map (derivedRow available rows)).all fun d =>
      ((rows.map fun e => (e.1, allocated e.1)).find? fun e => e.1 = d.id).all
        fun e => d.allocated = e.2) = true
      ↔ ∀ e ∈ rows, min (derived available rows e) e.2 = allocated e.1 := by
    rw [List.all_map, List.all_eq_true]
    refine forall₂_congr fun e he => ?_
    show ((rows.map fun e => (e.1, allocated e.1)).find? fun e' => e'.1 = e.1).all _ = true ↔ _
    rw [hfind e he]
    exact decide_eq_true_iff
  unfold verifyWeightedProportionality
  rw [reconstruct_itemsOf ha h]
  show ((_ && _) && _ && decide _) = true ↔ _
  rw [Bool.and_eq_true, Bool.and_eq_true, Bool.and_eq_true, decide_eq_true_iff]
  constructor
  · rintro ⟨⟨-, hv⟩, htotal, hunmet, hremainder⟩
    have htotal : ((rows.map (derivedRow available rows)).map Division.allocated).sum = total := htotal
    have hunmet : ((rows.map (derivedRow available rows)).map Division.unmet).sum
      = available - total := hunmet
    exact ⟨hvalues.mp hv, by omega, by omega⟩
  · rintro ⟨hv, htotal, hall⟩
    refine ⟨⟨⟨hmissing, hextra⟩, hvalues.mpr hv⟩, hallocated.trans htotal, ?_, ?_⟩
    · show ((rows.map (derivedRow available rows)).map Division.unmet).sum = available - total
      omega
    · show available - ((rows.map (derivedRow available rows)).map Division.allocated).sum
        - ((rows.map (derivedRow available rows)).map Division.unmet).sum = 0
      omega

/-! ## where the two derivations agree -/

theorem share_eq_share_iff {tie tie' : Liability → Liability → Prop} [DecidableRel tie]
    [DecidableRel tie'] {e : Liability} :
    Hamilton.share tie available Prod.snd rows e = Hamilton.share tie' available Prod.snd rows e
      ↔ (e ∈ Hamilton.winners tie available Prod.snd rows
        ↔ e ∈ Hamilton.winners tie' available Prod.snd rows) := by
  unfold Hamilton.share
  by_cases h1 : e ∈ Hamilton.winners tie available Prod.snd rows
  · by_cases h2 : e ∈ Hamilton.winners tie' available Prod.snd rows
    · simp [h1, h2]
    · simp [h1, h2]
  · by_cases h2 : e ∈ Hamilton.winners tie' available Prod.snd rows
    · simp [h1, h2]
    · simp [h1, h2]

include h in
theorem total_pos (h0 : liabilityTotal rows ≠ 0) : 0 < (rows.map Prod.snd).sum :=
  lt_of_le_of_ne h.total_nonneg (Ne.symm h0)

include h in
/-- enough for all: both give every id its liability -/
theorem covered (h0 : liabilityTotal rows ≠ 0) (hle : liabilityTotal rows ≤ available) :
    ∀ e ∈ rows, min (derived available rows e) e.2 = e.2 ∧ award available rows e = e.2 := by
  intro e he
  unfold derived award
  rw [if_neg h0, if_neg h0]
  exact ⟨min_eq_right (Hamilton.weight_le_share (total_pos h h0) hle (h.nonneg e he)),
    min_eq_left (Hamilton.weight_le_share (total_pos h h0) hle (h.nonneg e he))⟩

include h in
/-- below the total no cap is reached -/
theorem short (h0 : liabilityTotal rows ≠ 0) (hlt : available < liabilityTotal rows) :
    ∀ e ∈ rows, min (derived available rows e) e.2 = derived available rows e
      ∧ award available rows e = Hamilton.share bytesLe available Prod.snd rows e := by
  intro e he
  unfold derived award
  rw [if_neg h0, if_neg h0]
  exact ⟨min_eq_left (Hamilton.share_le_weight (total_pos h h0) hlt (h.nonneg e he)),
    min_eq_right (Hamilton.share_le_weight (total_pos h h0) hlt (h.nonneg e he))⟩

include ha h in
/-- **The second derivation passes just where the ties agree.** -/
theorem derivation_iff {allocated : String → ℤ} {total : ℤ}
    (hallocated : ∀ e ∈ rows, allocated e.1 = award available rows e)
    (htotal : total = (rows.map (award available rows)).sum) :
    verifyWeightedProportionality nameLe ⟨available, rows.map participant,
        .floorWithLargestRemainder, .canonicalId, .unallocated⟩
        (claimOf available rows allocated total) = true ↔ TiesAgree available rows := by
  rw [passes_iff ha h]
  by_cases h0 : liabilityTotal rows = 0
  · have hzero : ∀ e ∈ rows, e.2 = 0 := eq_zero_of_sum_eq_zero h.nonneg h0
    have hderived : ∀ e ∈ rows, derived available rows e = 0 := fun e _ => if_pos h0
    have haward : ∀ e ∈ rows, award available rows e = 0 := fun e _ => if_pos h0
    have hmin : ∀ e ∈ rows, min (derived available rows e) e.2 = award available rows e := by
      intro e he
      rw [hderived e he, hzero e he, haward e he, min_self]
    rw [List.map_congr_left hderived, List.map_congr_left hmin]
    constructor
    · rintro ⟨-, -, hsum⟩
      have hsum : (rows.map fun _ => (0 : ℤ)).sum = available := hsum
      rw [List.sum_map_zero] at hsum
      exact ⟨fun _ => hsum.symm, fun hlt => absurd ha (by omega)⟩
    · rintro ⟨hnone, -⟩
      refine ⟨fun e he => (hmin e he).trans (hallocated e he).symm, htotal.symm, ?_⟩
      rw [hnone h0]
      exact List.sum_map_zero
  · have hsum : (rows.map (derived available rows)).sum = available := by
      unfold derived
      simp only [if_neg h0]
      exact Hamilton.sum_share (total_pos h h0) h.nodup
    rcases le_or_gt (liabilityTotal rows) available with hle | hlt
    · have hc := covered h h0 hle
      refine iff_of_true ⟨fun e he => ?_, ?_, hsum⟩ ⟨fun h' => absurd h' h0, fun hlt => by omega⟩
      · rw [hallocated e he, (hc e he).1, (hc e he).2]
      · rw [htotal, List.map_congr_left fun e he => (hc e he).1,
          List.map_congr_left fun e he => (hc e he).2]
    · have hs := short h h0 hlt
      have htotal' : total = available := by
        rw [htotal, List.map_congr_left fun e he => (hs e he).2]
        exact Hamilton.sum_share (total_pos h h0) h.nodup
      have hmin : (rows.map fun e => min (derived available rows e) e.2).sum = total := by
        rw [List.map_congr_left fun e he => (hs e he).1, hsum, htotal']
      have hrow : ∀ e ∈ rows, (min (derived available rows e) e.2 = allocated e.1
          ↔ (e ∈ Hamilton.winners namesLe available Prod.snd rows
            ↔ e ∈ Hamilton.winners bytesLe available Prod.snd rows)) := by
        intro e he
        rw [(hs e he).1, hallocated e he, (hs e he).2, derived, if_neg h0]
        exact share_eq_share_iff
      constructor
      · rintro ⟨hrows, -⟩
        exact ⟨fun h' => absurd h' h0, fun _ e he => (hrow e he).mp (hrows e he)⟩
      · rintro ⟨-, hties⟩
        exact ⟨fun e he => (hrow e he).mpr (hties hlt e he), hmin, hsum⟩

end

/-! ## the check of an allocation -/

section
variable {env : ShortfallEnv} {call : Call} {recoveryOf : Option Allocation}
  {previous : Option Replayed} {priors : List PriorReservation} {rows : List (String × ℤ)}
  {a : Allocation}

/-- what is derived anew for an allocation -/
theorem Allocates.math (h : Allocates env call recoveryOf previous priors rows a) :
    verifyProRataMath a = verifyWeightedProportionality nameLe
      ⟨call.available, (call.owed recoveryOf).map participant, .floorWithLargestRemainder,
        .canonicalId, .unallocated⟩
      (claimOf call.available (call.owed recoveryOf) a.allocations.get a.totalAllocated) := by
  obtain ⟨root, -, rfl⟩ := h.divided
  unfold verifyProRataMath mathRequest mathClaim claimOf
  refine congrArg₂ (verifyWeightedProportionality nameLe) ?_ ?_
  · show PolicyRequest.mk _ ((call.obligations.map _).map _) _ _ _ = _
    rw [List.map_map, Call.owed, List.map_map]
    rfl
  · show ClaimedDivision.mk ((call.obligations.map _).map _) _ _ _ = _
    rw [List.map_map, Call.owed, List.map_map]
    rfl

/-- **The second derivation of an allocation passes just where the ties agree.** -/
theorem Allocates.math_iff (h : Allocates env call recoveryOf previous priors rows a) :
    verifyProRataMath a = true ↔ TiesAgree call.available (call.owed recoveryOf) := by
  have howed := owed_owed h.admitted h.committed
  obtain rfl := h.rows_eq
  rw [h.math]
  obtain ⟨root, -, rfl⟩ := h.divided
  refine derivation_iff h.admitted.input.1 howed ?_ ?_
  · intro e he
    obtain ⟨o, ho, rfl⟩ := List.mem_map.mp he
    exact get_allocatedMap h.admitted h.committed ho
  · show ((ShortfallEnv.allocatedMap (awarded call recoveryOf)).entries.map Prod.snd).sum = _
    rw [entries_allocatedMap h.admitted h.committed, awarded, List.map_map]
    exact ((orderedRows_perm _).map _).sum_eq

end

/-- a result is the replay of its own inputs, so that the derivation decides -/
theorem verify_claiming {env : ShortfallEnv} {inputs : Inputs} {a : Allocation}
    (hok : env.allocate inputs = .ok a) :
    env.verify (inputs.claiming a) = verifyProRataMath a := by
  obtain ⟨call, recoveryOf, claimed, previousInputs, priors⟩ := inputs
  have hreplay : env.allocate (.mk call recoveryOf (some a) previousInputs priors) = .ok a := by
    rw [ShortfallEnv.allocate] at hok ⊢
    exact hok
  show replayed (some a) (env.allocate (.mk call recoveryOf (some a) previousInputs priors)) = _
  rw [hreplay]
  show decide (a = a ∧ verifyProRataMath a = true) = _
  simp

theorem allocates_of_allocate {env : ShortfallEnv} {inputs : Inputs} {a : Allocation}
    (hok : env.allocate inputs = .ok a) : ∃ previous priors rows,
      Allocates env inputs.call inputs.recoveryOf previous priors rows a := by
  obtain ⟨call, recoveryOf, claimed, previousInputs, priors⟩ := inputs
  rw [ShortfallEnv.allocate] at hok
  obtain ⟨rows, h⟩ := allocates_of_ok hok
  exact ⟨_, _, rows, h⟩

/-! ### at two obligations -/

/-- hashes that tell payables of different amounts apart, and sources and settlements that are
always valid -/
def plainEnv : ShortfallEnv where
  sha256 := fun _ => ""
  policyHash := fun b => b.id
  payableHash := fun b => String.ofList (List.replicate (Encodable.encode b.amount) 'x')
  backingHash := fun _ => ""
  allocationHash := fun _ => ""
  batchHash := fun _ _ _ => ""
  verifySource := fun _ _ _ _ => none
  verifySettlement := fun _ => some ""

theorem plainEnv_commitsAmount : CommitsAmount plainEnv := by
  intro b b' h
  have h := congrArg List.length (String.ofList_injective h)
  rw [List.length_replicate, List.length_replicate] at h
  exact Encodable.encode_injective h

def plainPayable (amount : ℤ) : Payable :=
  let body : PayableBody := ⟨"", none, none, some "hunter", amount, none, .pendingBacking, .null, .null⟩
  { body with hash := plainEnv.payableHash body }

def plainPolicy : Policy where
  schema := "bounty-shortfall-policy.v1"
  id := "policy"
  version := 1
  authorityRoot := "authority"
  token := "token"
  snapshotRoot := "source"
  parentRoot := none
  terms := .null
  hash := "policy"

def plainCall (obligations : List Obligation) (available : ℤ) : Call where
  policy := plainPolicy
  authorities := ["authority"]
  obligations := obligations
  fundingSource := ⟨"token", "source", "event", available, .null⟩
  fundingTrustPolicy := .null
  available := available
  previousSettlements := none
  eventId := "event"

def plainInputs (obligations : List Obligation) (available : ℤ) : Inputs :=
  .mk (plainCall obligations available) none none none []

/-- what is returned, but for the root of the division -/
def plainAllocation (obligations : List Obligation) (available : ℤ) (root : String) : Allocation :=
  plainEnv.sealed (plainEnv.allocationBody (plainCall obligations available) none [] none
    (newLedger plainEnv (plainCall obligations available) none none) root)

theorem plain_ok {obligations : List Obligation} (hvalid : plainEnv.validObligations obligations)
    {available : ℤ} (ha : 0 ≤ available) :
    ∃ root, plainEnv.allocate (plainInputs obligations available)
      = .ok (plainAllocation obligations available root) := by
  have hpolicy : plainEnv.authorizedPolicy plainPolicy ["authority"] := by decide
  have hevent : "event" ≠ "" := by decide
  have hadm : Admitted plainEnv (plainCall obligations available) none none [] :=
    { authorized := hpolicy
      valid := hvalid
      successor := Or.inl (le_refl 1)
      reservations := fun p hp => absurd hp List.not_mem_nil
      source := rfl
      unreserved := fun p hp => absurd hp List.not_mem_nil
      input := ⟨ha, le_refl _, hevent, rfl⟩
      recoverable := fun r hr => absurd hr (Option.not_mem_none r) }
  obtain ⟨root, hok⟩ := allocateWith_eq hadm (fun r hr => absurd hr (Option.not_mem_none r))
    plainEnv_commitsAmount
  rw [plainInputs, ShortfallEnv.allocate, ShortfallEnv.replayPrevious, ShortfallEnv.replayPriors]
  exact ⟨root, hok⟩

def heirs (first second : String) : List Obligation :=
  [⟨first, plainPayable 1⟩, ⟨second, plainPayable 3⟩]

theorem heirs_valid : plainEnv.validObligations (heirs "a" "b")
    ∧ plainEnv.validObligations (heirs "b" "aa") := by decide +kernel

/-! ### the result -/

/-- **A result of `allocate` is valid just where the ties agree.** -/
theorem verify_iff {env : ShortfallEnv} {inputs : Inputs} {a : Allocation}
    (hok : env.allocate inputs = .ok a) : env.verify (inputs.claiming a) = true
      ↔ TiesAgree inputs.call.available (inputs.call.owed inputs.recoveryOf) := by
  obtain ⟨previous, priors, rows, h⟩ := allocates_of_allocate hok
  rw [verify_claiming hok]
  exact h.math_iff

theorem verify_heirs : ∃ a, plainEnv.allocate (plainInputs (heirs "a" "b") 2) = .ok a
    ∧ plainEnv.verify ((plainInputs (heirs "a" "b") 2).claiming a) = true := by
  have ha : (0 : ℤ) ≤ 2 := by decide
  obtain ⟨root, hok⟩ := plain_ok heirs_valid.1 ha
  have hties : TiesAgree 2 ((plainCall (heirs "a" "b") 2).owed none) := by decide +kernel
  exact ⟨_, hok, (verify_iff hok).mpr hties⟩

/-- the remainders of 2 over 1 and 3 tie; `b` comes first by its bytes, `aa` by its name -/
theorem verify_heirs_tied : ∃ a, plainEnv.allocate (plainInputs (heirs "b" "aa") 2) = .ok a
    ∧ plainEnv.verify ((plainInputs (heirs "b" "aa") 2).claiming a) = false := by
  have ha : (0 : ℤ) ≤ 2 := by decide
  obtain ⟨root, hok⟩ := plain_ok heirs_valid.2 ha
  have hties : ¬ TiesAgree 2 ((plainCall (heirs "b" "aa") 2).owed none) := by decide +kernel
  obtain ⟨previous, priors, rows, h⟩ := allocates_of_allocate hok
  refine ⟨_, hok, ?_⟩
  rw [verify_claiming hok]
  exact Bool.eq_false_iff.mpr fun hmath => hties (h.math_iff.mp hmath)

end PRF.Economics.Shortfall
