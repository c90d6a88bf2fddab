import ProtocolRobustness.Yield.BatchCap
import ProtocolRobustness.Yield.Crystallize
import ProtocolRobustness.Yield.Settlement
import ProtocolRobustness.Yield.Withdraw

/-!
# What a withdrawal leaves unaccounted

A position that is not withdrawn is unwinding, and carries a shortfall whose parts add up to its
basis: that is what a later claim resolves.  The status follows the mode of the settlement, the
shortfall a test of its own, and the parts are made under different conditions.

* `waterfallLoop_tables`     the loop of the settlement, for yields of either sign;
* `Fulfilled`                the totals of a settlement;
* `Accounted`, `Covered`     what a withdrawal promises, and when it keeps to it;
* `settle_accounted_iff`     one settlement;
* `withdrawRow_frame`        what a row of a batch leaves as it is;
* `withdrawals_accounted_iff`   one withdrawal, and every row of a batch.
-/

namespace PRF.Yield.Withdraw
open Table Amounts

/-! ## the loop over the buckets -/

section
variable {m : Amounts}

/-- what the loop fills: of a bucket below nothing it fills nothing, and goes on with more -/
def poured (m : Amounts) : ℤ → List Bucket → ℤ
  | _, [] => 0
  | remaining, bucket :: buckets =>
    if remaining = 0 then 0
    else
      max 0 (min (amountOf m bucket) remaining) +
        poured m (remaining - min (amountOf m bucket) remaining) buckets

theorem waterfallLoop_tables {buckets : List Bucket} (hn : buckets.Nodup) {remaining : ℤ}
    (h0 : 0 ≤ remaining) {filled deferred f d : Amounts}
    (ht : LoopTables m filled deferred buckets)
    (hl : waterfallLoop m remaining filled deferred buckets = some (f, d)) :
    LoopTables m f d [] ∧ f.total = filled.total + poured m remaining buckets := by
  induction buckets generalizing remaining filled deferred with
  | nil =>
    cases hl
    exact ⟨ht, (add_zero _).symm⟩
  | cons bucket buckets ih =>
    rw [List.nodup_cons] at hn
    unfold waterfallLoop at hl
    unfold poured
    by_cases hr : remaining = 0
    · rw [if_pos hr] at hl ⊢
      cases hl
      exact ⟨⟨ht.keys, ht.deferred_keys, fun k hk => (by cases hk), ht.seen, ht.kept⟩,
        (add_zero _).symm⟩
    · rw [if_neg hr] at hl ⊢
      simp only [Option.bind_eq_bind, Option.bind_eq_some_iff] at hl
      obtain ⟨left, hleft, short, hshort, hl⟩ := hl
      rw [Accrual.long?_eq hleft, Accrual.long?_eq hshort] at hl
      by_cases hz : 0 < amountOf m bucket
      · rw [if_pos (show 0 < min (amountOf m bucket) remaining by omega),
          max_eq_right (by omega)] at hl
        obtain ⟨ht', htotal⟩ := ih hn.2 (by omega)
          (ht.put hn.1 (show 0 < min (amountOf m bucket) remaining by omega)
            (show 0 ≤ amountOf m bucket - min (amountOf m bucket) remaining by omega) (by omega)) hl
        rw [total_put (ht.fresh bucket List.mem_cons_self).1] at htotal
        exact ⟨ht', by omega⟩
      · -- nothing is claimable of this bucket
        rw [if_neg (show ¬ 0 < min (amountOf m bucket) remaining by omega), if_neg (by omega)] at hl
        obtain ⟨ht', htotal⟩ := ih hn.2 (by omega)
          ⟨ht.keys, ht.deferred_keys, fun k hk => ht.fresh k (List.mem_cons_of_mem _ hk), ht.seen,
            ht.kept⟩ hl
        exact ⟨ht', by omega⟩

end

/-! ## the totals of a settlement -/

/-- the claimable value: principal less impairment, realized and deferred yield -/
def claimableValue (p : Yield.Position) : ℤ := claimableTotal p .notClaimable

/-- what is filled of a position that there is too little for -/
def fillable (available : ℤ) (p : Yield.Position) : ℤ :=
  available + if claimable p .notClaimable .principal < available then max 0 (-p.realizedYield) else 0

theorem claimableValue_eq (p : Yield.Position) :
    claimableValue p = claimable p .notClaimable .principal + p.realizedYield + p.deferredYield := by
  show _ + _ + _ + 0 = _
  exact add_zero _

theorem poured_eq {p : Yield.Position} {available : ℤ} (h0 : 0 ≤ available)
    (hlt : available < claimableValue p) :
    poured (requestedList p .notClaimable) available [.principal, .realizedYield, .deferredYield]
      = fillable available p := by
  have hp : 0 ≤ claimable p .notClaimable .principal := le_max_left _ _
  have hr : claimable p .notClaimable .realizedYield = p.realizedYield := rfl
  have hd : claimable p .notClaimable .deferredYield = p.deferredYield := rfl
  rw [claimableValue_eq] at hlt
  simp only [poured, fillable, amountOf_requestedList, hr, hd]
  generalize claimable p .notClaimable .principal = a at *
  split_ifs <;> omega

theorem requestedOf_spec {p : Yield.Position} {m : Amounts}
    (h : requestedOf p defaultPartialFillPolicy = some m) : m = requestedList p .notClaimable := by
  unfold requestedOf claimablePrincipal claimableRealizedYield at h
  simp only [Option.bind_eq_bind, Option.bind_eq_some_iff] at h
  obtain ⟨principal, ⟨a, ha, b, hb, c, hc, hprincipal⟩, realized, hrealized, deferred, hdeferred,
    unrealized, hunrealized, h⟩ := h
  rw [Accrual.long?_eq ha, Accrual.long?_eq hb] at hc
  obtain rfl := Option.some.inj hprincipal
  obtain rfl := Option.some.inj hunrealized
  obtain rfl := Option.some.inj h
  rw [Accrual.long?_eq hc, Accrual.long?_eq hrealized, Accrual.long?_eq hdeferred]
  show nonzero [(.principal, _), (.realizedYield, _), (.deferredYield, _)]
    = nonzero ([(.principal, _), (.realizedYield, _), (.deferredYield, _)]
      ++ [(Bucket.unrealizedYield, 0)])
  unfold nonzero
  rw [List.filter_append]
  exact (List.append_nil _).symm

/-- what a settlement comes to -/
structure Fulfilled (available : ℤ) (p : Yield.Position) (mode : SettlementMode) (t : Totals) :
    Prop where
  basis : t.basis = claimableValue p
  haircut : t.haircut = 0
  fulfilled : t.fulfilled =
    if claimableValue p ≤ available then claimableValue p else fillable available p
  deferred : t.fulfilled + t.deferred = claimableValue p
  mode : mode = if claimableValue p ≤ available then .fullFill else .partialFill

theorem totalsOf_spec {d : Decision} {t : Totals} (h : totalsOf d = some t) :
    t.fulfilled = d.filled.total ∧ t.deferred = d.deferred.total ∧ t.haircut = d.haircut.total ∧
      t.basis = d.requested.total := by
  unfold totalsOf at h
  simp only [Option.bind_eq_bind, Option.bind_eq_some_iff] at h
  obtain ⟨fulfilled, hf, deferred, hd, haircut, hh, basis, hb, h⟩ := h
  obtain rfl := Option.some.inj h
  exact ⟨Accrual.sumLongs_eq hf, Accrual.sumLongs_eq hd, Accrual.sumLongs_eq hh,
    Accrual.sumLongs_eq hb⟩

theorem total_read {m f : Amounts} (hm : (m.map Prod.fst).Nodup) (hf : (f.map Prod.fst).Nodup)
    (hout : ∀ k, k ∉ m.map Prod.fst → amountOf f k = 0) :
    f.total = (m.map fun e => amountOf f e.1).sum := by
  have hkeys : (m.map fun e => (e.1, amountOf f e.1)).map Prod.fst = m.map Prod.fst := by
    rw [List.map_map]
    rfl
  have hread : f.total = Amounts.total (m.map fun e => (e.1, amountOf f e.1)) := by
    refine total_congr hf (hkeys.symm ▸ hm) fun k => ?_
    by_cases hk : k ∈ m.map Prod.fst
    · obtain ⟨e, he, rfl⟩ := List.mem_map.mp hk
      exact (amountOf_of_mem (hkeys.symm ▸ hm) (List.mem_map.mpr ⟨e, he, rfl⟩)).symm
    · rw [hout k hk, amountOf_of_not_mem (by rwa [hkeys])]
  rw [hread]
  unfold Amounts.total
  rw [List.map_map]
  rfl

theorem total_allDeferred {m f d : Amounts} (hm : (m.map Prod.fst).Nodup)
    (ht : LoopTables m f d []) :
    f.total + Amounts.total (Table.into d (m.filter fun e => e.1 ∉ f.map Prod.fst)) = m.total := by
  have hrest := ht.deferred hm
  have hf : ∀ k, k ∉ m.map Prod.fst → amountOf f k = 0 := by
    intro k hk
    by_cases hkf : k ∈ f.map Prod.fst
    · have hseen := ht.seen k hkf
      rw [amountOf_of_not_mem hk] at hseen
      omega
    · exact amountOf_of_not_mem hkf
  have hr : ∀ k, k ∉ m.map Prod.fst →
      amountOf (Table.into d (m.filter fun e => e.1 ∉ f.map Prod.fst)) k = 0 := by
    intro k hk
    rw [hrest k, hf k hk, amountOf_of_not_mem hk, sub_zero]
  rw [total_read hm ht.keys hf, total_read hm (Table.nodup_into ht.deferred_keys _) hr,
    total_read hm hm fun k => amountOf_of_not_mem, ← List.sum_map_add]
  congr 1
  apply List.map_congr_left
  intro e _
  rw [hrest e.1]
  omega

theorem Fulfilled.of_full {available : ℤ} {p : Yield.Position} {t : Totals}
    (hle : claimableValue p ≤ available) (hbasis : t.basis = claimableValue p)
    (hf : t.fulfilled = claimableValue p) (hd : t.deferred = 0) (hh : t.haircut = 0) :
    Fulfilled available p .fullFill t where
  basis := hbasis
  haircut := hh
  fulfilled := by rw [hf, if_pos hle]
  deferred := by omega
  mode := (if_pos hle).symm

theorem calculateFulfillment_fulfilled {available : ℤ} (h0 : 0 ≤ available) {p : Yield.Position}
    {d : Decision} {t : Totals}
    (h : calculateFulfillment Bucket.canonicalKey available p ⟨none, none, none, none⟩ = some d)
    (ht : totalsOf d = some t) : Fulfilled available p d.settlementMode t := by
  obtain ⟨hf, hd, hh, hb⟩ := totalsOf_spec ht
  unfold calculateFulfillment at h
  simp only [Option.bind_eq_bind, Option.bind_eq_some_iff] at h
  obtain ⟨liquidity, hliquidity, m, hm, h⟩ := h
  obtain rfl := requestedOf_spec hm
  have hkeys : ((requestedList p .notClaimable).map Prod.fst).Nodup :=
    (keys_all p .notClaimable).sublist (List.filter_sublist.map Prod.fst)
  have htotal : (requestedList p .notClaimable).total = claimableValue p :=
    total_requestedList p .notClaimable
  rw [Accrual.long?_eq hliquidity, max_eq_right h0] at h
  split at h
  · next hempty =>
    obtain rfl := Option.some.inj h
    rw [List.isEmpty_iff.mp hempty] at htotal
    have hzero : claimableValue p = 0 := htotal.symm
    exact Fulfilled.of_full (by omega) (hb.trans hzero.symm) (hf.trans hzero.symm) hd hh
  · change calculateFulfillmentWaterfall available _ defaultPartialFillPolicy = some d at h
    unfold calculateFulfillmentWaterfall at h
    simp only [Option.bind_eq_bind, Option.bind_eq_some_iff] at h
    obtain ⟨total, hsum, short, hshort, h⟩ := h
    obtain rfl : total = claimableValue p := (Accrual.sumLongs_eq hsum).trans htotal
    obtain rfl := Accrual.long?_eq hshort
    split at h
    · next hle =>
      obtain rfl := Option.some.inj h
      exact Fulfilled.of_full (by omega) (hb.trans htotal) (hf.trans htotal) hd hh
    · next hlt =>
      obtain ⟨⟨filled, deferred⟩, hl, h⟩ := Option.bind_eq_some_iff.mp h
      obtain rfl := Option.some.inj h
      have hshort : ¬ claimableValue p ≤ available := by omega
      obtain ⟨htables, hpoured⟩ := waterfallLoop_tables (by decide) h0
        (LoopTables.start _ defaultPartialFillPolicy.fillOrder) hl
      have hrest := total_allDeferred hkeys htables
      have hfilled : filled.total = fillable available p :=
        (hpoured.trans (zero_add _)).trans (poured_eq h0 (by omega))
      exact
        { basis := hb.trans htotal
          haircut := hh
          fulfilled := by rw [if_neg hshort, hf]; exact hfilled
          deferred := by rw [hf, hd, ← htotal]; exact hrest
          mode := (if_neg hshort).symm }

/-! ## what is accounted for -/

/-- with liquidity enough, a claim resolves the position -/
def Resolvable (after : Position) : Prop :=
  ∀ availableRatio minRatio p, minRatio ≤ availableRatio →
    claimDeferred availableRatio minRatio after = some p → p.account.status = .withdrawn

/-- a position is withdrawn and its request filled, or it is unwinding and its shortfall has parts
that add up to the value it was settled at -/
def Accounted (crystallized after : Position) (row : LedgerRow) : Prop :=
  after.account.status = .withdrawn ∧ row.filled = row.requested ∨
    after.account.status = .unwinding ∧ Resolvable after ∧ ∃ s, after.shortfall = some s ∧
      s.fulfilledAmount + s.deferredAmount + s.haircutAmount + s.basisNegativeUnrealized
        = s.basisAmount ∧
      s.basisAmount = claimableValue crystallized.claims + crystallized.account.unrealizedYield

/-- a position to settle, with its shortfall model and the liquidity there is -/
structure Case where
  model : ShortfallModel
  available : ℤ
  position : Position

/-- there is liquidity for the claimable value, or too little even for what a loss leaves of it, and
then a gain is recoverable -/
def Case.Covered (c : Case) : Prop :=
  claimableValue c.position.claims ≤ c.available ∨
    fillable c.available c.position.claims
        < claimableValue c.position.claims + min 0 c.position.account.unrealizedYield ∧
      (c.model.recoverable.getD true = true ∨ c.position.account.unrealizedYield ≤ 0)

theorem resolvable_of_shortfall {p : Position} {s : Shortfall} (h : p.shortfall = some s) :
    Resolvable p := by
  intro availableRatio minRatio p' hle hclaim
  unfold claimDeferred at hclaim
  rw [h] at hclaim
  dsimp only at hclaim
  rw [if_pos hle] at hclaim
  obtain ⟨realizedYield, _, rfl⟩ := Option.map_eq_some_iff.mp hclaim
  rfl

structure Parts (model : ShortfallModel) (u : ℤ) (t : Totals) (s : Shortfall) : Prop where
  fulfilled : s.fulfilledAmount = t.fulfilled
  negative : s.basisNegativeUnrealized = min 0 u
  basis : s.basisAmount = t.basis + u
  rest : s.deferredAmount + s.haircutAmount =
    if model.recoverable.getD true = true then t.deferred + t.haircut + max 0 u
    else t.deferred + t.haircut

theorem shortfallOf_spec {now : ℤ} {model : ShortfallModel} {p : Position} {t : Totals}
    {shortfall : Option Shortfall} (h : shortfallOf now model p t = some shortfall) :
    if t.fulfilled < t.basis + min 0 p.account.unrealizedYield then
      ∃ s, shortfall = some s ∧ Parts model p.account.unrealizedYield t s
    else shortfall = none := by
  unfold shortfallOf at h
  simp only [Option.bind_eq_bind, Option.bind_eq_some_iff] at h
  obtain ⟨gross, _, adjusted, hadjusted, short, hshort, h⟩ := h
  rw [Accrual.long?_eq hshort, Accrual.long?_eq hadjusted] at h
  split at h
  · next hlt =>
    rw [if_pos (by omega)]
    simp only [Option.bind_eq_some_iff] at h
    obtain ⟨basis, hbasis, _, _, _, _, deferred, hdeferred, haircut, hhaircut, h⟩ := h
    refine ⟨_, (Option.some.inj h).symm, rfl, rfl, ?_, ?_⟩
    · show basis = t.basis + p.account.unrealizedYield
      rw [Accrual.long?_eq hbasis]
      split <;> omega
    · show deferred + haircut = _
      rw [Accrual.long?_eq hdeferred]
      unfold haircutAmount at hhaircut
      cases hr : model.recoverable.getD true with
      | true =>
        rw [hr] at hhaircut
        obtain rfl := Option.some.inj hhaircut
        simp only [if_true, true_and]
        split <;> omega
      | false =>
        rw [hr] at hhaircut
        obtain ⟨lost, hlost, hhaircut⟩ := Option.bind_eq_some_iff.mp hhaircut
        rw [Accrual.long?_eq hhaircut, Accrual.long?_eq hlost]
        simp
  · next hle =>
    rw [if_neg (by omega)]
    exact (Option.some.inj h).symm

/-- **One settlement.** -/
theorem settle_accounted_iff {now : ℤ} {c : Case} (h0 : 0 ≤ c.available) {ownerId : String}
    {s : Settlement} (h : settle now c.model c.available c.position = some s) :
    Accounted c.position s.position (s.row ownerId) ↔ c.Covered := by
  unfold settle at h
  simp only [Option.bind_eq_bind, Option.bind_eq_some_iff] at h
  obtain ⟨d, hd, t, ht, shortfall, hshortfall, realizedYield, _, h⟩ := h
  obtain rfl := Option.some.inj h
  rw [max_eq_right h0] at hd
  have hf := calculateFulfillment_fulfilled h0 hd ht
  have hs := shortfallOf_spec hshortfall
  have hbasis := hf.basis
  have hhaircut := hf.haircut
  have hdeferred := hf.deferred
  have hfulfilled := hf.fulfilled
  have hmode := hf.mode
  unfold Case.Covered
  by_cases hle : claimableValue c.position.claims ≤ c.available
  · rw [if_pos hle] at hfulfilled hmode
    refine iff_of_true (Or.inl ⟨?_, ?_⟩) (Or.inl hle)
    · show (if _ then _ else _) = _
      rw [hmode]
      rfl
    · show t.fulfilled = t.basis
      omega
  · rw [if_neg hle] at hfulfilled hmode
    have hstatus : (settled c.position d.settlementMode realizedYield shortfall).account.status
        = .unwinding := by
      rw [hmode]
      rfl
    rw [hbasis, hfulfilled] at hs
    constructor
    · rintro (⟨hwithdrawn, _⟩ | ⟨_, hresolvable, s, hsome, hsum, _⟩)
      · rw [hstatus] at hwithdrawn
        cases hwithdrawn
      · right
        change shortfall = some s at hsome
        split at hs
        · next hlt =>
          obtain ⟨s', hs', hparts⟩ := hs
          obtain rfl := Option.some.inj (hsome.symm.trans hs')
          refine ⟨hlt, ?_⟩
          have hrest := hparts.rest
          have h1 := hparts.fulfilled
          have h2 := hparts.negative
          have h3 := hparts.basis
          by_cases hr : c.model.recoverable.getD true = true
          · exact Or.inl hr
          · rw [if_neg hr] at hrest
            right
            omega
        · rw [hs] at hsome
          cases hsome
    · rintro (hle' | ⟨hlt, hr⟩)
      · exact absurd hle' hle
      · rw [if_pos hlt] at hs
        obtain ⟨s, hs, hparts⟩ := hs
        have hrest := hparts.rest
        have h1 := hparts.fulfilled
        have h2 := hparts.negative
        have h3 := hparts.basis
        refine Or.inr ⟨hstatus, resolvable_of_shortfall hs, s, hs, ?_, by omega⟩
        by_cases hrec : c.model.recoverable.getD true = true
        · rw [if_pos hrec] at hrest
          omega
        · have hloss := hr.resolve_left hrec
          rw [if_neg hrec] at hrest
          omega

/-! ## one withdrawal -/

section
variable {host : Host} {w w' accrued : World} {moduleId ownerId : String} {p : Position}

/-- what a withdrawal settles, read before it -/
def withdrawCase (host : Host) (w : World) (moduleId ownerId : String) : Option Case := do
  let p ← w.position ownerId
  let accrued ← crystallize host w moduleId ownerId p
  let position ← accrued.position ownerId
  let base ← accrued.positionCustodyBase p.account.token ownerId
  some
    { model := accrued.shortfallModel moduleId p.account.token
      available := max 0 (accrued.recoverable moduleId p.account.token w.now base)
      position }

/-- one ledger is added, and it has the row -/
def Recorded (w w' : World) (row : LedgerRow) : Prop :=
  ∃ ledger, w'.withdrawalLedger = w.withdrawalLedger ++ [ledger] ∧ row ∈ ledger.rows

@[simp] theorem emit_positions (w : World) (ownerId : String) (s : Settlement) :
    (emitShortfallEvent w ownerId s).positions = w.positions := by
  unfold emitShortfallEvent
  split <;> rfl

@[simp] theorem emit_ledger (w : World) (ownerId : String) (s : Settlement) :
    (emitShortfallEvent w ownerId s).withdrawalLedger = w.withdrawalLedger := by
  unfold emitShortfallEvent
  split <;> rfl

theorem setPosition_position (w : World) (ownerId : String) (p : Position) (k : String) :
    (w.setPosition ownerId p).position k = if ownerId = k then some p else w.position k :=
  find_put _ _ _ _

theorem applyAccrualDecision_ledger {d : Accrual.Decision}
    (h : w.applyAccrualDecision p d = some w') : w'.withdrawalLedger = w.withdrawalLedger := by
  unfold World.applyAccrualDecision at h
  obtain ⟨after, _, h⟩ := Option.bind_eq_some_iff.mp h
  split at h
  · exact (Option.some.inj h) ▸ rfl
  · obtain ⟨updated, _, h⟩ := Option.bind_eq_some_iff.mp h
    exact (Option.some.inj h) ▸ rfl

theorem crystallize_ledger (h : crystallize host w moduleId ownerId p = some accrued) :
    accrued.withdrawalLedger = w.withdrawalLedger := by
  obtain ⟨d, _, h⟩ := Option.bind_eq_some_iff.mp h
  exact applyAccrualDecision_ledger h

theorem withdraw_settles (hp : w.position ownerId = some p) (hactive : p.account.status = .active)
    (hmodule : p.account.moduleId = moduleId) (h : withdraw host w moduleId ownerId = some w') :
    ∃ c s, withdrawCase host w moduleId ownerId = some c ∧ 0 ≤ c.available ∧
      settle w.now c.model c.available c.position = some s ∧
      w'.position ownerId = some s.position ∧ Recorded w w' (s.row ownerId) := by
  unfold withdraw at h
  rw [hp] at h
  dsimp only at h
  rw [if_neg (by simp [hactive, hmodule])] at h
  obtain ⟨⟨v, s⟩, hsettle, rfl⟩ := Option.map_eq_some_iff.mp h
  unfold settleOwner at hsettle
  simp only [Option.bind_eq_bind, Option.bind_eq_some_iff] at hsettle
  obtain ⟨accrued, haccrued, position, hposition, base, hbase, s', hs, hsettle⟩ := hsettle
  obtain ⟨rfl, rfl⟩ := Prod.mk.inj (Option.some.inj hsettle)
  refine ⟨⟨accrued.shortfallModel moduleId p.account.token,
    max 0 (accrued.recoverable moduleId p.account.token w.now base), position⟩, s', ?_,
    le_max_left _ _, ?_, ?_, ?_⟩
  · unfold withdrawCase
    rw [hp]
    show (crystallize host w moduleId ownerId p >>= _) = _
    rw [haccrued]
    show (accrued.position ownerId >>= _) = _
    rw [hposition]
    show (accrued.positionCustodyBase p.account.token ownerId >>= _) = _
    rw [hbase]
    rfl
  · unfold settle at hs ⊢
    rw [max_eq_right (le_max_left 0 _)]
    exact hs
  · show find (emitShortfallEvent _ _ _).positions ownerId = _
    rw [emit_positions]
    exact (setPosition_position _ _ _ _).trans (if_pos rfl)
  · have hledger := crystallize_ledger haccrued
    exact ⟨_, (emit_ledger _ _ _).trans (congrArg (· ++ _) hledger), List.mem_singleton_self _⟩

/-! ## the rows of a batch -/

/-- a position is kept under the owner that it names -/
def Keyed (w : World) : Prop :=
  ∀ ownerId p, w.position ownerId = some p → p.account.ownerId = ownerId

/-- what a row of a batch settles, read before it -/
def rowCase (host : Host) (b : Batch) (moduleId ownerId : String) : Option Case := do
  let p ← b.w.position ownerId
  let accrued ← crystallize host b.w moduleId ownerId p
  let position ← accrued.position ownerId
  some
    { model := accrued.shortfallModel moduleId p.account.token
      available := max 0 b.remaining
      position }

theorem crystallize_frame (hk : Keyed w) (hp : w.position ownerId = some p)
    (h : crystallize host w moduleId ownerId p = some accrued) :
    Keyed accrued ∧ ∀ k, k ≠ ownerId → accrued.position k = w.position k := by
  obtain ⟨d, hd, h⟩ := Option.bind_eq_some_iff.mp h
  have hread := Accrual.accrualDecision_position hd
  unfold World.applyAccrualDecision at h
  obtain ⟨after, hafter, h⟩ := Option.bind_eq_some_iff.mp h
  split at h
  · obtain rfl := Option.some.inj h
    exact ⟨hk, fun k _ => rfl⟩
  · next account haccount =>
    obtain ⟨updated, hupdated, h⟩ := Option.bind_eq_some_iff.mp h
    obtain rfl := Option.some.inj h
    have hsame : account = p.account := by
      have hfind := (Option.filter_eq_some_iff.mp (hread.symm.trans haccount)).1
      have hmap : find w.accrual.positions ownerId = (w.position ownerId).map (·.account) :=
        find_map w.positions (fun _ p => p.account) ownerId
      rw [hmap, hp] at hfind
      exact (Option.some.inj hfind).symm
    have howner : account.ownerId = ownerId := hsame ▸ hk ownerId p hp
    obtain ⟨_, hwritten, hleft⟩ := Accrual.applyAccrualDecision_written haccount hafter
    rw [Option.some.inj (hwritten.symm.trans hupdated)] at hleft
    have hput : ∀ k, find (put w.positions account.ownerId { p with account := updated }) k
        = if ownerId = k then some { p with account := updated } else w.position k := by
      intro k
      rw [howner]
      exact find_put _ _ _ _
    refine ⟨fun k q hq => ?_, fun k hne => ?_⟩
    · change find (put w.positions account.ownerId { p with account := updated }) k = some q at hq
      rw [hput k] at hq
      split at hq
      · next heq =>
        obtain rfl := Option.some.inj hq
        exact hleft.ownerId.trans (howner.trans heq)
      · exact hk k q hq
    · exact (hput k).trans (if_neg (Ne.symm hne))

theorem withdrawRow_cases {b b' : Batch} (h : withdrawRow host moduleId b ownerId = some b') :
    b' = b ∧ (∀ p, b.w.position ownerId = some p →
      ¬ (p.account.status = .active ∧ p.account.moduleId = moduleId)) ∨
    ∃ p accrued position s, b.w.position ownerId = some p ∧
      crystallize host b.w moduleId ownerId p = some accrued ∧
      accrued.position ownerId = some position ∧
      settle b.w.now (accrued.shortfallModel moduleId p.account.token) (max 0 b.remaining) position
        = some s ∧
      b'.w = emitShortfallEvent (accrued.setPosition ownerId s.position) ownerId s ∧
      b'.rows = b.rows ++ [s.row ownerId] := by
  unfold withdrawRow at h
  obtain ⟨result, hresult, h⟩ := Option.bind_eq_some_iff.mp h
  unfold computeWithdrawalResult at hresult
  split at hresult
  · next hnone =>
    obtain rfl := Option.some.inj hresult
    exact Or.inl ⟨(Option.some.inj h).symm, fun p hp => by rw [hnone] at hp; cases hp⟩
  · next p hp =>
    split at hresult
    · simp only [Option.bind_eq_bind, Option.bind_eq_some_iff] at hresult
      obtain ⟨accrued, haccrued, position, hposition, s, hs, hresult⟩ := hresult
      obtain rfl := Option.some.inj hresult
      change b.add ownerId ⟨accrued, s⟩ = some b' at h
      unfold Batch.add at h
      simp only [Option.bind_eq_bind, Option.bind_eq_some_iff] at h
      obtain ⟨_, _, _, _, _, _, _, _, _, _, h⟩ := h
      obtain rfl := Option.some.inj h
      exact Or.inr ⟨p, accrued, position, s, hp, haccrued, hposition, hs, rfl, rfl⟩
    · next hno =>
      obtain rfl := Option.some.inj hresult
      refine Or.inl ⟨(Option.some.inj h).symm, fun q hq => ?_⟩
      obtain rfl := Option.some.inj (hp.symm.trans hq)
      exact hno

theorem settle_ownerId {now : ℤ} {model : ShortfallModel} {available : ℤ} {position : Position}
    {s : Settlement} (h : settle now model available position = some s) :
    s.position.account.ownerId = position.account.ownerId := by
  unfold settle at h
  simp only [Option.bind_eq_bind, Option.bind_eq_some_iff] at h
  obtain ⟨_, _, _, _, _, _, _, _, h⟩ := h
  obtain rfl := Option.some.inj h
  rfl

/-- what rows leave of a batch: the positions of other owners, the ledger, the rows before -/
structure Frame (owners : List String) (b b' : Batch) : Prop where
  keyed : Keyed b'.w
  positions : ∀ k, k ∉ owners → b'.w.position k = b.w.position k
  ledger : b'.w.withdrawalLedger = b.w.withdrawalLedger
  rows : b.rows ⊆ b'.rows

/-- **A row leaves the others as they are.** -/
theorem withdrawRow_frame {b b' : Batch} (hk : Keyed b.w)
    (h : withdrawRow host moduleId b ownerId = some b') : Frame [ownerId] b b' := by
  rcases withdrawRow_cases h with ⟨rfl, _⟩ | ⟨p, accrued, position, s, hp, haccrued, hposition, hs,
    hw, hrows⟩
  · exact ⟨hk, fun _ _ => rfl, rfl, List.Subset.refl _⟩
  · obtain ⟨hkeyed, hothers⟩ := crystallize_frame hk hp haccrued
    have hread : ∀ k, b'.w.position k
        = if ownerId = k then some s.position else accrued.position k := by
      intro k
      unfold World.position
      rw [hw, emit_positions]
      exact setPosition_position _ _ _ _
    refine ⟨fun k q hq => ?_, fun k hne => ?_, ?_, ?_⟩
    · rw [hread k] at hq
      split at hq
      · next heq =>
        obtain rfl := Option.some.inj hq
        exact (settle_ownerId hs).trans ((hkeyed ownerId position hposition).trans heq)
      · exact hkeyed k q hq
    · have hne' : k ≠ ownerId := fun heq => hne (heq ▸ List.mem_singleton_self _)
      rw [hread k, if_neg (Ne.symm hne'), hothers k hne']
    · rw [hw, emit_ledger]
      show accrued.withdrawalLedger = _
      exact crystallize_ledger haccrued
    · rw [hrows]
      exact List.subset_append_left _ _

theorem withdrawRows_frame {owners : List String} {b b' : Batch} (hk : Keyed b.w)
    (h : owners.foldlM (withdrawRow host moduleId) b = some b') : Frame owners b b' := by
  induction owners generalizing b with
  | nil =>
    obtain rfl := Option.some.inj h
    exact ⟨hk, fun _ _ => rfl, rfl, List.Subset.refl _⟩
  | cons ownerId owners ih =>
    rw [List.foldlM_cons] at h
    obtain ⟨b₁, hrow, hrest⟩ := Option.bind_eq_some_iff.mp h
    have hone := withdrawRow_frame hk hrow
    have hmany := ih hone.keyed hrest
    refine ⟨hmany.keyed, fun k hout => ?_, hmany.ledger.trans hone.ledger,
      List.Subset.trans hone.rows hmany.rows⟩
    rw [List.mem_cons, not_or] at hout
    rw [hmany.positions k hout.2]
    exact hone.positions k fun heq => hout.1 (List.mem_singleton.mp heq)

theorem withdrawMany_settles {ownerIds before later : List String} (hk : Keyed w)
    (h : withdrawMany host w moduleId ownerIds = some w')
    (hsplit : ownerIds = before ++ ownerId :: later) (hp : w.position ownerId = some p)
    (hactive : p.account.status = .active) (hmodule : p.account.moduleId = moduleId) :
    ∃ b c s, before.foldlM (withdrawRow host moduleId)
        (Batch.start w (batchAvailable w moduleId ownerIds)) = some b ∧
      rowCase host b moduleId ownerId = some c ∧ 0 ≤ c.available ∧
      settle b.w.now c.model c.available c.position = some s ∧
      w'.position ownerId = some s.position ∧ Recorded w w' (s.row ownerId) := by
  unfold withdrawMany at h
  split at h
  · cases h
  · next hdistinct =>
    split at h
    · cases h
    · obtain ⟨last, hlast, h⟩ := Option.bind_eq_some_iff.mp h
      dsimp only at h
      split at h
      · cases h
      · obtain rfl := Option.some.inj h
        have hnd : ownerIds.Nodup := not_not.mp hdistinct
        unfold withdrawRows at hlast
        generalize batchAvailable w moduleId ownerIds = available at *
        subst hsplit
        rw [List.foldlM_append] at hlast
        obtain ⟨b, hbefore, hlast⟩ := Option.bind_eq_some_iff.mp hlast
        rw [List.foldlM_cons] at hlast
        obtain ⟨b₁, hrow, hlater⟩ := Option.bind_eq_some_iff.mp hlast
        have hout := (List.nodup_cons.mp (List.nodup_middle.mp hnd)).1
        rw [List.mem_append, not_or] at hout
        obtain ⟨hnotbefore, hnotlater⟩ := hout
        have hfirst := withdrawRows_frame (b := Batch.start w available) hk hbefore
        have hone := withdrawRow_frame hfirst.keyed hrow
        have hrest := withdrawRows_frame hone.keyed hlater
        have hpos : b.w.position ownerId = some p := (hfirst.positions ownerId hnotbefore).trans hp
        rcases withdrawRow_cases hrow with ⟨_, hno⟩ | ⟨q, accrued, position, s, hq, haccrued,
          hposition, hs, hw, hrows⟩
        · exact absurd ⟨hactive, hmodule⟩ (hno p hpos)
        · refine ⟨b, ⟨accrued.shortfallModel moduleId q.account.token, max 0 b.remaining, position⟩, s,
            hbefore, ?_, le_max_left _ _, hs, ?_, ?_⟩
          · unfold rowCase
            rw [hq]
            show (crystallize host b.w moduleId ownerId q >>= _) = _
            rw [haccrued]
            show (accrued.position ownerId >>= _) = _
            rw [hposition]
            rfl
          · refine (hrest.positions ownerId hnotlater).trans ?_
            unfold World.position
            rw [hw, emit_positions]
            exact (setPosition_position _ _ _ _).trans (if_pos rfl)
          · have hledger : last.w.withdrawalLedger = w.withdrawalLedger :=
              hrest.ledger.trans (hone.ledger.trans hfirst.ledger)
            have hrow' : s.row ownerId ∈ b₁.rows := by
              rw [hrows]
              exact List.mem_append_right _ (List.mem_singleton_self _)
            exact ⟨_, congrArg (· ++ _) hledger, hrest.rows hrow'⟩

/-! ## the result -/

/-- the case that an owner was settled in, its position after it, and the row of it on the ledger:
it is accounted for exactly when it is covered -/
def SettledAs (w w' : World) (ownerId : String) (c : Case) : Prop :=
  ∃ after row, w'.position ownerId = some after ∧ Recorded w w' row ∧ row.ownerId = ownerId ∧
    row.requested = claimableValue c.position.claims ∧
    (Accounted c.position after row ↔ c.Covered)

theorem settledAs_of_settle {now : ℤ} {c : Case} {s : Settlement} (h0 : 0 ≤ c.available)
    (hs : settle now c.model c.available c.position = some s)
    (hafter : w'.position ownerId = some s.position) (hrow : Recorded w w' (s.row ownerId)) :
    SettledAs w w' ownerId c := by
  refine ⟨s.position, s.row ownerId, hafter, hrow, rfl, ?_, settle_accounted_iff h0 hs⟩
  unfold settle at hs
  simp only [Option.bind_eq_bind, Option.bind_eq_some_iff] at hs
  obtain ⟨d, hd, t, ht, _, _, _, _, hs⟩ := hs
  obtain rfl := Option.some.inj hs
  rw [max_eq_right h0] at hd
  exact (calculateFulfillment_fulfilled h0 hd ht).basis

end

/-- **When a withdrawal leaves nothing unaccounted.**  A position that is withdrawn, by itself or by
a row of a batch, is accounted for exactly when its liquidity covers it. -/
theorem withdrawals_accounted_iff (host : Host) (w w' : World) (moduleId ownerId : String)
    (p : Position) (hp : w.position ownerId = some p) (hactive : p.account.status = .active)
    (hmodule : p.account.moduleId = moduleId) :
    (withdraw host w moduleId ownerId = some w' →
      ∃ c, withdrawCase host w moduleId ownerId = some c ∧ SettledAs w w' ownerId c) ∧
    ∀ ownerIds before later, Keyed w → ownerIds = before ++ ownerId :: later →
      withdrawMany host w moduleId ownerIds = some w' →
      ∃ b c, before.foldlM (withdrawRow host moduleId)
          (Batch.start w (batchAvailable w moduleId ownerIds)) = some b ∧
        rowCase host b moduleId ownerId = some c ∧ SettledAs w w' ownerId c := by
  refine ⟨fun h => ?_, fun ownerIds before later hk hsplit h => ?_⟩
  · obtain ⟨c, s, hc, h0, hs, hafter, hrow⟩ := withdraw_settles hp hactive hmodule h
    exact ⟨c, hc, settledAs_of_settle h0 hs hafter hrow⟩
  · obtain ⟨b, c, s, hb, hc, h0, hs, hafter, hrow⟩ :=
      withdrawMany_settles hk h hsplit hp hactive hmodule
    exact ⟨b, c, hb, hc, settledAs_of_settle h0 hs hafter hrow⟩

/-! ## sample withdrawals -/

def sampleHost : Host where
  exceeds := fun previous attempted ratio => decide (ratio * previous < |attempted - previous|)
  rising := fun previous attempted => decide (previous ≤ attempted)

def samplePosition (ownerId : String) (principal unrealized : ℤ) : Position where
  account :=
    { ownerId, moduleId := "lend", token := "usd", principal, shares := principal
      currentIndex := some 1, currentValue := some (principal + unrealized)
      realizedYield := 0, unrealizedYield := unrealized, deferredYield := 0, haircutYield := 0
      accrualDustRemainder := 0, shortfallAffected := false, oracleStaleAffected := false
      capitalEventAffected := false, lastAccrualTime := none, lastAccrualIndex := none
      status := .active, yieldLoss := none }
  principalImpairment := 0
  partialFillAffected := false
  shortfall := none

/-- a pool of all that is held, with positions of two owners -/
def sampleWorld (unrealized held : ℤ) (models : List ((String × String) × ShortfallModel)) :
    World where
  runId := none
  executionId := none
  scenarioId := none
  step := none
  eventSeq := none
  now := 10
  moduleAliases := []
  moduleStatus := []
  scheduledState := fun _ _ _ => "normal"
  baseApyBps := fun _ _ => 0
  accrualConfig := []
  risk := []
  oracleStaleSince := []
  recoverable := fun _ _ _ base => base
  positions := [("a", samplePosition "a" 100 unrealized), ("b", samplePosition "b" 30 0)]
  indices := []
  totalHeld := [("usd", held)]
  heldBalances := []
  totalYieldGenerated := []
  escrowCustody := []
  shortfallModels := models
  batchRecoverable := fun _ _ _ base => base
  withdrawalLedger := []
  events := []

theorem sampleWorld_keyed (unrealized held : ℤ)
    (models : List ((String × String) × ShortfallModel)) :
    Keyed (sampleWorld unrealized held models) := by
  intro ownerId p h
  have hmem := mem_of_find h
  rcases List.mem_cons.mp hmem with he | he
  · obtain ⟨rfl, rfl⟩ := Prod.mk.inj he
    rfl
  · obtain ⟨rfl, rfl⟩ := Prod.mk.inj (List.mem_singleton.mp he)
    rfl

/-- `a` alone, and `b` after it in a batch -/
theorem withdrawals_accounted_iff_sample :
    (∃ w' c, withdrawCase sampleHost (sampleWorld 0 110 []) "lend" "a" = some c ∧
      SettledAs (sampleWorld 0 110 []) w' "a" c) ∧
    ∃ w' b c, ["a"].foldlM (withdrawRow sampleHost "lend")
        (Batch.start (sampleWorld 0 110 [])
          (batchAvailable (sampleWorld 0 110 []) "lend" ["a", "b"])) = some b ∧
      rowCase sampleHost b "lend" "b" = some c ∧ SettledAs (sampleWorld 0 110 []) w' "b" c := by
  have hone : (withdraw sampleHost (sampleWorld 0 110 []) "lend" "a").isSome := by decide +kernel
  have hmany : (withdrawMany sampleHost (sampleWorld 0 110 []) "lend" ["a", "b"]).isSome := by
    decide +kernel
  obtain ⟨v, hv⟩ := Option.isSome_iff_exists.mp hone
  obtain ⟨w', hw'⟩ := Option.isSome_iff_exists.mp hmany
  exact
    ⟨⟨v, (withdrawals_accounted_iff sampleHost (sampleWorld 0 110 []) v "lend" "a"
      (samplePosition "a" 100 0) rfl rfl rfl).1 hv⟩,
    w', (withdrawals_accounted_iff sampleHost (sampleWorld 0 110 []) w' "lend" "b"
      (samplePosition "b" 30 0) rfl rfl rfl).2 ["a", "b"] ["a"] [] (sampleWorld_keyed 0 110 []) rfl
      hw'⟩

instance (c : Case) : Decidable c.Covered := inferInstanceAs (Decidable (_ ∨ _ ∧ (_ ∨ _)))

theorem unaccounted_of_uncovered {host : Host} {w : World} {moduleId ownerId : String} {p : Position}
    (hp : w.position ownerId = some p) (hactive : p.account.status = .active)
    (hmodule : p.account.moduleId = moduleId)
    (hsome : (withdraw host w moduleId ownerId).isSome)
    (hno : (withdrawCase host w moduleId ownerId).all fun c => decide ¬ c.Covered) :
    ∃ w' c after row, withdraw host w moduleId ownerId = some w' ∧
      withdrawCase host w moduleId ownerId = some c ∧ w'.position ownerId = some after ∧
      Recorded w w' row ∧ ¬ Accounted c.position after row := by
  obtain ⟨w', h⟩ := Option.isSome_iff_exists.mp hsome
  obtain ⟨c, s, hc, h0, hs, hafter, hrow⟩ := withdraw_settles hp hactive hmodule h
  refine ⟨w', c, s.position, s.row ownerId, h, hc, hafter, hrow, fun haccounted => ?_⟩
  rw [hc] at hno
  exact of_decide_eq_true hno ((settle_accounted_iff h0 hs).mp haccounted)

/-- A principal of 100 less a loss of 50 is left unwinding against 60 without a shortfall; a gain of
20 that is not recoverable is in the basis and in none of its parts. -/
theorem withdrawals_unaccounted :
    (∃ w' c after row, withdraw sampleHost (sampleWorld (-50) 60 []) "lend" "a" = some w' ∧
      withdrawCase sampleHost (sampleWorld (-50) 60 []) "lend" "a" = some c ∧
      w'.position "a" = some after ∧ Recorded (sampleWorld (-50) 60 []) w' row ∧
      ¬ Accounted c.position after row) ∧
    ∃ w' c after row,
      withdraw sampleHost (sampleWorld 20 60 [(("lend", "usd"), ⟨none, some false⟩)]) "lend" "a"
        = some w' ∧
      withdrawCase sampleHost (sampleWorld 20 60 [(("lend", "usd"), ⟨none, some false⟩)]) "lend" "a"
        = some c ∧
      w'.position "a" = some after ∧
      Recorded (sampleWorld 20 60 [(("lend", "usd"), ⟨none, some false⟩)]) w' row ∧
      ¬ Accounted c.position after row :=
  ⟨unaccounted_of_uncovered (p := samplePosition "a" 100 (-50)) rfl rfl rfl (by decide +kernel)
      (by decide +kernel),
    unaccounted_of_uncovered (p := samplePosition "a" 100 20) rfl rfl rfl (by decide +kernel)
      (by decide +kernel)⟩

end PRF.Yield.Withdraw
