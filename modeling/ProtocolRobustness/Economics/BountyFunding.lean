import ProtocolRobustness.Economics.BountyPlan

/-!
# Accepted plans and fundable plans

What `verify-with-bounty-plan` says about the funding of the obligations that a plan creates.  It
compares the committed preconditions with recomputed ones and asks for none of them to be true, and
the recomputation looks at the first obligation only.

* `built_accepted`   a plan that is built with complete context is accepted;
* `Reserved`         every obligation has a reservation of its own;
* `Fundable`         all preconditions true, everything reserved, the sum within its bounds;
* `fundable_iff_single`   for an accepted plan: the committed preconditions are true and one
                     obligation is created.
-/

namespace PRF.Economics
open Datum

/-! ## lists with at most one -/

/-- at most one item satisfies `p`, by positions -/
theorem countP_le_one_iff {α : Type*} {p : α → Bool} {l : List α} :
    l.countP p ≤ 1 ↔ ∀ (i j : ℕ) (a b : α), l[i]? = some a → p a → l[j]? = some b → p b → i = j := by
  induction l with
  | nil => simp
  | cons x l ih =>
    by_cases hx : p x
    · rw [List.countP_cons_of_pos hx]
      constructor
      · intro h
        have hnone : ∀ a ∈ l, ¬ p a := List.countP_eq_zero.mp (by omega)
        intro i j a b hi ha hj hb
        cases i with
        | succ i => exact absurd ha (hnone a (List.mem_of_getElem? (by simpa using hi)))
        | zero =>
          cases j with
          | succ j => exact absurd hb (hnone b (List.mem_of_getElem? (by simpa using hj)))
          | zero => rfl
      · intro h
        have hnone : l.countP p = 0 := by
          rw [List.countP_eq_zero]
          intro a ha hpa
          obtain ⟨k, hk⟩ := List.mem_iff_getElem?.mp ha
          exact absurd (h 0 (k + 1) x a rfl hx (by simpa using hk) hpa) (by omega)
        omega
    · rw [List.countP_cons_of_neg hx, ih]
      constructor
      · intro h i j a b hi ha hj hb
        cases i with
        | zero => exact absurd (Option.some.inj hi ▸ ha) hx
        | succ i =>
          cases j with
          | zero => exact absurd (Option.some.inj hj ▸ hb) hx
          | succ j => rw [h i j a b (by simpa using hi) ha (by simpa using hj) hb]
      · intro h i j a b hi ha hj hb
        have e := h (i + 1) (j + 1) a b (by simpa using hi) ha (by simpa using hj) hb
        omega

/-! ## all preconditions true -/

section
variable {env : BountyEnv} {effects : List Datum} {available declaredMaximum : Datum}

theorem computePreconditions_allTrue :
    env.computePreconditions effects available declaredMaximum = some .allTrue ↔
      validateEffects effects = []
      ∧ amountBounded (obligationAmount effects) declaredMaximum = some true
      ∧ fundingAvailable (((obligationEffect effects).get "obligation/funding").get "source")
          (obligationAmount effects) available = true
      ∧ env.fundingReservationMatches effects (obligationEffect effects) = true
      ∧ env.obligationIdConsistent (obligationEffect effects) = some true := by
  simp only [BountyEnv.computePreconditions, Option.bind_eq_bind, Option.bind_eq_some_iff,
    Option.pure_def, Option.some.injEq, Preconditions.allTrue, Preconditions.mk.injEq,
    decide_eq_true_eq]
  constructor
  · rintro ⟨bounded, hb, consistent, hc, hv, rfl, hf, hr, rfl⟩
    exact ⟨hv, hb, hf, hr, hc⟩
  · rintro ⟨hv, hb, hf, hr, hc⟩
    exact ⟨true, hb, true, hc, hv, rfl, hf, hr, rfl⟩

theorem consistent_id {obligation : Datum} (h : env.obligationIdConsistent obligation = some true) :
    obligation.truthy ∧ ∃ id, obligation.get "obligation/id" = str id := by
  by_cases ht : obligation.truthy
  · rw [BountyEnv.obligationIdConsistent, if_pos ht, Option.map_eq_some_iff] at h
    obtain ⟨id, -, hid⟩ := h
    exact ⟨ht, id, of_decide_eq_true hid⟩
  · rw [BountyEnv.obligationIdConsistent, if_neg ht] at h
    cases h

theorem find_of_truthy (h : (obligationEffect effects).truthy) :
    obligationEffect effects ∈ effects ∧ isObligation (obligationEffect effects) := by
  cases hf : effects.find? isObligation with
  | none =>
    rw [obligationEffect, hf] at h
    cases h
  | some o =>
    have e : obligationEffect effects = o := by rw [obligationEffect, hf]; rfl
    rw [e]
    exact ⟨List.mem_of_find?_eq_some hf, List.find?_some hf⟩

theorem amountBounded_true {amount : Datum} (h : amountBounded amount declaredMaximum = some true) :
    ∃ n, amount.int? = some n
      ∧ (declaredMaximum = null ∨ ∃ m, declaredMaximum.number? = some m ∧ (n : ℚ) ≤ m) := by
  rw [amountBounded] at h
  cases hn : amount.int? with
  | none =>
    rw [hn] at h
    cases h
  | some n =>
    refine ⟨n, rfl, ?_⟩
    simp only [hn] at h
    by_cases h0 : 0 ≤ n
    · rw [if_pos h0] at h
      by_cases hm : declaredMaximum = null
      · exact Or.inl hm
      · rw [if_neg hm, Option.map_eq_some_iff] at h
        obtain ⟨m, hm, hle⟩ := h
        exact Or.inr ⟨m, hm, of_decide_eq_true hle⟩
    · rw [if_neg h0] at h
      cases h

theorem fundingAvailable_true {source amount : Datum}
    (h : fundingAvailable source amount available = true) :
    ∃ n m, amount.int? = some n ∧ available.int? = some m ∧ n ≤ m := by
  by_cases hs : source = kw "declared-reserve"
  · rw [fundingAvailable, if_pos hs] at h
    cases hn : amount.int? with
    | none => simp [hn] at h
    | some n =>
      cases hm : available.int? with
      | none => simp [hn, hm] at h
      | some m =>
        simp only [hn, hm, decide_eq_true_eq] at h
        exact ⟨n, m, rfl, rfl, h.2.2⟩
  · rw [fundingAvailable, if_neg hs] at h
    cases h

theorem fundingReservationMatches_true {obligation : Datum}
    (h : env.fundingReservationMatches effects obligation = true) :
    ∃ reservation, effects.filter isReservation = [reservation]
      ∧ env.Reserves obligation reservation := by
  unfold BountyEnv.fundingReservationMatches at h
  dsimp only at h
  split at h
  next i j reservation hi hj hr =>
    exact ⟨reservation, hr, (of_decide_eq_true h).2.2.1⟩
  next => cases h

end

/-! ## what is built is accepted -/

section
variable {env : BountyEnv} {r : BountyRequest} {plan : BountyPlan}

theorem orElse_ne_null {a b : Datum} (hb : b ≠ null) : a.orElse b ≠ null := by
  by_cases ha : a.truthy
  · rw [Datum.orElse, if_pos ha]
    exact (of_decide_eq_true ha).1
  · rw [Datum.orElse, if_neg ha]
    exact hb

theorem get_planContext : r.planContext.get "funding/source-evidence" = r.fundingEvidence := by
  simp [BountyRequest.planContext, Datum.get]

theorem validate_built {roots : List String} {combined : String} {hash : Option Datum}
    (hid : r.obligationId ≠ null) (hc : r.Complete) :
    (⟨fun f => some (r.base roots combined .allTrue f), hash, []⟩ : BountyPlan).validate = [] := by
  have hr := orElse_ne_null (a := r.baseResultRoot) hc.baseOperationRoot
  have hf : (r.planContext.get "funding/source-evidence").isMap = true := by
    rw [get_planContext]
    exact hc.fundingEvidence
  simp only [BountyPlan.validate, BountyPlan.get, BountyRequest.base, Option.getD_some, hf, hr, hid,
    hc.policyRoot, hc.baseOperationRoot, hc.extensionsResolutionRoot, hc.adapter, ne_eq, not_true,
    if_true, if_false, List.append_nil]
  rfl

theorem built_accepted (h : env.build r = some (.valid plan)) (hc : r.Complete) :
    env.verify plan = some .valid := by
  obtain ⟨roots, combined, hash, hroots, hp, hcomb, hh, rfl⟩ := build_eq_valid.mp h
  obtain ⟨-, -, -, -, hcons⟩ := computePreconditions_allTrue.mp hp
  obtain ⟨ht, id, hid⟩ := consistent_id hcons
  have hid' : r.obligationId ≠ null := by
    show (obligationEffect r.effects).get "obligation/id" ≠ null
    rw [hid]
    exact (null_ne_str id).symm
  refine verify_eq_valid.mpr ⟨validate_built hid' hc, ⟨hash, hh, rfl⟩, ?_⟩
  refine ⟨_, recomputedPlanRoots_eq_some.mpr ⟨roots, .allTrue, combined, hroots, hp, hcomb, rfl⟩, ?_⟩
  -- the verifier recomputes the fields from the effects that the builder committed
  show ∀ e ∈ ([(Field.effectRoots, Datum.vec (roots.map str)), (.combinedEffectRoot, str combined),
    (.obligationId, if (obligationEffect r.effects).truthy then r.obligationId else null),
    (.noDuplicateCreationKey, r.creationKey),
    (.preconditions, Preconditions.allTrue.toDatum)] : List (Field × Datum)),
    e.2 = r.base roots combined .allTrue e.1
  rw [if_pos ht]
  intro e he
  simp only [List.mem_cons, List.not_mem_nil, or_false] at he
  rcases he with rfl | rfl | rfl | rfl | rfl <;> rfl

end

/-! ## fundable plans -/

/-- by its contract, of either version -/
def isObligationCreate (effect : Datum) : Bool :=
  effect.get "effect/contract" ∈ [obligationCreateV1, obligationCreateV2]

def BountyPlan.effects (plan : BountyPlan) : List Datum := (plan.get .effects).items?.getD []

/-- the sum of all obligation amounts -/
def obligationTotal (effects : List Datum) : ℤ :=
  ((effects.filter isObligationCreate).map fun o => ((o.get "obligation/amount").int?).getD 0).sum

namespace BountyEnv
variable (env : BountyEnv)

/-- every obligation has a reservation of its own -/
def Reserved (effects : List Datum) : Prop :=
  ∃ own : ℕ → ℕ,
    (∀ i o, effects[i]? = some o → isObligationCreate o →
      ∃ reservation, effects[own i]? = some reservation ∧ isReservation reservation
        ∧ env.Reserves o reservation)
    ∧ ∀ i j o p, effects[i]? = some o → isObligationCreate o → effects[j]? = some p →
      isObligationCreate p → own i = own j → i = j

/-- what the purpose of an accepted plan asks for -/
structure Fundable (plan : BountyPlan) : Prop where
  preconditions : env.computePreconditions plan.effects (plan.get .fundingAvailable)
    (plan.get .declaredMaximum) = some .allTrue
  reserved : env.Reserved plan.effects
  withinMaximum : plan.get .declaredMaximum = null
    ∨ ∃ m, (plan.get .declaredMaximum).number? = some m ∧ (obligationTotal plan.effects : ℚ) ≤ m
  withinAvailable : ∃ m, (plan.get .fundingAvailable).int? = some m
    ∧ obligationTotal plan.effects ≤ m

end BountyEnv

section
variable {env : BountyEnv} {plan : BountyPlan} {effects : List Datum}

theorem isObligationCreate_of_isObligation {effect : Datum} (h : isObligation effect) :
    isObligationCreate effect := by
  have h' : effect.get "effect/contract" = obligationCreateV2 := of_decide_eq_true h
  exact decide_eq_true (h' ▸ List.mem_cons_of_mem _ List.mem_cons_self)

theorem committed_preconditions (h : env.Accepted plan) :
    ∃ p, env.computePreconditions plan.effects (plan.get .fundingAvailable)
        (plan.get .declaredMaximum) = some p
      ∧ plan.get .preconditions = p.toDatum := by
  obtain ⟨recomputed, hrec, hderived⟩ := h.derived
  obtain ⟨roots, p, combined, -, hp, -, rfl⟩ := recomputedPlanRoots_eq_some.mp hrec
  have e := hderived (.preconditions, p.toDatum) (by simp)
  exact ⟨p, hp, e.symm⟩

theorem allTrue_iff_committed (h : env.Accepted plan) :
    env.computePreconditions plan.effects (plan.get .fundingAvailable) (plan.get .declaredMaximum)
        = some .allTrue
      ↔ plan.get .preconditions = Preconditions.allTrue.toDatum := by
  obtain ⟨p, hp, hcommitted⟩ := committed_preconditions h
  rw [hp, hcommitted, Preconditions.toDatum_inj, Option.some.injEq]

theorem countP_le_one_of_reserved {reservation : Datum}
    (hone : effects.filter isReservation = [reservation]) (h : env.Reserved effects) :
    effects.countP isObligationCreate ≤ 1 := by
  obtain ⟨own, hown, hinj⟩ := h
  have hres : effects.countP isReservation ≤ 1 := by
    rw [List.countP_eq_length_filter, hone]
    exact Nat.le_refl 1
  rw [countP_le_one_iff]
  intro i j o p hi ho hj hp
  obtain ⟨ri, hri, hri', -⟩ := hown i o hi ho
  obtain ⟨rj, hrj, hrj', -⟩ := hown j p hj hp
  exact hinj i j o p hi ho hj hp (countP_le_one_iff.mp hres (own i) (own j) ri rj hri hri' hrj hrj')

theorem filter_eq_singleton (hone : effects.countP isObligationCreate = 1)
    (ht : (obligationEffect effects).truthy) :
    effects.filter isObligationCreate = [obligationEffect effects] := by
  rw [List.countP_eq_length_filter, List.length_eq_one_iff] at hone
  obtain ⟨o, ho⟩ := hone
  obtain ⟨hmem, hobl⟩ := find_of_truthy ht
  have h : obligationEffect effects ∈ effects.filter isObligationCreate :=
    List.mem_filter.mpr ⟨hmem, isObligationCreate_of_isObligation hobl⟩
  rw [ho] at h ⊢
  rw [List.mem_singleton.mp h]

theorem reserved_of_single {reservation : Datum}
    (hone : effects.filter isObligationCreate = [obligationEffect effects])
    (hres : effects.filter isReservation = [reservation])
    (hmatch : env.Reserves (obligationEffect effects) reservation) : env.Reserved effects := by
  have hmem : reservation ∈ effects.filter isReservation := hres ▸ List.mem_cons_self
  obtain ⟨k, hk⟩ := List.mem_iff_getElem?.mp (List.mem_of_mem_filter hmem)
  have hcount : effects.countP isObligationCreate ≤ 1 := by
    rw [List.countP_eq_length_filter, hone]
    exact Nat.le_refl 1
  refine ⟨fun _ => k, ?_, ?_⟩
  · intro i o hi ho
    have h : o ∈ effects.filter isObligationCreate :=
      List.mem_filter.mpr ⟨List.mem_of_getElem? hi, ho⟩
    rw [hone, List.mem_singleton] at h
    exact ⟨reservation, hk, List.of_mem_filter hmem, h ▸ hmatch⟩
  · exact fun i j o p hi ho hj hp _ => countP_le_one_iff.mp hcount i j o p hi ho hj hp

theorem obligationTotal_single {n : ℤ}
    (hone : effects.filter isObligationCreate = [obligationEffect effects])
    (hn : (obligationAmount effects).int? = some n) : obligationTotal effects = n := by
  have e : (obligationEffect effects).get "obligation/amount" = obligationAmount effects := rfl
  simp [obligationTotal, hone, e, hn]

theorem single_of_fundable (h : env.Fundable plan) : plan.effects.countP isObligationCreate = 1 := by
  obtain ⟨-, -, -, hmatch, hcons⟩ := computePreconditions_allTrue.mp h.preconditions
  obtain ⟨reservation, hres, -⟩ := fundingReservationMatches_true hmatch
  obtain ⟨hmem, hobl⟩ := find_of_truthy (consistent_id hcons).1
  have hle := countP_le_one_of_reserved hres h.reserved
  have hpos : 0 < plan.effects.countP isObligationCreate :=
    List.countP_pos_iff.mpr ⟨_, hmem, isObligationCreate_of_isObligation hobl⟩
  omega

theorem fundable_of_single
    (hp : env.computePreconditions plan.effects (plan.get .fundingAvailable)
      (plan.get .declaredMaximum) = some .allTrue)
    (hone : plan.effects.countP isObligationCreate = 1) : env.Fundable plan := by
  obtain ⟨-, hbound, havail, hmatch, hcons⟩ := computePreconditions_allTrue.mp hp
  obtain ⟨reservation, hres, hreserves⟩ := fundingReservationMatches_true hmatch
  have hsingle := filter_eq_singleton hone (consistent_id hcons).1
  obtain ⟨n, hn, hmax⟩ := amountBounded_true hbound
  obtain ⟨n', m, hn', hm, hle⟩ := fundingAvailable_true havail
  have e : n' = n := Option.some.inj (hn'.symm.trans hn)
  have htotal := obligationTotal_single hsingle hn
  refine ⟨hp, reserved_of_single hsingle hres hreserves, ?_, m, hm, ?_⟩
  · rw [htotal]
    exact hmax
  · rw [htotal, ← e]
    exact hle

end

/-- A plan that is built with complete context is accepted; an accepted plan, whoever made it, is
fundable exactly when the preconditions it commits to are true and it creates one obligation. -/
theorem fundable_iff_single (env : BountyEnv) :
    (∀ r plan, env.build r = some (.valid plan) → r.Complete → env.verify plan = some .valid)
    ∧ ∀ plan, env.verify plan = some .valid →
      (env.Fundable plan ↔ plan.get .preconditions = Preconditions.allTrue.toDatum
        ∧ plan.effects.countP isObligationCreate = 1) := by
  refine ⟨fun r plan h hc => built_accepted h hc, ?_⟩
  intro plan h
  have hall := allTrue_iff_committed (verify_eq_valid.mp h)
  constructor
  · exact fun hf => ⟨hall.mp hf.preconditions, single_of_fundable hf⟩
  · rintro ⟨hp, hone⟩
    exact fundable_of_single (hall.mpr hp) hone

/-! ## a bounty of 500 -/

mutual

/-- a text for every datum -/
def render : Datum → String
  | .atom .null => ""
  | .atom (.bool b) => if b then "true" else "false"
  | .atom (.int n) => toString n
  | .atom (.ratio q) => toString q.num ++ "/" ++ toString q.den
  | .atom (.str s) => s
  | .atom (.kw s) => ":" ++ s
  | .vec xs => "[" ++ renderItems xs ++ "]"
  | .set xs => "#" ++ renderItems xs
  | .map es => "(" ++ renderEntries es ++ ")"

def renderItems : List Datum → String
  | [] => ""
  | x :: xs => render x ++ " " ++ renderItems xs

def renderEntries : List (Datum × Datum) → String
  | [] => ""
  | (k, x) :: es => render k ++ " " ++ render x ++ ", " ++ renderEntries es

end

def readableEnv : BountyEnv where
  text := render
  hash := fun domain d => some (domain ++ " " ++ render d)

def bountyOf (id : String) : Datum :=
  .map [(kw "effect/contract", obligationCreateV2), (kw "effect/provenance", .map []),
    (kw "effect/type", kw "obligation/create"), (kw "obligation/amount", int 500),
    (kw "obligation/funding", .map [(kw "source", kw "declared-reserve")]),
    (kw "obligation/id", str id), (kw "obligation/owner", kw "researcher/alice"),
    (kw "obligation/subject", .map [(kw "bounty-id", kw "review"), (kw "operation-root", str "op")]),
    (kw "obligation/token", kw "token/usdc"), (kw "obligation/type", kw "bounty-payable")]

/-- with the identity that its fields have -/
def aliceBounty : Datum := bountyOf ((readableEnv.recomputedObligationId (bountyOf "")).getD "")

def aliceReservation : Datum :=
  .map [(kw "effect/account", kw "bounty-reserve"), (kw "effect/action", str "add-held"),
    (kw "effect/amount", int 500), (kw "effect/contract", custodyHeldAdjustmentV2),
    (kw "effect/token", kw "token/usdc"), (kw "effect/type", kw "custody/held-adjustment"),
    (kw "held/kind", kw "bounty-reserve-reservation"), (kw "owner/address", kw "researcher/alice")]

def aliceRequest (effects : List Datum) : BountyRequest where
  policyRoot := str "policy"
  baseOperationRoot := str "op"
  baseResultRoot := null
  basePlanRoot := null
  extensionsResolutionRoot := str "resolution"
  adapter := .map [(kw "adapter/id", kw "fixture/v1")]
  effects := effects
  effectSchemaRoots := null
  declaredMaximum := int 500
  fundingAvailable := int 500
  fundingEvidence := .map [(kw "funding/source-root", str "source")]
  context := []

theorem complete_aliceRequest (effects : List Datum) : (aliceRequest effects).Complete := by
  refine ⟨?_, ?_, ?_, rfl, rfl⟩ <;> exact (null_ne_str _).symm

theorem builds_aliceRequest {effects : List Datum}
    (h : readableEnv.computePreconditions effects (int 500) (int 500) = some .allTrue) :
    ∃ plan, readableEnv.build (aliceRequest effects) = some (.valid plan) ∧ plan.effects = effects
      ∧ plan.get .preconditions = Preconditions.allTrue.toDatum := by
  have hroots : effects.mapM readableEnv.effectRoot
      = some (effects.map fun e => "WITH_BOUNTY_EFFECT_V1" ++ " " ++ render (readableEnv.safe e)) :=
    List.mapM_pure
  exact ⟨_, build_eq_valid.mpr ⟨_, _, _, hroots, h, rfl, rfl, rfl⟩, rfl, rfl⟩

theorem preconditions_once :
    readableEnv.computePreconditions [aliceBounty, aliceReservation] (int 500) (int 500)
      = some .allTrue := by
  decide +kernel

theorem preconditions_twice :
    readableEnv.computePreconditions [aliceBounty, aliceReservation, aliceBounty] (int 500)
      (int 500) = some .allTrue := by
  decide +kernel

theorem fundable_alice : ∃ plan,
    readableEnv.build (aliceRequest [aliceBounty, aliceReservation]) = some (.valid plan)
    ∧ readableEnv.verify plan = some .valid ∧ readableEnv.Fundable plan := by
  obtain ⟨plan, hbuilt, heffects, hp⟩ := builds_aliceRequest preconditions_once
  have haccepted := (fundable_iff_single readableEnv).1 _ plan hbuilt (complete_aliceRequest _)
  refine ⟨plan, hbuilt, haccepted, ((fundable_iff_single readableEnv).2 plan haccepted).mpr ⟨hp, ?_⟩⟩
  rw [heffects]
  decide +kernel

/-- The same obligation a second time has no reservation, and the plan is built and accepted. -/
theorem unfunded_twice : ∃ plan,
    readableEnv.build (aliceRequest [aliceBounty, aliceReservation, aliceBounty])
      = some (.valid plan)
    ∧ readableEnv.verify plan = some .valid ∧ ¬ readableEnv.Fundable plan := by
  obtain ⟨plan, hbuilt, heffects, hp⟩ := builds_aliceRequest preconditions_twice
  refine ⟨plan, hbuilt, built_accepted hbuilt (complete_aliceRequest _), ?_⟩
  intro h
  have hone := single_of_fundable h
  rw [heffects] at hone
  revert hone
  decide +kernel

end PRF.Economics
