import ProtocolRobustness.Canonical.Compare
import ProtocolRobustness.Economics.BountyEffects

/-!
# With-bounty application plans

`economics/with_bounty/application_plan.clj`: the plan that is built over an effect set of any length,
and the check of a plan, whoever made it.  `str` and the canonical hash of a domain are parameters;
`none` is an exception.

* `fundingReservationMatches`, `computePreconditions`   what builder and verifier recompute;
* `build`                      `build-with-bounty-plan`;
* `validate`, `verify`         `validate-with-bounty-plan`, `verify-with-bounty-plan`;
* `verify_eq_valid`            what an accepted plan is;
* `Fundable`                   an accepted plan is fundable when its committed preconditions are
                               true and it creates one obligation.
-/

namespace PRF.Economics
open Datum

/-- what the plan takes from outside: `str`, and `domain-hash`, which throws on what it cannot encode -/
structure BountyEnv where
  text : Datum → String
  hash : String → Datum → Option String

/-! ## the effects -/

def isObligation (effect : Datum) : Bool := effect.get "effect/contract" = obligationCreateV2

def isReservation (effect : Datum) : Bool :=
  effect.get "effect/contract" ∈ [custodyHeldAdjustmentV1, custodyHeldAdjustmentV2]

def obligationEffect (effects : List Datum) : Datum := (effects.find? isObligation).getD null

def obligationAmount (effects : List Datum) : Datum :=
  (obligationEffect effects).get "obligation/amount"

def noDuplicateCreationKey (effect : Datum) : Datum :=
  .vec [(effect.get "obligation/subject").get "operation-root",
    (effect.get "obligation/subject").get "bounty-id", effect.get "obligation/owner"]

/-- `(:effect/action reservation)`, or what `:add` stands for -/
def heldAction (reservation : Datum) : Datum :=
  (reservation.get "effect/action").orElse
    (if reservation.get "effect/direction" = kw "add" then str "add-held" else null)

def expectedAccount (obligation : Datum) : Datum :=
  ((obligation.get "obligation/funding").get "account").orElse (kw "bounty-reserve")

def parameterPath (reservation : Datum) : Datum :=
  let address := reservation.get "parameter/address"
  if address.isMap then address.get "parameter/path" else address

namespace BountyEnv
variable (env : BountyEnv)

def safe (d : Datum) : Datum :=
  d.canonicalSafe fun a b => notAfter (env.text a) (env.text b)

def effectRoot (effect : Datum) : Option String :=
  env.hash "WITH_BOUNTY_EFFECT_V1" (env.safe effect)

def effectSetRoot (basePlanRoot : Datum) (effectRoots : List String) : Option String :=
  env.hash "WITH_BOUNTY_EFFECT_SET_V1" (.vec [basePlanRoot, .vec (effectRoots.map str)])

def recomputedObligationId (effect : Datum) : Option String :=
  env.hash "WITH_BOUNTY_OBLIGATION_V1"
    (.vec [kw "bounty-payable",
      (effect.get "obligation/subject").get "operation-root",
      (effect.get "obligation/subject").get "bounty-id",
      effect.get "obligation/owner", effect.get "obligation/token", effect.get "obligation/amount",
      (effect.get "effect/provenance").get "policy-root"])

/-- `address-string`: a keyword without its colon -/
def addressString : Datum → String
  | .atom (.kw s) => s
  | d => env.text d

end BountyEnv

/-! ## creation preconditions -/

/-- `amount-bounded?`; a maximum that is no number throws -/
def amountBounded (amount declaredMaximum : Datum) : Option Bool :=
  match amount.int? with
  | some n =>
    if 0 ≤ n then
      if declaredMaximum = null then some true
      else declaredMaximum.number?.map fun m => (n : ℚ) ≤ m
    else some false
  | none => some false

def fundingAvailable (fundingSource amount available : Datum) : Bool :=
  if fundingSource = kw "declared-reserve" then
    match amount.int?, available.int? with
    | some n, some m => 0 ≤ n ∧ 0 ≤ m ∧ n ≤ m
    | _, _ => false
  else false

structure Preconditions where
  schemaValid : Bool
  amountBounded : Bool
  fundingAvailable : Bool
  reservationMatches : Bool
  obligationIdConsistent : Bool
deriving DecidableEq

namespace Preconditions

def toDatum (p : Preconditions) : Datum :=
  .map [(kw "amount/bounded?", bool p.amountBounded),
    (kw "effect/schema-valid?", bool p.schemaValid),
    (kw "funding/available?", bool p.fundingAvailable),
    (kw "funding/reservation-matches?", bool p.reservationMatches),
    (kw "obligation-id/consistent?", bool p.obligationIdConsistent)]

def allTrue : Preconditions := ⟨true, true, true, true, true⟩

theorem toDatum_inj {p q : Preconditions} : p.toDatum = q.toDatum ↔ p = q := by
  cases p
  cases q
  simp [toDatum]
  tauto

end Preconditions

inductive PlanViolation
  | effectSchemaInvalid
  | bountyAmountOutOfBounds
  | insufficientBountyFunding
  | bountyFundingReservationMismatch
  | obligationIdMismatch
deriving DecidableEq

/-- one violation for each precondition that is false -/
def Preconditions.failures (p : Preconditions) : List PlanViolation :=
  (if p.schemaValid then [] else [PlanViolation.effectSchemaInvalid])
    ++ (if p.amountBounded then [] else [PlanViolation.bountyAmountOutOfBounds])
    ++ (if p.fundingAvailable then [] else [PlanViolation.insufficientBountyFunding])
    ++ (if p.reservationMatches then [] else [PlanViolation.bountyFundingReservationMismatch])
    ++ (if p.obligationIdConsistent then [] else [PlanViolation.obligationIdMismatch])

theorem Preconditions.failures_eq_nil {p : Preconditions} : p.failures = [] ↔ p = allTrue := by
  constructor
  · intro h
    rcases p with ⟨_ | _, _ | _, _ | _, _ | _, _ | _⟩ <;> first | rfl | cases h
  · rintro rfl
    rfl

namespace BountyEnv
variable (env : BountyEnv)

/-- what a reservation has to repeat of the obligation it is for -/
def Reserves (obligation reservation : Datum) : Prop :=
  heldAction reservation = str "add-held"
    ∧ reservation.get "effect/account" = expectedAccount obligation
    ∧ reservation.get "effect/token" = obligation.get "obligation/token"
    ∧ reservation.get "effect/amount" = obligation.get "obligation/amount"
    ∧ env.addressString (reservation.get "owner/address")
        = env.addressString (obligation.get "obligation/owner")

instance (o r : Datum) : Decidable (env.Reserves o r) := inferInstanceAs (Decidable (_ ∧ _))

def fundingReservationMatches (effects : List Datum) (obligation : Datum) : Bool :=
  let funding := obligation.get "obligation/funding"
  match effects.findIdx? isObligation, effects.findIdx? isReservation,
      effects.filter isReservation with
  | some i, some j, [reservation] =>
    funding.get "source" = kw "declared-reserve"
      ∧ i < j
      ∧ env.Reserves obligation reservation
      ∧ funding.get "parameter-address" = parameterPath reservation
      ∧ funding.get "parameter-context-root"
          = (reservation.get "parameter/context").get "parameter-context/root"
  | _, _, _ => false

def obligationIdConsistent (obligation : Datum) : Option Bool :=
  if obligation.truthy then
    (env.recomputedObligationId obligation).map fun id => obligation.get "obligation/id" = str id
  else some false

def computePreconditions (effects : List Datum) (available declaredMaximum : Datum) :
    Option Preconditions := do
  let obligation := obligationEffect effects
  let amount := obligationAmount effects
  let bounded ← amountBounded amount declaredMaximum
  let consistent ← env.obligationIdConsistent obligation
  return {
    schemaValid := validateEffects effects = []
    amountBounded := bounded
    fundingAvailable :=
      fundingAvailable ((obligation.get "obligation/funding").get "source") amount available
    reservationMatches := env.fundingReservationMatches effects obligation
    obligationIdConsistent := consistent }

end BountyEnv

/-! ## plans -/

/-- the committed fields, `with-bounty-plan-projection-fields` -/
inductive Field
  | schemaVersion
  | policyRoot
  | baseOperationRoot
  | baseResultRoot
  | basePlanRoot
  | extensionsResolutionRoot
  | adapter
  | effects
  | effectRoots
  | combinedEffectRoot
  | effectSchemaRoots
  | declaredMaximum
  | fundingAvailable
  | obligationId
  | noDuplicateCreationKey
  | preconditions
  | idempotencyKey
  | context
deriving DecidableEq

namespace Field

def key : Field → String
  | schemaVersion => "schema-version"
  | policyRoot => "plan/policy-root"
  | baseOperationRoot => "plan/base-operation-root"
  | baseResultRoot => "plan/base-result-root"
  | basePlanRoot => "plan/base-plan-root"
  | extensionsResolutionRoot => "plan/extensions-resolution-root"
  | adapter => "plan/adapter"
  | effects => "plan/effects"
  | effectRoots => "plan/effect-roots"
  | combinedEffectRoot => "plan/combined-effect-root"
  | effectSchemaRoots => "plan/effect-schema-roots"
  | declaredMaximum => "plan/declared-maximum"
  | fundingAvailable => "plan/funding-available"
  | obligationId => "plan/obligation-id"
  | noDuplicateCreationKey => "plan/no-duplicate-creation-key"
  | preconditions => "plan/preconditions"
  | idempotencyKey => "plan/idempotency-key"
  | context => "plan/context"

def all : List Field :=
  [schemaVersion, policyRoot, baseOperationRoot, baseResultRoot, basePlanRoot,
    extensionsResolutionRoot, adapter, effects, effectRoots, combinedEffectRoot, effectSchemaRoots,
    declaredMaximum, fundingAvailable, obligationId, noDuplicateCreationKey, preconditions,
    idempotencyKey, context]

end Field

/-- a plan map: the committed fields that are there, its hash, and its further keys -/
structure BountyPlan where
  committed : Field → Option Datum
  hash : Option Datum
  unknown : List Datum

namespace BountyPlan

/-- `(get plan k)` of a committed field -/
def get (plan : BountyPlan) (f : Field) : Datum := (plan.committed f).getD null

end BountyPlan

def BountyEnv.planHash (env : BountyEnv) (committed : Field → Option Datum) : Option String :=
  env.hash "WITH_BOUNTY_APPLICATION_PLAN_V1"
    (env.safe (.map (Field.all.filterMap fun f => (committed f).map fun v => (kw f.key, v))))

/-! ## the builder -/

structure BountyRequest where
  policyRoot : Datum
  baseOperationRoot : Datum
  baseResultRoot : Datum
  basePlanRoot : Datum
  extensionsResolutionRoot : Datum
  adapter : Datum
  effects : List Datum
  effectSchemaRoots : Datum
  declaredMaximum : Datum
  fundingAvailable : Datum
  fundingEvidence : Datum
  context : List (Datum × Datum)

namespace BountyRequest
variable (r : BountyRequest)

/-- `(assoc context :funding/source-evidence evidence)`; contexts are read and hashed, never compared,
so the place of the entry is of no account -/
def planContext : Datum :=
  .map ((kw "funding/source-evidence", r.fundingEvidence)
    :: r.context.filter fun e => e.1 ≠ kw "funding/source-evidence")

/-- what the verifier will not do without -/
structure Complete : Prop where
  policyRoot : r.policyRoot ≠ null
  baseOperationRoot : r.baseOperationRoot ≠ null
  extensionsResolutionRoot : r.extensionsResolutionRoot ≠ null
  adapter : r.adapter.isMap = true
  fundingEvidence : r.fundingEvidence.isMap = true

def creationKey : Datum :=
  if (obligationEffect r.effects).truthy then
    Economics.noDuplicateCreationKey (obligationEffect r.effects) else null

def obligationId : Datum := (obligationEffect r.effects).get "obligation/id"

/-- the map that is hashed -/
def base (effectRoots : List String) (combined : String) (preconditions : Preconditions) :
    Field → Datum
  | .schemaVersion => str "with-bounty-application-plan.v1"
  | .policyRoot => r.policyRoot
  | .baseOperationRoot => r.baseOperationRoot
  | .baseResultRoot => r.baseResultRoot.orElse r.baseOperationRoot
  | .basePlanRoot => r.basePlanRoot
  | .extensionsResolutionRoot => r.extensionsResolutionRoot
  | .adapter => r.adapter
  | .effects => .vec r.effects
  | .effectRoots => .vec (effectRoots.map str)
  | .combinedEffectRoot => str combined
  | .effectSchemaRoots => r.effectSchemaRoots.orElse (.map [])
  | .declaredMaximum => r.declaredMaximum
  | .fundingAvailable => r.fundingAvailable
  | .obligationId => r.obligationId
  | .noDuplicateCreationKey => r.creationKey
  | .preconditions => preconditions.toDatum
  | .idempotencyKey => .vec [kw "with-bounty/obligations", r.obligationId]
  | .context => r.planContext

end BountyRequest

inductive BuiltPlan
  | valid (plan : BountyPlan)
  | invalid (violations : List PlanViolation)

/-- `build-with-bounty-plan` -/
def BountyEnv.build (env : BountyEnv) (r : BountyRequest) : Option BuiltPlan := do
  let effectRoots ← r.effects.mapM env.effectRoot
  let preconditions ← env.computePreconditions r.effects r.fundingAvailable r.declaredMaximum
  let combined ← env.effectSetRoot r.basePlanRoot effectRoots
  if preconditions.failures = [] then
    let committed := fun f => some (r.base effectRoots combined preconditions f)
    let hash ← env.planHash committed
    return .valid ⟨committed, some (str hash), []⟩
  else return .invalid preconditions.failures

/-! ## the verifier -/

inductive ShapeError
  | unsupportedSchemaVersion
  | unknownKeys
  | missingPolicyRoot
  | missingBaseOperationRoot
  | missingBaseResultRoot
  | missingExtensionsResolutionRoot
  | invalidEffects
  | missingObligationId
  | missingAuthenticatedFundingEvidence
  | missingPreconditions
  | missingAdapterCommitment
deriving DecidableEq

/-- `validate-with-bounty-plan` -/
def BountyPlan.validate (plan : BountyPlan) : List ShapeError :=
  (if plan.get .schemaVersion ≠ str "with-bounty-application-plan.v1"
    then [ShapeError.unsupportedSchemaVersion] else [])
    ++ (if plan.unknown ≠ [] then [ShapeError.unknownKeys] else [])
    ++ (if plan.get .policyRoot = null then [ShapeError.missingPolicyRoot] else [])
    ++ (if plan.get .baseOperationRoot = null then [ShapeError.missingBaseOperationRoot] else [])
    ++ (if plan.get .baseResultRoot = null then [ShapeError.missingBaseResultRoot] else [])
    ++ (if plan.get .extensionsResolutionRoot = null
      then [ShapeError.missingExtensionsResolutionRoot] else [])
    ++ (if (plan.get .effects).items?.isNone then [ShapeError.invalidEffects] else [])
    ++ (if plan.get .obligationId = null then [ShapeError.missingObligationId] else [])
    ++ (if ((plan.get .context).get "funding/source-evidence").isMap then []
      else [ShapeError.missingAuthenticatedFundingEvidence])
    ++ (if (plan.get .preconditions).isMap then [] else [ShapeError.missingPreconditions])
    ++ (if (plan.get .adapter).isMap then [] else [ShapeError.missingAdapterCommitment])

/-- `recomputed-plan-roots`, with the field that each value is compared with -/
def BountyEnv.recomputedPlanRoots (env : BountyEnv) (plan : BountyPlan) :
    Option (List (Field × Datum)) := do
  let effects := (plan.get .effects).items?.getD []
  let obligation := obligationEffect effects
  let effectRoots ← effects.mapM env.effectRoot
  let preconditions ← env.computePreconditions effects (plan.get .fundingAvailable)
    (plan.get .declaredMaximum)
  let combined ← env.effectSetRoot (plan.get .basePlanRoot) effectRoots
  return [(.effectRoots, .vec (effectRoots.map str)),
    (.combinedEffectRoot, str combined),
    (.obligationId, if obligation.truthy then obligation.get "obligation/id" else null),
    (.noDuplicateCreationKey,
      if obligation.truthy then noDuplicateCreationKey obligation else null),
    (.preconditions, preconditions.toDatum)]

inductive PlanVerdict
  | valid
  | malformed (errors : List ShapeError)
  | hashMismatch
  | derivedFieldMismatch (fields : List Field)
deriving DecidableEq

/-- `verify-with-bounty-plan` -/
def BountyEnv.verify (env : BountyEnv) (plan : BountyPlan) : Option PlanVerdict :=
  if plan.validate = [] then do
    let computed ← env.planHash plan.committed
    let recomputed ← env.recomputedPlanRoots plan
    let mismatches := (recomputed.filter fun e => e.2 ≠ plan.get e.1).map Prod.fst
    if plan.hash ≠ some (str computed) then return .hashMismatch
    else if mismatches ≠ [] then return .derivedFieldMismatch mismatches
    else return .valid
  else some (.malformed plan.validate)

/-! ## what is accepted -/

section
variable {env : BountyEnv} {plan : BountyPlan} {r : BountyRequest}

structure BountyEnv.Accepted (env : BountyEnv) (plan : BountyPlan) : Prop where
  shape : plan.validate = []
  hashed : ∃ h, env.planHash plan.committed = some h ∧ plan.hash = some (str h)
  derived : ∃ recomputed, env.recomputedPlanRoots plan = some recomputed
    ∧ ∀ e ∈ recomputed, e.2 = plan.get e.1

theorem mismatches_eq_nil {recomputed : List (Field × Datum)} :
    (recomputed.filter fun e => e.2 ≠ plan.get e.1).map Prod.fst = []
      ↔ ∀ e ∈ recomputed, e.2 = plan.get e.1 := by
  rw [List.map_eq_nil_iff, List.filter_eq_nil_iff]
  simp

theorem verify_eq_valid : env.verify plan = some .valid ↔ env.Accepted plan := by
  by_cases hshape : plan.validate = []
  · rw [BountyEnv.verify, if_pos hshape]
    constructor
    · intro h
      simp only [Option.bind_eq_bind, Option.bind_eq_some_iff] at h
      obtain ⟨computed, hcomputed, recomputed, hrecomputed, h⟩ := h
      by_cases hhash : plan.hash ≠ some (str computed)
      · rw [if_pos hhash] at h
        cases h
      · rw [if_neg hhash] at h
        by_cases hm : (recomputed.filter fun e => e.2 ≠ plan.get e.1).map Prod.fst ≠ []
        · rw [if_pos hm] at h
          cases h
        · exact ⟨hshape, ⟨computed, hcomputed, not_not.mp hhash⟩,
            ⟨recomputed, hrecomputed, mismatches_eq_nil.mp (not_not.mp hm)⟩⟩
    · rintro ⟨-, ⟨computed, hcomputed, hhash⟩, recomputed, hrecomputed, hderived⟩
      simp only [hcomputed, hrecomputed, Option.bind_eq_bind, Option.bind_some]
      rw [if_neg (not_not.mpr hhash), if_neg (not_not.mpr (mismatches_eq_nil.mpr hderived))]
      rfl
  · rw [BountyEnv.verify, if_neg hshape]
    constructor
    · intro h
      cases h
    · exact fun h => absurd h.shape hshape

theorem recomputedPlanRoots_eq_some {recomputed : List (Field × Datum)} :
    env.recomputedPlanRoots plan = some recomputed ↔
      ∃ roots preconditions combined,
        ((plan.get .effects).items?.getD []).mapM env.effectRoot = some roots
        ∧ env.computePreconditions ((plan.get .effects).items?.getD []) (plan.get .fundingAvailable)
            (plan.get .declaredMaximum) = some preconditions
        ∧ env.effectSetRoot (plan.get .basePlanRoot) roots = some combined
        ∧ recomputed = [(.effectRoots, .vec (roots.map str)), (.combinedEffectRoot, str combined),
            (.obligationId, if (obligationEffect ((plan.get .effects).items?.getD [])).truthy then
              (obligationEffect ((plan.get .effects).items?.getD [])).get "obligation/id" else null),
            (.noDuplicateCreationKey,
              if (obligationEffect ((plan.get .effects).items?.getD [])).truthy then
                noDuplicateCreationKey (obligationEffect ((plan.get .effects).items?.getD []))
              else null),
            (.preconditions, preconditions.toDatum)] := by
  simp only [BountyEnv.recomputedPlanRoots, Option.bind_eq_bind, Option.bind_eq_some_iff,
    Option.pure_def, Option.some.injEq]
  constructor
  · rintro ⟨roots, hroots, preconditions, hp, combined, hc, rfl⟩
    exact ⟨roots, preconditions, combined, hroots, hp, hc, rfl⟩
  · rintro ⟨roots, preconditions, combined, hroots, hp, hc, rfl⟩
    exact ⟨roots, hroots, preconditions, hp, combined, hc, rfl⟩

theorem build_eq_valid : env.build r = some (.valid plan) ↔
    ∃ roots combined hash,
      r.effects.mapM env.effectRoot = some roots
      ∧ env.computePreconditions r.effects r.fundingAvailable r.declaredMaximum = some .allTrue
      ∧ env.effectSetRoot r.basePlanRoot roots = some combined
      ∧ env.planHash (fun f => some (r.base roots combined .allTrue f)) = some hash
      ∧ plan = ⟨fun f => some (r.base roots combined .allTrue f), some (str hash), []⟩ := by
  simp only [BountyEnv.build, Option.bind_eq_bind, Option.bind_eq_some_iff]
  constructor
  · rintro ⟨roots, hroots, preconditions, hp, combined, hc, h⟩
    by_cases hf : preconditions.failures = []
    · rw [if_pos hf] at h
      obtain rfl := Preconditions.failures_eq_nil.mp hf
      obtain ⟨hash, hh, h⟩ := Option.bind_eq_some_iff.mp h
      cases h
      exact ⟨roots, combined, hash, hroots, hp, hc, hh, rfl⟩
    · rw [if_neg hf] at h
      cases h
  · rintro ⟨roots, combined, hash, hroots, hp, hc, hh, rfl⟩
    refine ⟨roots, hroots, .allTrue, hp, combined, hc, ?_⟩
    rw [if_pos (Preconditions.failures_eq_nil.mpr rfl), hh]
    rfl

end

end PRF.Economics
