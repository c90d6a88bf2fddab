import ProtocolRobustness.Library.Datum

/-!
# Effect contracts

`validate-effect` and `validate-effects` of `economics/effects.clj`, with the structural check of
`economics/schemas.clj`.  Effects are any data; the details of violations are left out.

* `Tag`, `Schema`        the type tags that effect contracts use, and schema maps;
* `effectSchemaMaps`     the schema of each contract;
* `validateEffect`       the structural check, and what is asked of custody effects.
-/

namespace PRF.Economics
open Datum

inductive EffectViolation
  | effectMissingContract
  | unknownEffectContract
  | notAMap
  | missingSchemaKey
  | schemaTypeMismatch
  | custodyV2DerivedDirection
  | unsupportedHeldAction
deriving DecidableEq

/-! ## schemas -/

inductive Tag
  | keyword
  | integer
  | string
  | map

/-- `tag-matches?` -/
def Tag.matches (tag : Tag) (v : Datum) : Bool :=
  match tag with
  | .keyword => v.isKeyword
  | .integer => v.int?.isSome
  | .string => v.isString
  | .map => v.isMap

abbrev Schema := List (String × Tag)

def validateAgainstSchema (schema : Schema) (v : Datum) : List EffectViolation :=
  if v.isMap then
    (if schema.any fun e => ¬ v.has e.1 then [.missingSchemaKey] else [])
      ++ if schema.any fun e => ¬ e.2.matches (v.get e.1) then [.schemaTypeMismatch] else []
  else [.notAMap]

/-! ## contracts -/

def balanceCreditSchema : Schema :=
  [("effect/type", .keyword), ("effect/contract", .keyword), ("effect/account", .keyword),
    ("effect/amount", .integer)]

def obligationCreateSchema : Schema :=
  [("effect/type", .keyword), ("effect/contract", .keyword), ("obligation/type", .keyword),
    ("obligation/amount", .integer), ("obligation/owner", .keyword)]

def obligationCreateV2Schema : Schema :=
  [("effect/type", .keyword), ("effect/contract", .keyword), ("obligation/type", .keyword),
    ("obligation/id", .string), ("obligation/amount", .integer), ("obligation/token", .keyword),
    ("obligation/owner", .keyword), ("obligation/funding", .map), ("obligation/subject", .map),
    ("effect/provenance", .map)]

def custodyHeldAdjustmentSchema : Schema :=
  [("effect/type", .keyword), ("effect/contract", .keyword), ("effect/direction", .keyword),
    ("effect/account", .keyword), ("effect/amount", .integer), ("held/kind", .keyword)]

def custodyHeldAdjustmentV2Schema : Schema :=
  [("effect/type", .keyword), ("effect/contract", .keyword), ("effect/action", .string),
    ("effect/account", .keyword), ("effect/amount", .integer), ("effect/token", .keyword),
    ("held/kind", .keyword)]

def obligationCreateV1 : Datum := kw "prf.effect/obligation-create.v1"
def obligationCreateV2 : Datum := kw "prf.effect/obligation-create.v2"
def custodyHeldAdjustmentV1 : Datum := kw "prf.effect/custody-held-adjustment.v1"
def custodyHeldAdjustmentV2 : Datum := kw "prf.effect/custody-held-adjustment.v2"

def effectSchemaMaps : List (Datum × Schema) :=
  [(kw "prf.effect/balance-credit.v1", balanceCreditSchema),
    (obligationCreateV1, obligationCreateSchema),
    (obligationCreateV2, obligationCreateV2Schema),
    (custodyHeldAdjustmentV1, custodyHeldAdjustmentSchema),
    (custodyHeldAdjustmentV2, custodyHeldAdjustmentV2Schema)]

def supportedHeldActions : List Datum :=
  [str "add-held", str "sub-held", str "finalize-released", str "refund-held"]

def validateCustodyEffectSemantics (effect : Datum) : List EffectViolation :=
  (if effect.get "effect/contract" = custodyHeldAdjustmentV2 ∧ effect.has "effect/direction"
    then [.custodyV2DerivedDirection] else [])
    ++ if effect.get "effect/action" ≠ null ∧ effect.get "effect/action" ∉ supportedHeldActions
      then [.unsupportedHeldAction] else []

def structuralViolations (effect : Datum) : List EffectViolation :=
  let contract := effect.get "effect/contract"
  if contract = null then [.effectMissingContract]
  else
    match effectSchemaMaps.find? fun e => e.1 = contract with
    | none => [.unknownEffectContract]
    | some e => validateAgainstSchema e.2 effect

def validateEffect (effect : Datum) : List EffectViolation :=
  structuralViolations effect
    ++ if effect.get "effect/type" = kw "custody/held-adjustment"
      then validateCustodyEffectSemantics effect else []

def validateEffects (effects : List Datum) : List EffectViolation := effects.flatMap validateEffect

end PRF.Economics
