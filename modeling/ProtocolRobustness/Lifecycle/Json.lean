import Mathlib.Data.List.Basic
import Mathlib.Data.Rat.Defs
import Mathlib.Tactic

/-!
# JSON commands, as the two lifecycle kernels read them

* `Json`          a parsed document: a number without fraction and exponent is an integer of any
                  size, any other number is the value of its double;
* `Json.field`    the value under a key, when there is an object to look in;
* `Json.serde`    the document as `serde_json` holds it: an integer outside of the 64-bit ranges
                  has become a double;
* `State`, `Kind`, `Reason`   the state of an operation, the commands and the reasons of a rejection.

An object lists its members in the order of their keys, so equality of documents is equality of
maps.
-/

namespace PRF.Lifecycle

inductive Json where
  | null
  | bool (b : Bool)
  | int (n : ℤ)
  | float (x : ℚ)
  | str (s : String)
  | arr (xs : List Json)
  | obj (fields : List (String × Json))
deriving Inhabited

namespace Json

mutual

def decEq : (a b : Json) → Decidable (a = b)
  | .null, b => match b with
    | .null => isTrue rfl
    | .bool _ | .int _ | .float _ | .str _ | .arr _ | .obj _ => isFalse nofun
  | .bool x, b => match b with
    | .bool y => decidable_of_iff (x = y) (by simp)
    | .null | .int _ | .float _ | .str _ | .arr _ | .obj _ => isFalse nofun
  | .int x, b => match b with
    | .int y => decidable_of_iff (x = y) (by simp)
    | .null | .bool _ | .float _ | .str _ | .arr _ | .obj _ => isFalse nofun
  | .float x, b => match b with
    | .float y => decidable_of_iff (x = y) (by simp)
    | .null | .bool _ | .int _ | .str _ | .arr _ | .obj _ => isFalse nofun
  | .str x, b => match b with
    | .str y => decidable_of_iff (x = y) (by simp)
    | .null | .bool _ | .int _ | .float _ | .arr _ | .obj _ => isFalse nofun
  | .arr x, b => match b with
    | .arr y => @decidable_of_iff _ (x = y) (by simp) (decEqItems x y)
    | .null | .bool _ | .int _ | .float _ | .str _ | .obj _ => isFalse nofun
  | .obj x, b => match b with
    | .obj y => @decidable_of_iff _ (x = y) (by simp) (decEqFields x y)
    | .null | .bool _ | .int _ | .float _ | .str _ | .arr _ => isFalse nofun

def decEqItems : (a b : List Json) → Decidable (a = b)
  | [], [] => isTrue rfl
  | [], _ :: _ => isFalse nofun
  | _ :: _, [] => isFalse nofun
  | x :: xs, y :: ys =>
    @decidable_of_iff _ (x = y ∧ xs = ys) (by simp)
      (@instDecidableAnd _ _ (decEq x y) (decEqItems xs ys))

def decEqFields : (a b : List (String × Json)) → Decidable (a = b)
  | [], [] => isTrue rfl
  | [], _ :: _ => isFalse nofun
  | _ :: _, [] => isFalse nofun
  | (k, x) :: xs, (l, y) :: ys =>
    @decidable_of_iff _ (k = l ∧ x = y ∧ xs = ys) (by simp [and_assoc])
      (@instDecidableAnd _ _ _ (@instDecidableAnd _ _ (decEq x y) (decEqFields xs ys)))

end

instance : DecidableEq Json := decEq

def object? : Json → Option (List (String × Json))
  | .obj fields => some fields
  | _ => none

/-- the value under a key, when there is an object to look in -/
def field (v : Json) (k : String) : Option Json := do
  let fields ← v.object?
  let e ← fields.find? fun e => e.1 = k
  return e.2

def keys (v : Json) : List String := (v.object?.getD []).map Prod.fst

/-- an object with at least one member -/
def nonEmptyObject : Json → Bool
  | .obj fields => !fields.isEmpty
  | _ => false

def string? : Json → Option String
  | .str s => some s
  | _ => none

/-! ## the view of `serde_json` -/

section
variable (toDouble : ℤ → ℚ)

mutual

/-- integers outside of `i64` and `u64` are held as doubles -/
def serde : Json → Json
  | .int n => if -2 ^ 63 ≤ n ∧ n < 2 ^ 64 then .int n else .float (toDouble n)
  | .arr xs => .arr (serdeItems xs)
  | .obj fields => .obj (serdeFields fields)
  | v => v

def serdeItems : List Json → List Json
  | [] => []
  | x :: xs => serde x :: serdeItems xs

def serdeFields : List (String × Json) → List (String × Json)
  | [] => []
  | (k, x) :: fields => (k, serde x) :: serdeFields fields

end

end

end Json

/-! ## the outcome of a command -/

inductive Status where
  | none
  | reserved
  | released
  | expired
  | funded
  | activated
  | cancelledRefunded
  | closed
deriving DecidableEq

inductive Reason where
  | unknownCommand
  | invalidCommandShape
  | operationNotNew
  | invalidOperationId
  | notAuthorized
  | invalidAmount
  | invalidExpiry
  | invalidAssetReference
  | operationMismatch
  | reservationNotLive
  | reservationNotExpired
  | reservationExpired
  | fundingAmountMismatch
  | custodyDeltaMismatch
  | operationNotFunded
  | basisNotAdmitted
  | invalidBasis
  | invalidBasisReference
  | basisOperationMismatch
  | basisAssetMismatch
  | basisTotalMismatch
  | invalidRepresentationReference
  | invalidEntitlementCount
  | operationNotCancellable
  | refundDeltaMismatch
  | operationNotActive
  | entitlementAlreadyClaimed
  | invalidEntitlementId
  | withdrawalNotAdmitted
  | entitlementCountExhausted
  | liabilityExceeded
  | liabilityOutstanding
deriving DecidableEq

/-- why a command leaves the state: it is rejected, or the host throws -/
inductive Failure where
  | rejected (reason : Reason)
  | thrown
deriving DecidableEq

/-- the state of an operation; `τ` is the type of points in time -/
structure State (τ : Type) where
  status : Status
  operationId : Option String
  reservedAmount : ℤ
  expiresAt : Option τ
  fundedAmount : ℤ
  assetRef : Option Json
  basisRef : Option Json
  representationRef : Option Json
  entitlementCount : ℕ
  claimedCount : ℕ
  liabilityTotal : ℤ
  liabilityRemaining : ℤ
  claimedIds : List String
deriving DecidableEq

def State.initial {τ : Type} : State τ where
  status := .none
  operationId := none
  reservedAmount := 0
  expiresAt := none
  fundedAmount := 0
  assetRef := none
  basisRef := none
  representationRef := none
  entitlementCount := 0
  claimedCount := 0
  liabilityTotal := 0
  liabilityRemaining := 0
  claimedIds := []

/-! ## commands -/

inductive Kind where
  | reserve
  | release
  | expire
  | fund
  | activate
  | cancel
  | withdraw
  | close
deriving DecidableEq

namespace Kind

/-- the commands by the text of their `type` -/
def all : List (String × Kind) :=
  [("reserve", .reserve), ("release", .release), ("expire", .expire), ("fund", .fund),
    ("activate", .activate), ("cancel", .cancel), ("withdraw", .withdraw), ("close", .close)]

def ofString? (s : String) : Option Kind := (all.find? fun e => e.1 = s).map Prod.snd

def fields : Kind → List String
  | .reserve => ["type", "operation-id", "amount", "expires-at", "now", "authorized?", "asset-ref"]
  | .release => ["type", "operation-id", "authorized?"]
  | .expire => ["type", "operation-id", "now"]
  | .fund => ["type", "operation-id", "amount", "now", "custody-received"]
  | .activate => ["type", "operation-id", "admitted?", "basis"]
  | .cancel => ["type", "operation-id", "authorized?", "custody-refunded"]
  | .withdraw => ["type", "operation-id", "entitlement-id", "amount", "admitted?", "custody-sent"]
  | .close => ["type", "operation-id"]

end Kind

def basisFields : List String :=
  ["basis-ref", "operation-ref", "asset-ref", "total", "member-count", "representation-ref"]

/-- a guard of a command -/
def rejectIf (p : Prop) [Decidable p] (reason : Reason) : Except Failure Unit :=
  if p then .error (.rejected reason) else .ok ()

theorem rejectIf_of_not {p : Prop} [Decidable p] {reason : Reason} (h : ¬ p) :
    rejectIf p reason = .ok () :=
  if_neg h

theorem rejectIf_eq_ok {p : Prop} [Decidable p] {reason : Reason} {u : Unit} :
    rejectIf p reason = .ok u ↔ ¬ p := by
  unfold rejectIf
  by_cases h : p <;> simp [h]

/-- a field a command needs -/
def orReject {α : Type} (x : Option α) (reason : Reason) : Except Failure α :=
  match x with
  | some a => .ok a
  | none => .error (.rejected reason)

theorem orReject_eq_ok {α : Type} {x : Option α} {reason : Reason} {a : α} :
    orReject x reason = .ok a ↔ x = some a := by
  unfold orReject
  cases x <;> simp

end PRF.Lifecycle
