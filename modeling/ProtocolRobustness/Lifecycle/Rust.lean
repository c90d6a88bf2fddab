import ProtocolRobustness.Lifecycle.Json

/-!
# The Rust lifecycle kernel

`packages/capital-lifecycle/rust/src/lib.rs`.  Documents are as `serde_json` holds them, amounts are
`BigInt`, points in time and counts are `u64`.

* `Command.tryFrom`   a command has a known type and no field beyond those of its type;
* `reserve` to `close`   the arms of `transition`, guard by guard;
* `handle`            a document, checked and applied.

`parseBigInt` is `str::parse::<BigInt>` of the `num-bigint` crate.
-/

namespace PRF.Lifecycle.Rust

/-! ## fields -/

def asU64 : Json → Option ℕ
  | .int n => if 0 ≤ n ∧ n < 2 ^ 64 then some n.toNat else none
  | _ => none

def asBool : Json → Option Bool
  | .bool b => some b
  | _ => none

def string (value : Json) (key : String) : Option String := (value.field key).bind Json.string?
def uint (value : Json) (key : String) : Option ℕ := (value.field key).bind asU64
def boolean (value : Json) (key : String) : Bool := ((value.field key).bind asBool).getD false

section
variable (parseBigInt : String → Option ℤ)

def parseAmount (value : Json) (key : String) (default : Option ℤ) : Option ℤ :=
  ((value.field key).bind fun v =>
    ((asU64 v).map Int.ofNat).or (v.string?.bind parseBigInt)).or default

/-- the amount of a command, zero by default -/
def requestedAmount (command : Json) : ℤ := (parseAmount parseBigInt command "amount" (some 0)).getD 0

end

def sameOperation (state : State ℕ) (command : Json) : Bool :=
  match state.operationId, string command "operation-id" with
  | some stateId, some commandId => stateId ≠ "" && stateId = commandId
  | _, _ => false

/-! ## commands -/

structure Command where
  value : Json
  kind : Kind
  named : (string value "type").bind Kind.ofString? = some kind
  closed : ∀ key ∈ value.keys, key ∈ kind.fields

/-- `TryFrom<Value>` -/
def Command.tryFrom (value : Json) : Except Failure Command :=
  match value.object? with
  | none => .error (.rejected .invalidCommandShape)
  | some _ =>
    match h : (string value "type").bind Kind.ofString? with
    | none => .error (.rejected .unknownCommand)
    | some kind =>
      if hc : ∀ key ∈ value.keys, key ∈ kind.fields then .ok ⟨value, kind, h, hc⟩
      else .error (.rejected .invalidCommandShape)

/-! ## the arms of `transition` -/

section
variable (parseBigInt : String → Option ℤ) (state : State ℕ) (command : Json)

def reserve : Except Failure (State ℕ) := do
  rejectIf (state.status ≠ .none) .operationNotNew
  let op ← orReject ((string command "operation-id").filter (· ≠ "")) .invalidOperationId
  rejectIf (boolean command "authorized?" = false) .notAuthorized
  rejectIf (requestedAmount parseBigInt command ≤ 0) .invalidAmount
  let expires := (uint command "expires-at").getD 0
  rejectIf (expires ≤ (uint command "now").getD 0) .invalidExpiry
  let assetRef ← orReject ((command.field "asset-ref").filter Json.nonEmptyObject)
    .invalidAssetReference
  return { state with
    status := .reserved
    assetRef := some assetRef
    operationId := some op
    reservedAmount := requestedAmount parseBigInt command
    expiresAt := some expires }

def release : Except Failure (State ℕ) := do
  rejectIf (sameOperation state command = false) .operationMismatch
  rejectIf (state.status ≠ .reserved) .reservationNotLive
  rejectIf (boolean command "authorized?" = false) .notAuthorized
  return { state with status := .released, reservedAmount := 0 }

def expire : Except Failure (State ℕ) := do
  rejectIf (sameOperation state command = false) .operationMismatch
  rejectIf (state.status ≠ .reserved) .reservationNotLive
  rejectIf ((uint command "now").getD 0 < state.expiresAt.getD 0) .reservationNotExpired
  return { state with status := .expired, reservedAmount := 0 }

def fund : Except Failure (State ℕ) := do
  rejectIf (sameOperation state command = false) .operationMismatch
  rejectIf (state.status ≠ .reserved) .reservationNotLive
  rejectIf ((uint command "now").getD 0 ≥ state.expiresAt.getD 0) .reservationExpired
  rejectIf (requestedAmount parseBigInt command ≠ state.reservedAmount) .fundingAmountMismatch
  rejectIf (parseAmount parseBigInt command "custody-received" none ≠ some state.reservedAmount)
    .custodyDeltaMismatch
  return { state with
    status := .funded
    reservedAmount := 0
    fundedAmount := requestedAmount parseBigInt command }

/-- the representation of a basis; without one the state keeps its own -/
def representation (basis : Json) : Except Failure (Option Json) :=
  match basis.field "representation-ref" with
  | none => .ok state.representationRef
  | some representation => do
    rejectIf (representation.nonEmptyObject = false) .invalidRepresentationReference
    return some representation

def activate : Except Failure (State ℕ) := do
  rejectIf (sameOperation state command = false) .operationMismatch
  rejectIf (state.status ≠ .funded) .operationNotFunded
  rejectIf (boolean command "admitted?" = false) .basisNotAdmitted
  let basis ← orReject ((command.field "basis").filter fun b => b.object?.isSome) .invalidBasis
  rejectIf (¬ ∀ key ∈ basis.keys, key ∈ basisFields) .invalidBasis
  let basisRef ← orReject ((basis.field "basis-ref").filter Json.nonEmptyObject)
    .invalidBasisReference
  rejectIf (string basis "operation-ref" ≠ string command "operation-id") .basisOperationMismatch
  rejectIf (basis.field "asset-ref" ≠ state.assetRef) .basisAssetMismatch
  rejectIf (parseAmount parseBigInt basis "total" none ≠ some state.fundedAmount)
    .basisTotalMismatch
  let representationRef ← representation state basis
  let count := (uint basis "member-count").getD 0
  rejectIf (count = 0) .invalidEntitlementCount
  return { state with
    status := .activated
    representationRef := representationRef
    basisRef := some basisRef
    entitlementCount := count
    liabilityTotal := state.fundedAmount
    liabilityRemaining := state.fundedAmount }

def cancel : Except Failure (State ℕ) := do
  rejectIf (sameOperation state command = false) .operationMismatch
  rejectIf (state.status ≠ .funded) .operationNotCancellable
  rejectIf (boolean command "authorized?" = false) .notAuthorized
  rejectIf (parseAmount parseBigInt command "custody-refunded" none ≠ some state.fundedAmount)
    .refundDeltaMismatch
  return { state with status := .cancelledRefunded, fundedAmount := 0 }

def withdraw : Except Failure (State ℕ) := do
  rejectIf (sameOperation state command = false) .operationMismatch
  rejectIf (state.status ≠ .activated) .operationNotActive
  let entitlement := (string command "entitlement-id").getD ""
  rejectIf (entitlement ∈ state.claimedIds) .entitlementAlreadyClaimed
  rejectIf (entitlement = "") .invalidEntitlementId
  rejectIf (boolean command "admitted?" = false) .withdrawalNotAdmitted
  rejectIf (state.claimedCount ≥ state.entitlementCount) .entitlementCountExhausted
  rejectIf (requestedAmount parseBigInt command ≤ 0) .invalidAmount
  rejectIf (requestedAmount parseBigInt command > state.liabilityRemaining) .liabilityExceeded
  rejectIf (parseAmount parseBigInt command "custody-sent" none
    ≠ some (requestedAmount parseBigInt command)) .custodyDeltaMismatch
  return { state with
    claimedCount := state.claimedCount + 1
    claimedIds := state.claimedIds ++ [entitlement]
    liabilityRemaining := state.liabilityRemaining - requestedAmount parseBigInt command }

def close : Except Failure (State ℕ) := do
  rejectIf (sameOperation state command = false) .operationMismatch
  rejectIf (state.status ≠ .activated) .operationNotActive
  rejectIf (state.claimedCount ≠ state.entitlementCount ∨ state.liabilityRemaining ≠ 0)
    .liabilityOutstanding
  return { state with status := .closed }

end

def transition (parseBigInt : String → Option ℤ) (state : State ℕ) (command : Command) :
    Except Failure (State ℕ) :=
  match command.kind with
  | .reserve => reserve parseBigInt state command.value
  | .release => release state command.value
  | .expire => expire state command.value
  | .fund => fund parseBigInt state command.value
  | .activate => activate parseBigInt state command.value
  | .cancel => cancel parseBigInt state command.value
  | .withdraw => withdraw parseBigInt state command.value
  | .close => close state command.value

/-- a document, checked and applied -/
def handle (parseBigInt : String → Option ℤ) (state : State ℕ) (value : Json) :
    Except Failure (State ℕ) := do
  let command ← Command.tryFrom value
  transition parseBigInt state command

end PRF.Lifecycle.Rust
