import ProtocolRobustness.Lifecycle.Json

/-!
# The Clojure lifecycle kernel

`prf.capital-lifecycle.transition`.  Amounts and counts are integers of the host, points in time
are whatever number the command holds; a comparison with anything but a number throws.

* `truthy`, `amountValue`, `lessEq`, `less`   how the guards read a field;
* `reserve` to `close`   the branches of `transition`, guard by guard;
* `transition`           the shape of the command, then its branch.

`digit` is `(Character/digit c 10)`; `toDouble` is the double nearest to an integer.
-/

namespace PRF.Lifecycle.Clojure

/-! ## fields -/

/-- neither `nil` nor `false` -/
def truthy : Option Json → Bool
  | none => false
  | some .null => false
  | some (.bool b) => b
  | some _ => true

/-- `nil` for an absent field -/
def nilable (x : Option Json) : Json := x.getD .null

section
variable (digit : Char → Option ℕ)

/-- digits read from the left -/
def digits : ℤ → List Char → Option ℤ
  | n, [] => some n
  | n, c :: cs => (digit c).bind fun d => digits (10 * n + d) cs

/-- `(java.math.BigInteger. s)`; `none` is the `NumberFormatException` -/
def bigInteger (s : String) : Option ℤ :=
  match s.toList with
  | [] => none
  | '-' :: cs => if cs = [] then none else (digits digit 0 cs).map Neg.neg
  | '+' :: cs => if cs = [] then none else digits digit 0 cs
  | cs => digits digit 0 cs

def amountValue : Option Json → Option ℤ
  | some (.str s) => bigInteger digit s
  | some (.int n) => some n
  | _ => none

/-- the amount of a command, zero by default -/
def amount (command : Json) : ℤ := (amountValue digit (command.field "amount")).getD 0

end

section
variable (toDouble : ℤ → ℚ)

/-- `(<= a b)` -/
def lessEq : Json → Json → Except Failure Bool
  | .int m, .int n => .ok (m ≤ n)
  | .int m, .float y => .ok (toDouble m ≤ y)
  | .float x, .int n => .ok (x ≤ toDouble n)
  | .float x, .float y => .ok (x ≤ y)
  | _, _ => .error .thrown

/-- `(< a b)` -/
def less : Json → Json → Except Failure Bool
  | .int m, .int n => .ok (m < n)
  | .int m, .float y => .ok (toDouble m < y)
  | .float x, .int n => .ok (x < toDouble n)
  | .float x, .float y => .ok (x < y)
  | _, _ => .error .thrown

end

/-- `(key command 0)` -/
def timeField (command : Json) (key : String) : Json := (command.field key).getD (.int 0)

/-- a string that is not empty -/
def name? (x : Option Json) : Option String := (x.bind Json.string?).filter (· ≠ "")

def sameOp (s : State Json) (command : Json) : Bool :=
  match name? (command.field "operation-id") with
  | some op => some op = s.operationId
  | none => false

/-- `pos-int?`, an integer of 64 bits -/
def posInt? : Option Json → Option ℕ
  | some (.int n) => if 0 < n ∧ n < 2 ^ 63 then some n.toNat else none
  | _ => none

/-! ## the branches of `transition` -/

section
variable (digit : Char → Option ℕ) (toDouble : ℤ → ℚ) (s : State Json) (command : Json)

def reserve : Except Failure (State Json) := do
  rejectIf (s.status ≠ .none) .operationNotNew
  let op ← orReject (name? (command.field "operation-id")) .invalidOperationId
  rejectIf (truthy (command.field "authorized?") = false) .notAuthorized
  rejectIf (¬ 0 < amount digit command) .invalidAmount
  let late ← lessEq toDouble (timeField command "expires-at") (timeField command "now")
  rejectIf (late = true) .invalidExpiry
  rejectIf ((nilable (command.field "asset-ref")).nonEmptyObject = false) .invalidAssetReference
  return { s with
    status := .reserved
    operationId := some op
    assetRef := command.field "asset-ref"
    reservedAmount := amount digit command
    expiresAt := command.field "expires-at" }

def release : Except Failure (State Json) := do
  rejectIf (sameOp s command = false) .operationMismatch
  rejectIf (s.status ≠ .reserved) .reservationNotLive
  rejectIf (truthy (command.field "authorized?") = false) .notAuthorized
  return { s with status := .released, reservedAmount := 0 }

def expire : Except Failure (State Json) := do
  rejectIf (sameOp s command = false) .operationMismatch
  rejectIf (s.status ≠ .reserved) .reservationNotLive
  let early ← less toDouble (timeField command "now") (nilable s.expiresAt)
  rejectIf (early = true) .reservationNotExpired
  return { s with status := .expired, reservedAmount := 0 }

def fund : Except Failure (State Json) := do
  rejectIf (sameOp s command = false) .operationMismatch
  rejectIf (s.status ≠ .reserved) .reservationNotLive
  let late ← lessEq toDouble (nilable s.expiresAt) (timeField command "now")
  rejectIf (late = true) .reservationExpired
  rejectIf (s.reservedAmount ≠ amount digit command) .fundingAmountMismatch
  rejectIf (some s.reservedAmount ≠ amountValue digit (command.field "custody-received"))
    .custodyDeltaMismatch
  return { s with
    status := .funded
    reservedAmount := 0
    fundedAmount := amount digit command }

def activate : Except Failure (State Json) := do
  rejectIf (sameOp s command = false) .operationMismatch
  rejectIf (s.status ≠ .funded) .operationNotFunded
  rejectIf (truthy (command.field "admitted?") = false) .basisNotAdmitted
  let basis := nilable (command.field "basis")
  rejectIf (basis.object?.isSome = false) .invalidBasis
  rejectIf (¬ ∀ key ∈ basis.keys, key ∈ basisFields) .invalidBasis
  rejectIf ((nilable (basis.field "basis-ref")).nonEmptyObject = false) .invalidBasisReference
  rejectIf (nilable (command.field "operation-id") ≠ nilable (basis.field "operation-ref"))
    .basisOperationMismatch
  rejectIf (nilable s.assetRef ≠ nilable (basis.field "asset-ref")) .basisAssetMismatch
  rejectIf (some s.fundedAmount ≠ amountValue digit (basis.field "total")) .basisTotalMismatch
  let count ← orReject (posInt? (basis.field "member-count")) .invalidEntitlementCount
  rejectIf ((basis.field "representation-ref").isSome = true ∧
    (nilable (basis.field "representation-ref")).nonEmptyObject = false)
    .invalidRepresentationReference
  return { s with
    status := .activated
    basisRef := basis.field "basis-ref"
    representationRef := basis.field "representation-ref"
    entitlementCount := count
    liabilityTotal := s.fundedAmount
    liabilityRemaining := s.fundedAmount }

def cancel : Except Failure (State Json) := do
  rejectIf (sameOp s command = false) .operationMismatch
  rejectIf (s.status ≠ .funded) .operationNotCancellable
  rejectIf (truthy (command.field "authorized?") = false) .notAuthorized
  rejectIf (some s.fundedAmount ≠ amountValue digit (command.field "custody-refunded"))
    .refundDeltaMismatch
  return { s with status := .cancelledRefunded, fundedAmount := 0 }

def withdraw : Except Failure (State Json) := do
  rejectIf (sameOp s command = false) .operationMismatch
  rejectIf (s.status ≠ .activated) .operationNotActive
  rejectIf (∃ id ∈ s.claimedIds, command.field "entitlement-id" = some (.str id))
    .entitlementAlreadyClaimed
  let id ← orReject (name? (command.field "entitlement-id")) .invalidEntitlementId
  rejectIf (truthy (command.field "admitted?") = false) .withdrawalNotAdmitted
  rejectIf (s.claimedCount ≥ s.entitlementCount) .entitlementCountExhausted
  rejectIf (¬ 0 < amount digit command) .invalidAmount
  rejectIf (amount digit command > s.liabilityRemaining) .liabilityExceeded
  rejectIf (some (amount digit command) ≠ amountValue digit (command.field "custody-sent"))
    .custodyDeltaMismatch
  return { s with
    claimedCount := s.claimedCount + 1
    claimedIds := s.claimedIds ++ [id]
    liabilityRemaining := s.liabilityRemaining - amount digit command }

def close : Except Failure (State Json) := do
  rejectIf (sameOp s command = false) .operationMismatch
  rejectIf (s.status ≠ .activated) .operationNotActive
  rejectIf (s.claimedCount ≠ s.entitlementCount ∨ s.liabilityRemaining ≠ 0) .liabilityOutstanding
  return { s with status := .closed }

/-- `(get command-fields (:type command))` -/
def kind? (command : Json) : Option Kind :=
  ((command.field "type").bind Json.string?).bind Kind.ofString?

def branch : Kind → Except Failure (State Json)
  | .reserve => reserve digit toDouble s command
  | .release => release s command
  | .expire => expire toDouble s command
  | .fund => fund digit toDouble s command
  | .activate => activate digit s command
  | .cancel => cancel digit s command
  | .withdraw => withdraw digit s command
  | .close => close s command

def transition : Except Failure (State Json) := do
  let kind ← orReject (kind? command) .unknownCommand
  rejectIf (¬ ∀ key ∈ command.keys, key ∈ kind.fields) .invalidCommandShape
  branch digit toDouble s command kind

end

end PRF.Lifecycle.Clojure
