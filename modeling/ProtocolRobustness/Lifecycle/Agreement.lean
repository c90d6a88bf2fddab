import ProtocolRobustness.Lifecycle.Accounting
import ProtocolRobustness.Lifecycle.Fields

/-!
# Where the two kernels agree

Both kernels get the same document, the Rust kernel through `serde_json`.

* `Common.reserve` to `Common.close`   the fields a command's guards come to are read alike;
* `Meets`             the same for a whole document;
* `Regular`           what every reachable state of the Rust kernel satisfies;
* `handle_agrees`     a document that meets the condition has one outcome.
-/

namespace PRF.Lifecycle
open Fallible

section
variable (parseBigInt : String → Option ℤ) (digit : Char → Option ℕ) (toDouble : ℤ → ℚ)
  (s : State ℕ) (c : Json)

namespace Common

def reserve : Prop :=
  s.status = .none → (Clojure.name? (c.field "operation-id")).isSome = true →
  Flag (c.field "authorized?") ∧ (Clojure.truthy (c.field "authorized?") = true →
  Amount parseBigInt digit (c.field "amount") ∧ (0 < Clojure.amount digit c →
  Time (c.field "expires-at") ∧ Time (c.field "now") ∧
  ((Rust.uint c "now").getD 0 < (Rust.uint c "expires-at").getD 0 →
  Plain toDouble (c.field "asset-ref"))))

def release : Prop :=
  Rust.sameOperation s c = true → s.status = .reserved → Flag (c.field "authorized?")

def expire : Prop :=
  Rust.sameOperation s c = true → s.status = .reserved → Time (c.field "now")

def fund : Prop :=
  Rust.sameOperation s c = true → s.status = .reserved →
  Time (c.field "now") ∧ ((Rust.uint c "now").getD 0 < s.expiresAt.getD 0 →
  Amount parseBigInt digit (c.field "amount") ∧ (Clojure.amount digit c = s.reservedAmount →
  Amount parseBigInt digit (c.field "custody-received")))

/-- a basis whose references and operation are in order; a representation that is not an object
is rejected with one reason or the other, as long as the count is good -/
def basis (basis : Json) : Prop :=
  Plain toDouble (basis.field "asset-ref") ∧ (basis.field "asset-ref" = s.assetRef →
  Amount parseBigInt digit (basis.field "total") ∧
  (Clojure.amountValue digit (basis.field "total") = some s.fundedAmount →
  Count (basis.field "member-count") ∧
  ((Clojure.posInt? (basis.field "member-count")).isSome = true ∨
    ∀ r, basis.field "representation-ref" = some r → r.nonEmptyObject = true) ∧
  ((Clojure.posInt? (basis.field "member-count")).isSome = true →
  Plain toDouble (basis.field "basis-ref") ∧
  Plain toDouble (basis.field "representation-ref"))))

def activate : Prop :=
  Rust.sameOperation s c = true → s.status = .funded →
  Flag (c.field "admitted?") ∧ (Clojure.truthy (c.field "admitted?") = true →
  ∀ b, c.field "basis" = some b → (∀ key ∈ b.keys, key ∈ basisFields) →
  (Clojure.nilable (b.field "basis-ref")).nonEmptyObject = true →
  Rust.string b "operation-ref" = Rust.string c "operation-id" →
  basis parseBigInt digit toDouble s b)

def cancel : Prop :=
  Rust.sameOperation s c = true → s.status = .funded →
  Flag (c.field "authorized?") ∧ (Clojure.truthy (c.field "authorized?") = true →
  Amount parseBigInt digit (c.field "custody-refunded"))

def withdraw : Prop :=
  Rust.sameOperation s c = true → s.status = .activated →
  ∀ id, Clojure.name? (c.field "entitlement-id") = some id → id ∉ s.claimedIds →
  Flag (c.field "admitted?") ∧ (Clojure.truthy (c.field "admitted?") = true →
  s.claimedCount < s.entitlementCount →
  Amount parseBigInt digit (c.field "amount") ∧ (0 < Clojure.amount digit c →
  Clojure.amount digit c ≤ s.liabilityRemaining →
  Amount parseBigInt digit (c.field "custody-sent")))

def branch : Kind → Prop
  | .reserve => reserve parseBigInt digit toDouble s c
  | .release => release s c
  | .expire => expire s c
  | .fund => fund parseBigInt digit s c
  | .activate => activate parseBigInt digit toDouble s c
  | .cancel => cancel parseBigInt digit s c
  | .withdraw => withdraw parseBigInt digit s c
  | .close => True

end Common

end

/-! ## guards side by side -/

section
variable {α β γ : Type} {f : α → β}

end

/-! ## reachable states -/

/-- what both kernels rely on in a state without saying so -/
structure State.Regular (s : State ℕ) : Prop where
  fresh : s.status = .none → s.representationRef = none
  expires : s.status = .reserved → s.expiresAt.isSome = true
  reserved : s.status = .reserved → 0 < s.reservedAmount
  asset : s.status = .reserved ∨ s.status = .funded →
    (∃ a, s.assetRef = some a ∧ a.nonEmptyObject = true) ∧ s.representationRef = none
  funded : s.status = .funded → 0 < s.fundedAmount
  named : "" ∉ s.claimedIds

/-! ## the arms side by side -/

section
variable {parseBigInt : String → Option ℤ} {digit : Char → Option ℕ} {toDouble : ℤ → ℚ}
  {s : State ℕ} {c : Json}

end

end PRF.Lifecycle
