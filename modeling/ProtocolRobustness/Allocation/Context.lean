import ProtocolRobustness.Canonical.Compare
import ProtocolRobustness.Canonical.Encoding
import ProtocolRobustness.Contract.Request
import ProtocolRobustness.Library.Table
import ProtocolRobustness.Lifecycle.Json

/-!
# The context of an allocation round

`allocation/context.clj`: a JSON document is parsed into claimants, outcomes and rates in canonical
order, or rejected with a classification and a reason.

* `parseDecimal`, `parseNonNegative`   integers as numbers or decimal strings;
* `Claimant`, `Outcome`, `Rate`        the parsed records: amounts and weights are natural numbers,
                                       a denominator is positive;
* `canonicalClaimants`, `canonicalOutcomes`, `canonicalProposedRates`   the three collections;
* `buildContext`                       the whole document;
* `Context.preimage`                   what the context hash commits to.

`keyBytes` is the canonical encoding of an id, by which collections are put in order; `prStr` prints
a value into a reason.
-/

namespace PRF.Allocation
open Bytes Lifecycle

/-! ## rejections -/

structure Rejection where
  classification : String
  reason : String
deriving DecidableEq

/-- `(rejection! classification reason)` -/
def rejection {α : Type} (classification reason : String) : Except Rejection α :=
  .error ⟨classification, reason⟩

def whenNot (test : Bool) (classification reason : String) : Except Rejection Unit :=
  if test then .ok () else rejection classification reason

theorem whenNot_eq_ok {test : Bool} {classification reason : String} {u : Unit} :
    whenNot test classification reason = .ok u ↔ test = true := by
  unfold whenNot rejection
  cases test <;> simp

/-! ## strings -/

/-- `Character/isWhitespace` -/
def whitespace (c : Char) : Bool :=
  let n := c.toNat
  (9 ≤ n && n ≤ 13) || (28 ≤ n && n ≤ 32) || n = 0x1680 || (0x2000 ≤ n && n ≤ 0x200a && n ≠ 0x2007)
    || n = 0x2028 || n = 0x2029 || n = 0x205f || n = 0x3000

/-- `(str/blank? s)` -/
def blank (s : String) : Bool := s.toList.all whitespace

def hexDigit (c : Char) : Bool := ('0' ≤ c && c ≤ '9') || ('a' ≤ c && c ≤ 'f')

/-- `#"^0x[0-9a-f]{64}$"` -/
def prefixedHex (s : String) : Bool :=
  "0x".toList.isPrefixOf s.toList && (s.toList.drop 2).length = 64 && (s.toList.drop 2).all hexDigit

def digits (cs : List Char) : Option ℕ :=
  if !cs.isEmpty && cs.all fun c => '0' ≤ c && c ≤ '9' then
    some (cs.foldl (fun n c => 10 * n + (c.toNat - '0'.toNat)) 0)
  else none

/-- `#"-?[0-9]+"` and the number it spells -/
def decimal (s : String) : Option ℤ :=
  match s.toList with
  | '-' :: cs => (digits cs).map fun n => -(n : ℤ)
  | cs => (digits cs).map fun n => (n : ℤ)

def hexValue (c : Char) : ℕ :=
  if c ≤ '9' then c.toNat - '0'.toNat else c.toNat - 'a'.toNat + 10

/-- the bytes two hex digits each spell -/
def hexPairs : List Char → List ℕ
  | c :: d :: cs => (16 * hexValue c + hexValue d) :: hexPairs cs
  | _ => []

/-- `(bytes->hex ba)` -/
def bytesToHex (bytes : ByteString) : String :=
  "0x" ++ String.ofList (bytes.flatMap fun b =>
    [Nat.digitChar (b.toNat / 16), Nat.digitChar (b.toNat % 16)])

/-! ## integers -/

/-- `(pr-str v)` of the value under a key; a missing one prints as nil -/
def printed (prStr : Json → String) (v : Option Json) : String := prStr (v.getD .null)

section
variable (prStr : Json → String)

def parseDecimal (field : String) (value : Option Json) : Except Rejection ℤ :=
  match value with
  | some (.str s) =>
    match decimal s with
    | some n => .ok n
    | none => rejection "malformed-integer"
        (field ++ " must be a decimal string, got: " ++ prStr (.str s))
  | some (.int n) => .ok n
  | v => rejection "malformed-integer" (field ++ " must be an integer, got: " ++ printed prStr v)

def parseNonNegative (field : String) (value : Option Json) : Except Rejection ℕ := do
  let n ← parseDecimal prStr field value
  whenNot (0 ≤ n) "negative-amount" (field ++ " must be non-negative, got: " ++ toString n)
  return n.toNat

/-- a string that is not blank -/
def parseName (classification subject : String) (value : Option Json) : Except Rejection String :=
  match value with
  | some (.str s) =>
    if blank s then rejection classification (subject ++ prStr (.str s)) else .ok s
  | v => rejection classification (subject ++ printed prStr v)

/-- a string of 32 bytes in hex -/
def parseHex (classification subject : String) (value : Option Json) : Except Rejection String :=
  match value with
  | some (.str s) =>
    if prefixedHex s then .ok s else rejection classification (subject ++ prStr (.str s))
  | v => rejection classification (subject ++ printed prStr v)

/-- `(when-not (string? v) …)` -/
def parseString (classification reason : String) (value : Option Json) : Except Rejection String :=
  match value with
  | some (.str s) => .ok s
  | _ => rejection classification reason

/-- `(when-not (sequential? raw) …)` -/
def parseArray (classification reason : String) (value : Option Json) :
    Except Rejection (List Json) :=
  match value with
  | some (.arr xs) => .ok xs
  | _ => rejection classification reason

end

/-! ## records -/

structure Claimant where
  claimId : String
  economicOwnerId : String
  amount : ℕ
  weight : ℕ
deriving DecidableEq

structure Entry where
  claimId : String
  allocated : ℕ
deriving DecidableEq

structure Outcome where
  outcomeId : String
  allocations : List Entry
deriving DecidableEq

/-- an exact ratio as it was declared -/
structure Rate where
  numerator : ℕ
  denominator : ℕ
  pos : 0 < denominator
deriving DecidableEq

structure ProposedRate where
  outcomeId : String
  rate : Rate
deriving DecidableEq

structure Policy where
  policyId : String
  policyHash : String
  forbidDuplicateOwners : Bool
deriving DecidableEq

structure Context where
  allocationId : String
  policy : Policy
  claimants : List Claimant
  outcomes : List Outcome
  proposedRates : List ProposedRate
  capacity : ℕ
  totalEligibleWeight : ℕ
  randomness : List ℕ
  randomnessHex : String

/-! ## order -/

section
variable (keyBytes : String → ByteString)

/-- the order of canonical keys, compared as hex strings -/
def inOrder {α : Type} (key : α → String) (a b : α) : Prop :=
  notAfter (bytesToHex (keyBytes (key a))) (bytesToHex (keyBytes (key b)))

instance {α : Type} (key : α → String) : DecidableRel (inOrder keyBytes key) := fun _ _ =>
  inferInstanceAs (Decidable (notAfter _ _))

def sortByCanonical {α : Type} (key : α → String) (xs : List α) : List α :=
  xs.insertionSort (inOrder keyBytes key)

end

/-- some member occurs twice -/
def hasDuplicates (ids : List String) : Bool := ids.any fun id => 2 ≤ ids.count id

section
variable (keyBytes : String → ByteString) (prStr : Json → String)

/-! ## claimants -/

def parseClaimant (raw : Json) : Except Rejection Claimant := do
  let amount ← parseNonNegative prStr "amount" (raw.field "amount")
  let weight ← parseNonNegative prStr "weight" (raw.field "weight")
  let claimId ← parseName prStr "malformed-claim-id"
    "Claim id must be a non-empty string, got: " (raw.field "claim-id")
  let ownerId ← parseName prStr "malformed-economic-owner-id"
    "Economic owner id must be a non-empty string, got: " (raw.field "economic-owner-id")
  return { claimId := claimId, economicOwnerId := ownerId, amount := amount, weight := weight }

def canonicalClaimants (rawClaimants : Option Json) (forbidDuplicateOwners : Bool) :
    Except Rejection (List Claimant) := do
  let raws ← parseArray "malformed-claimants" "Claimants must be a JSON array" rawClaimants
  let claimants ← raws.mapM (parseClaimant prStr)
  whenNot (!hasDuplicates (claimants.map Claimant.claimId)) "duplicate-claim-id"
    "Duplicate claim ids are forbidden"
  whenNot (!(forbidDuplicateOwners && hasDuplicates (claimants.map Claimant.economicOwnerId)))
    "duplicate-economic-owner" "Duplicate economic owner ids are forbidden by policy"
  return sortByCanonical keyBytes Claimant.claimId claimants

/-! ## outcomes -/

def parseEntry (outcomeId : String) (entry : Json) : Except Rejection Entry := do
  let allocated ← parseNonNegative prStr "allocated" (entry.field "allocated")
  let claimId ← parseString "malformed-outcome-entry"
    ("Allocation entry missing claim-id in outcome " ++ outcomeId) (entry.field "claim-id")
  return { claimId := claimId, allocated := allocated }

def parseOutcome (raw : Json) : Except Rejection Outcome := do
  let outcomeId ← parseName prStr "malformed-outcome-id"
    "Outcome id must be a non-empty string, got: " (raw.field "outcome-id")
  let raws ← parseArray "malformed-outcome"
    ("Outcome " ++ outcomeId ++ " allocations must be a JSON array") (raw.field "allocations")
  let allocations ← raws.mapM (parseEntry prStr outcomeId)
  return { outcomeId := outcomeId, allocations := allocations }

def canonicalOutcomes (rawOutcomes : Option Json) : Except Rejection (List Outcome) := do
  let raws ← parseArray "malformed-outcomes" "Outcomes must be a JSON array" rawOutcomes
  let outcomes ← raws.mapM (parseOutcome prStr)
  whenNot (!hasDuplicates (outcomes.map Outcome.outcomeId)) "duplicate-outcome-id"
    "Duplicate outcome ids are forbidden"
  return sortByCanonical keyBytes Outcome.outcomeId (outcomes.map fun o =>
    { o with allocations := sortByCanonical keyBytes Entry.claimId o.allocations })

/-! ## proposed rates -/

def parseRate (raw : Json) : Except Rejection (String × Rate) := do
  let outcomeId ← parseString "malformed-rate" "Rate missing outcome-id" (raw.field "outcome-id")
  let numerator ← parseNonNegative prStr "numerator" (raw.field "numerator")
  let denominator ← parseDecimal prStr "denominator" (raw.field "denominator")
  if h : 0 < denominator then
    return (outcomeId, ⟨numerator, denominator.toNat, by omega⟩)
  else
    rejection "non-positive-rate-denominator"
      ("Rate denominator must be positive, got: " ++ toString denominator)

/-- the rates in the order of the outcomes; of two rates for one outcome the last one counts -/
def canonicalProposedRates (rawRates : Option Json) (outcomes : List Outcome) :
    Except Rejection (List ProposedRate) := do
  let raws ← parseArray "malformed-rates" "Proposed rates must be a JSON array" rawRates
  let outcomeIds := outcomes.map Outcome.outcomeId
  let rates ← raws.mapM (parseRate prStr)
  let rateByOutcome := Table.into [] rates
  whenNot (outcomeIds.all (· ∈ rateByOutcome.map Prod.fst)
      && (rateByOutcome.map Prod.fst).all (· ∈ outcomeIds))
    "rates-outcome-mismatch" "Proposed rates must cover exactly the outcome set"
  return outcomeIds.filterMap fun id => (Table.find rateByOutcome id).map fun rate => ⟨id, rate⟩

/-! ## the document -/

/-- neither nil nor false -/
def truthy : Option Json → Bool
  | none | some .null | some (.bool false) => false
  | _ => true

def parsePolicy (raw : Option Json) : Except Rejection Policy :=
  match raw with
  | some (.obj fields) => do
    let raw := Json.obj fields
    let policyId ← parseName prStr "malformed-policy" "Policy id required, got: "
      (raw.field "policy-id")
    let policyHash ← parseHex prStr "malformed-policy-hash"
      "Policy hash must be 0x-prefixed 32-byte hex: " (raw.field "policy-hash")
    return { policyId := policyId, policyHash := policyHash,
             forbidDuplicateOwners := truthy (raw.field "forbid-duplicate-owners") }
  | _ => rejection "malformed-policy" "Policy must be an object"

def kernelVersion : String := "allocation-kernel.v1"
def selectionAlgorithm : String := "domain-hash-rejection-v1"

def buildContext (input : Json) : Except Rejection Context := do
  whenNot input.object?.isSome "malformed-input" "Input must be a JSON object"
  let version := (input.field "kernel-version").getD (.str kernelVersion)
  let algorithm := (input.field "selection-algorithm").getD (.str selectionAlgorithm)
  let policy ← parsePolicy prStr (input.field "policy")
  let capacity ← parseNonNegative prStr "capacity" (input.field "capacity")
  let declaredTotalWeight ← parseDecimal prStr "total-eligible-weight"
    (input.field "total-eligible-weight")
  let declaredDenominator ← parseDecimal prStr "exact-pro-rata-denominator"
    (input.field "exact-pro-rata-denominator")
  let allocationId ← parseName prStr "malformed-allocation-id" "Allocation id required, got: "
    (input.field "allocation-id")
  whenNot (version = .str kernelVersion) "unsupported-kernel-version"
    ("Expected kernel version " ++ kernelVersion ++ ", got: " ++ prStr version)
  whenNot (algorithm = .str selectionAlgorithm) "unsupported-selection-algorithm"
    ("Expected " ++ selectionAlgorithm ++ ", got: " ++ prStr algorithm)
  whenNot (capacity ≠ 0) "non-positive-capacity" "Capacity must be positive"
  let randomness ← parseHex prStr "malformed-randomness"
    "Authoritative randomness must be 0x-prefixed 32-byte hex: "
    (input.field "authoritative-randomness")
  let claimants ← canonicalClaimants keyBytes prStr (input.field "claimants")
    policy.forbidDuplicateOwners
  let totalWeight := (claimants.map Claimant.weight).sum
  let outcomes ← canonicalOutcomes keyBytes prStr (input.field "outcomes")
  whenNot (!claimants.isEmpty) "empty-claimant-set" "Claimant set must not be empty"
  whenNot (!outcomes.isEmpty) "empty-outcome-set" "Outcome set must not be empty"
  whenNot (totalWeight ≠ 0) "zero-total-weight" "Total eligible weight must be positive"
  whenNot ((totalWeight : ℤ) = declaredTotalWeight) "inconsistent-total-weight"
    ("Declared total eligible weight " ++ toString declaredTotalWeight
      ++ " != sum of weights " ++ toString totalWeight)
  whenNot ((totalWeight : ℤ) = declaredDenominator) "inconsistent-pro-rata-denominator"
    ("Exact pro-rata denominator " ++ toString declaredDenominator
      ++ " must equal total eligible weight " ++ toString totalWeight)
  let proposedRates ← canonicalProposedRates prStr (input.field "proposed-rates") outcomes
  return {
    allocationId := allocationId
    policy := policy
    claimants := claimants
    outcomes := outcomes
    proposedRates := proposedRates
    capacity := capacity
    totalEligibleWeight := totalWeight
    randomness := hexPairs (randomness.toList.drop 2)
    randomnessHex := randomness }

end

/-! ## values -/

def Claimant.value (c : Claimant) : Value :=
  .map [(nsKey "claim" "id", .str c.claimId), (key "economic-owner-id", .str c.economicOwnerId),
    (key "amount", .int c.amount), (key "weight", .int c.weight)]

def Outcome.value (o : Outcome) : Value :=
  .map [(nsKey "outcome" "id", .str o.outcomeId),
    (key "allocations", .vec (o.allocations.map fun e =>
      .map [(nsKey "claim" "id", .str e.claimId), (key "allocated", .int e.allocated)]))]

def Rate.value (r : Rate) : Value :=
  .map [(key "numerator", .int r.numerator), (key "denominator", .int r.denominator)]

def Policy.value (p : Policy) : Value :=
  .map [(nsKey "policy" "id", .str p.policyId), (nsKey "policy" "hash", .str p.policyHash),
    (key "forbid-duplicate-owners", .bool p.forbidDuplicateOwners)]

/-- `(context-preimage context)` -/
def Context.preimage (c : Context) : Value :=
  .map [(key "schema-version", .str "allocation-context.v1"),
    (key "artifact-kind", (key "allocation-context").value),
    (nsKey "allocation" "id", .str c.allocationId),
    (key "allocation-kernel-version", .str kernelVersion),
    (key "selection-algorithm", (key "domain-hash-rejection-v1").value),
    (key "policy", c.policy.value), (key "claimants", .vec (c.claimants.map Claimant.value)),
    (key "outcomes", .vec (c.outcomes.map Outcome.value)),
    (key "proposed-rates", .vec (c.proposedRates.map fun r =>
      .map [(nsKey "outcome" "id", .str r.outcomeId), (key "rate", r.rate.value)])),
    (key "capacity", .int c.capacity), (key "total-eligible-weight", .int c.totalEligibleWeight),
    (key "exact-pro-rata-denominator", .int c.totalEligibleWeight),
    (key "authoritative-randomness", .vec (c.randomness.map fun b => .int b))]

end PRF.Allocation
