import ProtocolRobustness.Allocation.Roots

/-!
# The reference allocation kernel

`allocation/kernel.clj` with `allocation/reconciliation.clj` and `allocation/round_state.clj`: a
document is parsed, an outcome is drawn from the committed randomness and fourteen assertions decide
whether the round passes.

* `resultLeaves`     the result of an outcome, one leaf for each claimant;
* `reconcile`        the first obligation a result violates;
* `runAssertions`    the assertions in the order of the contract;
* `runKernel`        the public values, or a rejection.
-/

namespace PRF.Allocation
open Bytes Lifecycle

/-! ## the committed block -/

structure Committed where
  claimantSetRoot : Option String
  outcomeSetRoot : Option String
  proposedRatesRoot : Option String
  resultRoot : Option String
  selectedOutcomeId : Option Json
  selectedOutcomeIndex : Option ℤ

def Committed.absent : Committed := ⟨none, none, none, none, none, none⟩

/-- a value that is there and not null -/
def present (v : Option Json) : Option Json :=
  match v with
  | some .null => none
  | v => v

section
variable (prStr : Json → String)

def hexField (committed : Json) (field : String) : Except Rejection (Option String) :=
  match present (committed.field field) with
  | none => .ok none
  | some v => do
    let s ← parseHex prStr "malformed-committed" (field ++ " must be 0x-prefixed 32-byte hex: ")
      (some v)
    return some s

def parseIndex (v : Option Json) : Except Rejection (Option ℤ) :=
  match v with
  | none => .ok none
  | some (.int n) => .ok (some n)
  | some (.str s) =>
    match digits s.toList with
    | some n => .ok (some n)
    | none => rejection "malformed-committed"
        "selected-outcome-index must be a non-negative integer"
  | some _ => rejection "malformed-committed" "selected-outcome-index must be a non-negative integer"

def parseCommitted (input : Json) : Except Rejection Committed :=
  match input.field "committed" with
  | some (.obj fields) => do
    let committed := Json.obj fields
    let index ← parseIndex (present (committed.field "selected-outcome-index"))
    let claimantSetRoot ← hexField prStr committed "claimant-set-root"
    let outcomeSetRoot ← hexField prStr committed "outcome-set-root"
    let proposedRatesRoot ← hexField prStr committed "proposed-rates-root"
    let resultRoot ← hexField prStr committed "result-root"
    return {
      claimantSetRoot := claimantSetRoot
      outcomeSetRoot := outcomeSetRoot
      proposedRatesRoot := proposedRatesRoot
      resultRoot := resultRoot
      selectedOutcomeId := present (committed.field "selected-outcome-id")
      selectedOutcomeIndex := index }
  | v => if truthy v then rejection "malformed-committed" "committed must be an object"
    else .ok .absent

end

/-! ## the round lifecycle -/

structure RoundLifecycle where
  roundState : Option String
  derivedState : Option String
  cancellationWindow : String
  cancellationPossible : Bool
  blockingReasons : List String
  assertionStatus : String

/-- the reasons of the irreversible states, in the order of a round -/
def irreversibleStates : List (String × String) :=
  [("randomness-requested", "authoritative-randomness-requested"),
    ("randomness-fulfilled", "randomness-fulfilled"), ("result-proposed", "result-proposed"),
    ("result-accepted", "result-accepted"),
    ("claim-consumption-started", "claim-consumption-started")]

def roundLifecycle (token : Option Json) : RoundLifecycle :=
  match present token with
  | none => ⟨none, none, "invalid", false, ["missing-target-state"], "failing"⟩
  | some (.str s) =>
    if s = "allocation-committed" then ⟨some s, some s, "open", true, [], "passing"⟩
    -- the table of tokens starts with the schema of windows, which is no state of a round
    else if s = "cancellation-window.v1" then
      ⟨some s, some "schema", "invalid", false, ["unknown-target-state"], "failing"⟩
    else
      match Table.find irreversibleStates s with
      | some reason => ⟨some s, some s, "closed", false, [reason], "passing"⟩
      | none => ⟨some s, none, "invalid", false, ["unknown-target-state"], "failing"⟩
  | some _ => ⟨none, none, "invalid", false, ["malformed-round-state"], "failing"⟩

def optional (s : Option String) : Value := (s.map Value.str).getD .null

def RoundLifecycle.entries (l : RoundLifecycle) : List (Key × Value) :=
  [(key "round-state", optional l.roundState), (key "derived-state", optional l.derivedState),
    (key "lifecycle-profile-id", .str "prf.lifecycle-window/probabilistic-allocation"),
    (key "lifecycle-profile-version", .int 1),
    (key "cancellation-window-schema", .str "cancellation-window.v1"),
    (key "cancellation-window", .str l.cancellationWindow),
    (key "cancellation-possible", .bool l.cancellationPossible),
    (key "cancellation-blocking-reasons", .vec (l.blockingReasons.map .str)),
    (key "lifecycle-assertion-status", .str l.assertionStatus),
    (key "lifecycle-assurance", .str "independent-replay")]

/-! ## results -/

/-- what an outcome allocates to a claim; of two entries the last one counts -/
def lastAllocated (o : Outcome) (claimId : String) : ℕ :=
  (Table.find (Table.into [] (o.allocations.map fun e => (e.claimId, e.allocated))) claimId).getD 0

def resultStatus (finalAllocation : ℕ) : String :=
  if 0 < finalAllocation then "allocated" else "not-allocated"

/-- the line of one claimant -/
def resultLeaf (o : Outcome) (contextHash : String) (claimant : Claimant) : Leaf := {
  claimId := claimant.claimId
  beneficiary := claimant.economicOwnerId
  inputAmount := claimant.amount
  inputWeight := claimant.weight
  finalAllocation := lastAllocated o claimant.claimId
  selectedOutcomeId := o.outcomeId
  resultStatus := resultStatus (lastAllocated o claimant.claimId)
  contextHash := contextHash }

def resultLeaves (c : Context) (o : Outcome) (contextHash : String) : List Leaf :=
  c.claimants.map (resultLeaf o contextHash)

/-- a root as it is compared: bare hex gets its prefix -/
def normalizeRoot (s : String) : String :=
  if s.toList.length = 64 && s.toList.all hexDigit then "0x" ++ s else s

/-- `normalize-root` of the reconciliation: a prefix is taken off -/
def stripPrefix (s : String) : String :=
  if "0x".toList.isPrefixOf s.toList then String.ofList (s.toList.drop 2) else s

def supportedRoundingPolicy : Json := .str "floor-to-asset-decimals.v1"

section
variable (domainHash : String → Value → ByteString) (hashBytes : ByteString → ByteString)

/-- the reason of the first violated obligation. An allocation is a natural number here, so none is
negative. -/
def reconcile (c : Context) (o : Outcome) (leaves : List Leaf) (totalAllocated : ℕ)
    (residualCapacity : ℤ) (committedResultRoot : Option String) (roundingPolicy : Option Json) :
    Option Key :=
  let leafIds := leaves.map Leaf.claimId
  let claimantIds := c.claimants.map Claimant.claimId
  let amountByClaim := Table.into [] (c.claimants.map fun claimant =>
    (claimant.claimId, claimant.amount))
  if totalAllocated ≠ c.capacity then some (key "result-total-capacity-mismatch")
  else if residualCapacity ≠ 0 then some (key "result-nonzero-residual")
  else if leaves.length ≠ claimantIds.length ∨ ¬ leafIds.Nodup then some (key "result-leaf-set-incomplete")
  else if ¬ (leafIds.all (· ∈ claimantIds) && claimantIds.all (· ∈ leafIds)) then
    some (key "result-leaf-set-incomplete")
  else if leafIds ≠ claimantIds then some (key "result-leaf-order-mismatch")
  else if leaves.any fun l => l.finalAllocation ≠ lastAllocated o l.claimId then
    some (key "result-award-mismatch")
  else if leaves.any fun l => !(l.finalAllocation = 0
      || l.finalAllocation = (Table.find amountByClaim l.claimId).getD 0) then
    some (key "result-entitlement-mismatch")
  else if leaves.any fun l => l.resultStatus ≠ resultStatus l.finalAllocation then
    some (key "result-status-mismatch")
  else if truthy roundingPolicy && roundingPolicy ≠ some supportedRoundingPolicy then
    some (key "result-rounding-rule-mismatch")
  else if committedResultRoot.any fun root =>
      (resultMerkleRoot domainHash hashBytes leaves).map stripPrefix ≠ some (stripPrefix root) then
    some (key "result-root-mismatch")
  else none

/-! ## assertions -/

structure Assertion where
  id : Key
  result : Bool
  reason : Option Key
deriving DecidableEq

def assertionId (name : String) (h : legalName name = true := by exact Eq.refl true) : Key :=
  nsKey "allocation.assertion" name h

def Assertion.value (a : Assertion) : Value :=
  .map ([(nsKey "assertion" "id", a.id.value), (nsKey "assertion" "result", .bool a.result)]
    ++ (a.reason.map fun r => [(nsKey "assertion" "reason", r.value)]).getD [])

def assertionClassification : List (Key × Key) :=
  [(assertionId "claimant-set-root-valid", key "claimant-set-root-mismatch"),
    (assertionId "outcome-set-root-valid", key "outcome-set-root-mismatch"),
    (assertionId "proposed-rates-root-valid", key "proposed-rates-root-mismatch"),
    (assertionId "rates-canonical-exact", key "rates-not-canonical"),
    (assertionId "rates-sum-to-one", key "rates-not-sum-to-one"),
    (assertionId "outcomes-eligible-only", key "ineligible-claimant"),
    (assertionId "outcomes-no-duplicate-claims", key "duplicate-claim-in-outcome"),
    (assertionId "outcomes-all-or-nothing", key "allocation-not-all-or-nothing"),
    (assertionId "outcomes-exact-capacity", key "outcome-not-exact-capacity"),
    (assertionId "proportional-proposed", key "proportionality-failure"),
    (assertionId "randomness-selection-valid", key "randomness-selection-invalid"),
    (assertionId "selected-outcome-membership", key "selected-outcome-mismatch"),
    (assertionId "result-root-valid", key "result-root-mismatch"),
    (assertionId "result-capacity-reconciles", key "result-capacity-mismatch")]

structure Computed where
  claimantSetRoot : String
  outcomeSetRoot : String
  proposedRatesRoot : String
  rateDerivedSummaryHash : String
  selection : Selection
  selectedOutcome : Outcome
  leaves : List Leaf
  resultRoot : String
  totalAllocated : ℕ
  residualCapacity : ℤ

def rootsAgree (computed : String) (committed : Option String) : Bool :=
  committed.all fun root => normalizeRoot computed = normalizeRoot root

def runAssertions (c : Context) (committed : Committed) (x : Computed)
    (roundingPolicy : Option Json) : List Assertion :=
  let violated := reconcile domainHash hashBytes c x.selectedOutcome x.leaves x.totalAllocated
    x.residualCapacity committed.resultRoot roundingPolicy
  [⟨assertionId "claimant-set-root-valid", rootsAgree x.claimantSetRoot committed.claimantSetRoot, none⟩,
    ⟨assertionId "outcome-set-root-valid", rootsAgree x.outcomeSetRoot committed.outcomeSetRoot, none⟩,
    ⟨assertionId "proposed-rates-root-valid", rootsAgree x.proposedRatesRoot committed.proposedRatesRoot, none⟩,
    ⟨assertionId "rates-canonical-exact", ratesCanonicalExact c, none⟩,
    ⟨assertionId "rates-sum-to-one", ratesSumToOne c.proposedRates, none⟩,
    ⟨assertionId "outcomes-eligible-only", outcomesEligibleOnly c, none⟩,
    ⟨assertionId "outcomes-no-duplicate-claims", outcomesNoDuplicateClaims c, none⟩,
    ⟨assertionId "outcomes-all-or-nothing", outcomesAllOrNothing c, none⟩,
    ⟨assertionId "outcomes-exact-capacity", outcomesExactCapacity c, none⟩,
    ⟨assertionId "proportional-proposed", proportionalProposed c, none⟩,
    ⟨assertionId "randomness-selection-valid", 0 < c.outcomes.length, none⟩,
    ⟨assertionId "selected-outcome-membership",
      c.outcomes.any (fun o => o.outcomeId = x.selectedOutcome.outcomeId)
      && committed.selectedOutcomeId.all (· = .str x.selectedOutcome.outcomeId)
      && committed.selectedOutcomeIndex.all (· = (x.selection.selectedIndex : ℤ)), none⟩,
    ⟨assertionId "result-root-valid", rootsAgree x.resultRoot committed.resultRoot, none⟩,
    ⟨assertionId "result-capacity-reconciles", violated.isNone, violated⟩]

def firstFailing (assertions : List Assertion) : Option Key :=
  (assertions.find? fun a => !a.result).map fun a =>
    (a.reason.or (Table.find assertionClassification a.id)).getD (key "assertion-failed")

/-! ## the kernel -/

structure Published where
  contextHash : String
  computed : Computed
  assertions : List Assertion
  selectedOutcomeHash : String
  roundLifecycle : RoundLifecycle
  certificateAssertionsDigest : String
  classification : Option Key

inductive Answer where
  | passing (p : Published)
  | failing (p : Published)
  | rejected (r : Rejection)

def certificateAssertionsDigest (ctxHash : String) (assertions : List Assertion) (x : Computed)
    (l : RoundLifecycle) : String :=
  bareHex (domainHash "certificate-assertions-v2" (.map
    ([(key "allocation-context-hash", .str ctxHash),
      (key "assertions", .vec (assertions.map Assertion.value)),
      (key "selected-outcome-id", .str x.selectedOutcome.outcomeId),
      (key "selected-outcome-index", .int x.selection.selectedIndex),
      (key "result-root", .str x.resultRoot), (key "total-allocated", .int x.totalAllocated),
      (key "residual-capacity", .int x.residualCapacity),
      (key "allocation-kernel-version", .str kernelVersion)] ++ l.entries)))

/-- the computation behind the assertions; none while no candidate is accepted -/
def compute (fuel : ℕ) (c : Context) : Option Computed := do
  let sel ← selectIndex domainHash fuel c.randomness c.outcomes.length
  let selected ← c.outcomes[sel.selectedIndex]?
  let leaves := resultLeaves c selected (contextHash domainHash c)
  let resultRoot ← resultMerkleRoot domainHash hashBytes leaves
  let totalAllocated := (leaves.map Leaf.finalAllocation).sum
  return {
    claimantSetRoot := claimantSetRoot domainHash c
    outcomeSetRoot := outcomeSetRoot domainHash c
    proposedRatesRoot := proposedRatesRoot domainHash c
    rateDerivedSummaryHash := rateDerivedSummaryHash domainHash c
    selection := sel
    selectedOutcome := selected
    leaves := leaves
    resultRoot := resultRoot
    totalAllocated := totalAllocated
    residualCapacity := c.capacity - totalAllocated }

def runKernel (keyBytes : String → ByteString) (prStr : Json → String) (fuel : ℕ) (input : Json) :
    Option Answer :=
  let parsed : Except Rejection (Context × Committed) := do
    let c ← buildContext keyBytes prStr input
    let committed ← parseCommitted prStr input
    return (c, committed)
  match parsed with
  | .error r => some (.rejected r)
  | .ok (c, committed) => do
    let x ← compute domainHash hashBytes fuel c
    let lifecycle := roundLifecycle (input.field "round-state")
    let ctxHash := contextHash domainHash c
    let assertions := runAssertions domainHash hashBytes c committed x
      (input.field "rounding-policy")
    let published : Published := {
      contextHash := ctxHash
      computed := x
      assertions := assertions
      selectedOutcomeHash := selectedOutcomeHash domainHash x.selectedOutcome
      roundLifecycle := lifecycle
      certificateAssertionsDigest :=
        certificateAssertionsDigest domainHash ctxHash assertions x lifecycle
      classification := firstFailing assertions }
    return if assertions.all Assertion.result then .passing published else .failing published

end

end PRF.Allocation
