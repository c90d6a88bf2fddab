import ProtocolRobustness.Economics.SlashShapes
import ProtocolRobustness.Library.CheckedSum

/-!
# Award calculations

`economics/award_calculation.clj`: an award is the sum of its components, and nothing unless all of its
eligibility checks pass.  The builder, the structural check and the verifier each repeat a part of that.

* `Component`, `Check`, `Award`, `Args`   the artifact, and what it is built from;
* `sortBy`                    by an id; data of two kinds cannot be compared;
* `checkSetRoot`              the root of the ids of the checks;
* `validateAwardCalculation`  the structural check;
* `build`                     `build-award-calculation`;
* `verify`                    `verify-award-calculation`.

The hashes are parameters, `none` where they throw.  The keys that nothing reads are of a type `ι`; ids
and the other scalars are `nil`, booleans, exact numbers, strings and keywords.
-/

namespace PRF.Awards
open LongArith (HostInt)

/-! ## the artifact -/

def kw (s : String) : Atom := .kw s

def truthy (a : Atom) : Bool := a ≠ .null ∧ a ≠ .bool false

def orElse (a b : Atom) : Atom := if truthy a then a else b

def isKeyword : Atom → Bool
  | .kw _ => true
  | _ => false

def isString : Atom → Bool
  | .str _ => true
  | _ => false

/-- `(and (string? v) (seq v))` -/
def nonEmptyText : Atom → Bool
  | .str s => s ≠ ""
  | _ => false

/-- a number that should be an integer -/
inductive Amount
  | int (n : HostInt)
  | ratio (q : ℚ)
  | notNumber
deriving DecidableEq

def Amount.int? : Amount → Option HostInt
  | .int n => some n
  | _ => none

def Amount.number? : Amount → Option ℚ
  | .int n => some n.value
  | .ratio q => some q
  | .notNumber => none

structure Component (ι : Type) where
  id : Atom
  kind : Atom
  amount : Amount
  sourceRoot : Atom
  other : ι
deriving DecidableEq

structure Check (ι : Type) where
  id : Atom
  pass : Atom
  other : ι
deriving DecidableEq

/-- `checks` is `none` where it is no vector; in what an award is built from, where it is no
collection -/
structure EligibilityResult (ι : Type) where
  eligible : Atom
  checks : Option (List (Check ι))
  other : ι

/-- an artifact: the names of its keys, and what is under them.  `components` is `none` where it is no
vector, and `eligibilityResult` where it is no map. -/
structure Award (ι : Type) where
  keys : List String
  artifactType : Atom
  id : Atom
  policyRoot : Atom
  poolAvailabilityRoot : Atom
  claimSetRoot : Atom
  evidenceSetRoot : Atom
  beneficiaryId : Atom
  calculationTime : Atom
  amount : Amount
  scale : Amount
  components : Option (List (Component ι))
  eligibilityResult : Option (EligibilityResult ι)
  eligibilityPolicyRoot : Atom
  checkSetRoot : Atom
  mode : Atom
  hash : Atom

/-- what an award is built from; `nil` is a collection and a map without entries -/
structure Args (ι : Type) where
  id : Atom
  policyRoot : Atom
  poolAvailabilityRoot : Atom
  claimSetRoot : Atom
  evidenceSetRoot : Atom
  beneficiaryId : Atom
  calculationTime : Atom
  scale : Amount
  components : Option (List (Component ι))
  eligibilityResult : Option (EligibilityResult ι)
  eligibilityPolicyRoot : Atom
  checkSetRoot : Atom
  mode : Atom

def awardCalculationType : Atom := kw "award-calculation.v2"

def awardProjectionFields : List String :=
  ["artifact/type", "award/id", "award/policy-root", "award/pool-availability-root",
    "award/claim-set-root", "award/evidence-set-root", "award/beneficiary-id",
    "award/calculation-time", "award/amount", "award/scale", "award/calculation-components",
    "award/eligibility-result", "award/eligibility-policy-root", "award/check-set-root",
    "award/mode"]

def awardModes : List Atom := [kw "review", kw "generic"]

def componentKindSign (kind : Atom) : Option (ℚ → Bool) :=
  if kind = kw "base" ∨ kind = kw "bonus" then some fun q => 0 ≤ q
  else if kind = kw "deduction" then some fun q => q ≤ 0
  else none

/-! ## exceptions -/

inductive Thrown
  | refused (message : String)
  -- an exception of the host, of a comparison or of a hash
  | host
deriving DecidableEq

def refuse (c : Prop) [Decidable c] (message : String) : Except Thrown Unit :=
  if c then .error (.refused message) else .ok ()

def given {α : Type} : Option α → Except Thrown α
  | some a => .ok a
  | none => .error .host

/-! ## sorting -/

/-- first by kind, then as `compare` has it -/
def rank : Atom → Lex (ℕ × Lex (ℚ × Lex (WithBot (List ℕ) × List ℕ)))
  | .null => toLex (0, toLex (0, toLex (⊥, [])))
  | .bool b => toLex (1, toLex (b.toNat, toLex (⊥, [])))
  | .int n => toLex (2, toLex (n, toLex (⊥, [])))
  | .ratio q => toLex (2, toLex (q, toLex (⊥, [])))
  | .str s => toLex (3, toLex (0, toLex (⊥, utf16 s)))
  | .kw s => toLex (4, toLex (0, SlashShapes.keywordRank s))

/-- whether `compare` has an answer -/
def Comparable (a b : Atom) : Prop :=
  a = .null ∨ b = .null ∨ (ofLex (rank a)).1 = (ofLex (rank b)).1

instance : DecidableRel Comparable := fun _ _ => inferInstanceAs (Decidable (_ ∨ _ ∨ _))

/-- `(sort-by id l)`: of two elements that cannot be compared, two are compared -/
def sortBy {α : Type} (id : α → Atom) (l : List α) : Except Thrown (List α) :=
  if l.Pairwise fun x y => Comparable (id x) (id y) then
    .ok (l.insertionSort fun x y => rank (id x) ≤ rank (id y))
  else .error .host

/-! ## roots -/

section
variable {ι : Type} [DecidableEq ι]

/-- the canonical hashes of an artifact, read on its projection, and of sorted check ids -/
structure AwardHashes (ι : Type) where
  award : Award ι → Option String
  checkSet : List Atom → Option String

variable (H : AwardHashes ι)

/-- `award-calculation-hash-projection` -/
def Award.projection (a : Award ι) : Award ι :=
  { a with keys := awardProjectionFields.filter fun k => k ∈ a.keys, hash := .null }

def awardCalculationHash (a : Award ι) : Except Thrown String := given (H.award a.projection)

def checkSetRoot (checkIds : List Atom) : Except Thrown String := do
  let sorted ← sortBy id checkIds
  refuse (¬ sorted.Nodup) "Duplicate check IDs"
  given (H.checkSet sorted)

def canonicalizeEligibilityChecks (checks : List (Check ι)) :
    Except Thrown (List (Check ι)) := do
  refuse (Atom.null ∈ checks.map (·.id)) "Eligibility checks must have :check/id"
  refuse (¬ (checks.map (·.id)).Nodup) "Duplicate eligibility check IDs"
  sortBy (·.id) checks

/-! ## components -/

/-- `(reduce +' 0 (map :component/amount components))`, of integers -/
def total (components : List (Component ι)) : HostInt :=
  (components.filterMap (·.amount.int?)).foldl HostInt.addPromote (.ofInt 0)

def checkComponentIds (components : List (Component ι)) : Except Thrown Unit := do
  let ids := components.map (·.id)
  refuse (Atom.null ∈ ids) "All components must have :component/id"
  refuse (∃ id ∈ ids, ¬ (isKeyword id ∨ isString id)) ":component/id must be a keyword or string"
  refuse (¬ ids.Nodup) "Duplicate component IDs"

/-- the comparison of what is no number throws -/
def checkSign (c : Component ι) : Except Thrown Unit :=
  match componentKindSign c.kind with
  | none => .ok ()
  | some sign =>
    match c.amount.number? with
    | none => .error .host
    | some q => refuse (sign q = false) "Component amount sign does not match kind"

def buildComponent (c : Component ι) : Except Thrown Unit := do
  refuse (isKeyword c.kind = false) ":component/kind must be a keyword"
  checkSign c
  refuse (c.amount.int? = none) ":component/amount must be an integer"

/-- a kind that is `nil` is taken for a missing one -/
def validateComponent (c : Component ι) : Except Thrown Unit := do
  refuse (c.kind = .null) "Component missing :component/kind"
  refuse (isKeyword c.kind = false) ":component/kind must be a keyword"
  checkSign c
  refuse (nonEmptyText c.sourceRoot = false) ":component/source-root must be a non-empty string"
  refuse (c.amount.int? = none) ":component/amount must be an integer"

/-! ## the structural check -/

/-- `nat-int?`, which a big integer is not -/
def Amount.natInt : Amount → Bool
  | .int n => n.big = false ∧ 0 ≤ n.value
  | _ => false

def Amount.positiveInteger : Amount → Bool
  | .int n => 0 < n.value
  | _ => false

/-- `(pos? amount)` -/
def Amount.positive (a : Amount) : Bool := a.number?.any fun q => 0 < q

def Award.texts (a : Award ι) : List (String × Atom) :=
  [("id", a.id), ("policy-root", a.policyRoot),
    ("pool-availability-root", a.poolAvailabilityRoot), ("claim-set-root", a.claimSetRoot),
    ("evidence-set-root", a.evidenceSetRoot), ("beneficiary-id", a.beneficiaryId),
    ("calculation-time", a.calculationTime)]

def checkText (e : String × Atom) : Except Thrown Unit :=
  refuse (nonEmptyText e.2 = false) (e.1 ++ " must be a non-empty string")

def reviewWithoutRoots (mode policyRoot checkSetRoot : Atom) : Prop :=
  mode = kw "review" ∧ (policyRoot = .null ∨ checkSetRoot = .null)

instance (mode policyRoot checkSetRoot : Atom) :
    Decidable (reviewWithoutRoots mode policyRoot checkSetRoot) :=
  inferInstanceAs (Decidable (_ ∧ _))

def validateComponents (a : Award ι) : Except Thrown Unit :=
  match a.components with
  | none => .error (.refused ":award/calculation-components must be a vector")
  | some components => do
    checkComponentIds components
    components.forM validateComponent
    refuse (a.amount.number? ≠ some ((total components).value : ℚ))
      "Component sum does not match award amount"

def allPass (checks : List (Check ι)) : Bool := checks.all fun c => c.pass = .bool true

def validateCheck (c : Check ι) : Except Thrown Unit :=
  refuse (c.pass ≠ .bool true ∧ c.pass ≠ .bool false) ":check/pass? must be a boolean"

/-- the root that is declared, where one is -/
def checkDeclaredRoot (declared : Atom) (derived : String) : Except Thrown Unit :=
  refuse (truthy declared ∧ declared ≠ .str derived)
    "check-set-root does not match canonicalized check IDs"

/-- the checks, and what they say of the award -/
def validateChecks (a : Award ι) (er : EligibilityResult ι) (checks : List (Check ι)) :
    Except Thrown Unit := do
  refuse (checks = []) "Eligibility checks must be non-empty"
  refuse (Atom.null ∈ checks.map (·.id)) "Each check must have :check/id"
  refuse (¬ (checks.map (·.id)).Nodup) "Duplicate check IDs"
  checks.forM validateCheck
  refuse (er.eligible ≠ .bool (allPass checks)) "Eligibility result does not match check outcomes"
  let sorted ← sortBy id (checks.map (·.id))
  let derived ← checkSetRoot H sorted
  checkDeclaredRoot a.checkSetRoot derived
  refuse (er.eligible = .bool false ∧ a.amount.positive) "Ineligible award must have zero amount"

def validateEligibility (a : Award ι) : Except Thrown Unit :=
  match a.eligibilityResult with
  | none => .error (.refused ":award/eligibility-result must be a map")
  | some er => do
    refuse (er.eligible ≠ .bool true ∧ er.eligible ≠ .bool false) ":eligible? must be a boolean"
    match er.checks with
    | none => .error (.refused ":checks must be a vector")
    | some checks => validateChecks H a er checks

def validateAwardCalculation (a : Award ι) : Except Thrown Unit := do
  refuse (∃ k ∈ awardProjectionFields, k ∉ a.keys) "Missing required keys in award-calculation"
  refuse (∃ k ∈ a.keys, k ∉ awardProjectionFields ∧ k ≠ "artifact/hash")
    "Unknown award-calculation fields"
  refuse (a.artifactType ≠ awardCalculationType) "Wrong artifact type"
  refuse (a.mode ∉ awardModes) "Unsupported award mode"
  refuse (reviewWithoutRoots a.mode a.eligibilityPolicyRoot a.checkSetRoot)
    "Review-mode award requires :award/eligibility-policy-root and :award/check-set-root"
  refuse (a.amount.natInt = false) ":award/amount must be a non-negative integer"
  refuse (a.scale.positiveInteger = false) ":award/scale must be a positive integer"
  a.texts.forM checkText
  validateComponents a
  validateEligibility H a

/-! ## the builder -/

/-- `(and (seq checks) (every? true? ...))` -/
def computedEligible (checks : List (Check ι)) : Atom :=
  if checks = [] then .null else .bool (allPass checks)

/-- the root is computed only where one is declared -/
def checkBuiltRoot (declared : Atom) (checks : List (Check ι)) : Except Thrown Unit :=
  if truthy declared then do
    let computed ← checkSetRoot H (checks.map (·.id))
    checkDeclaredRoot declared computed
  else .ok ()

/-- the artifact without its hash -/
def Args.unhashed (args : Args ι) (mode : Atom) (components : List (Component ι))
    (er : EligibilityResult ι) (checks : List (Check ι)) : Award ι where
  keys := awardProjectionFields
  artifactType := awardCalculationType
  id := args.id
  policyRoot := args.policyRoot
  poolAvailabilityRoot := args.poolAvailabilityRoot
  claimSetRoot := args.claimSetRoot
  evidenceSetRoot := args.evidenceSetRoot
  beneficiaryId := args.beneficiaryId
  calculationTime := args.calculationTime
  amount := .int (total components)
  scale := args.scale
  components := some components
  eligibilityResult := some { er with checks := some checks }
  eligibilityPolicyRoot := args.eligibilityPolicyRoot
  checkSetRoot := args.checkSetRoot
  mode := mode
  hash := .null

/-- `build-award-calculation`; neither the texts, the scale and the source roots nor the outcome of a
check are looked at -/
def build (args : Args ι) : Except Thrown (Award ι) := do
  let mode := orElse args.mode (kw "generic")
  refuse (mode ∉ awardModes) "Unsupported award mode"
  refuse (reviewWithoutRoots mode args.eligibilityPolicyRoot args.checkSetRoot)
    "Review-mode award requires :award/eligibility-policy-root and :award/check-set-root"
  let supplied ← given args.components
  checkComponentIds supplied
  supplied.forM buildComponent
  let components ← sortBy (·.id) supplied
  let amount := total components
  refuse (amount.value < 0) "Award amount would be negative"
  let er ← given args.eligibilityResult
  let suppliedChecks ← given er.checks
  let checks ← canonicalizeEligibilityChecks suppliedChecks
  refuse (computedEligible checks ≠ er.eligible) "Eligibility result does not match check outcomes"
  refuse (truthy (computedEligible checks) = false ∧ 0 < amount.value)
    "Ineligible award must have zero amount"
  checkBuiltRoot H args.checkSetRoot checks
  let result := args.unhashed mode components er checks
  let hash ← awardCalculationHash H result
  return { result with keys := "artifact/hash" :: result.keys, hash := .str hash }

/-! ## the verifier -/

/-- what a policy resolver does: `missing` is `nil` or `false` -/
inductive Resolution
  | threw
  | missing
  | policy (checkSetRoot : Atom)
deriving DecidableEq

inductive Mismatch
  | hashMismatch
  | amountMismatch
  | nonCanonicalComponents
  | nonCanonicalEligibilityChecks
  | eligibilityMismatch
  | ineligiblePositiveAmount
  | policyResolveError
  | policyCheckSetMismatch
  | policySuppliedCheckSetMismatch
deriving DecidableEq

inductive Verdict
  | valid
  | invalid (errors : List Mismatch)
  | invalidStructure (thrown : Thrown)

def report (c : Prop) [Decidable c] (m : Mismatch) : List Mismatch := if c then [m] else []

/-- what the resolver returned, where it was called: the award has both roots -/
def Award.resolution (a : Award ι) (resolver : Atom → Resolution) : Option Resolution :=
  if truthy a.eligibilityPolicyRoot ∧ truthy a.checkSetRoot then
    some (resolver a.eligibilityPolicyRoot)
  else none

/-- a policy that is not found is passed over -/
def policyErrors (a : Award ι) (supplied : String) : Option Resolution → List Mismatch
  | some .threw => [.policyResolveError]
  | some (.policy root) =>
    report (root ≠ a.checkSetRoot) .policyCheckSetMismatch
      ++ report (root ≠ .str supplied) .policySuppliedCheckSetMismatch
  | some .missing => []
  | none => []

def resolverErrors (a : Award ι) (checks : List (Check ι)) :
    Option (Atom → Resolution) → Except Thrown (List Mismatch)
  | none => .ok []
  | some resolver => do
    let supplied ← checkSetRoot H (checks.map (·.id))
    return policyErrors a supplied (a.resolution resolver)

/-- the errors of a structurally valid award -/
def mismatches (a : Award ι) (resolver : Option (Atom → Resolution)) :
    Except Thrown (List Mismatch) := do
  let expected ← awardCalculationHash H a
  let components ← given a.components
  let er ← given a.eligibilityResult
  let checks ← given er.checks
  let sorted ← sortBy (·.id) components
  let sortedChecks ← canonicalizeEligibilityChecks checks
  let policy ← resolverErrors H a checks resolver
  return report (a.hash ≠ .str expected) .hashMismatch
    ++ report (a.amount.number? ≠ some ((total components).value : ℚ)) .amountMismatch
    ++ report (sorted ≠ components) .nonCanonicalComponents
    ++ report (sortedChecks ≠ checks) .nonCanonicalEligibilityChecks
    ++ report (computedEligible checks ≠ er.eligible) .eligibilityMismatch
    ++ report (truthy (computedEligible checks) = false ∧ a.amount.positive)
        .ineligiblePositiveAmount
    ++ policy

/-- `verify-award-calculation`: an exception is an answer -/
def verify (a : Award ι) (resolver : Option (Atom → Resolution)) : Verdict :=
  match (do validateAwardCalculation H a; mismatches H a resolver) with
  | .error thrown => .invalidStructure thrown
  | .ok [] => .valid
  | .ok errors => .invalid errors

end

end PRF.Awards
