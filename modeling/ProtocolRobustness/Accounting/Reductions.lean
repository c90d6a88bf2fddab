import ProtocolRobustness.Canonical.Compare
import ProtocolRobustness.Contract.Request
import ProtocolRobustness.Library.CheckedSum
import ProtocolRobustness.Library.Table

/-!
# Accounting reductions

`accounting/reductions.clj`: the sources of a request are divided into work units, each unit is
summed by category on its own, and the partial sums are put together again.

* `Totals`                a map from categories to integers, summed by the checked `+` of the host;
* `buildRequest`, `buildPartitionPlan`, `buildPartialResult`   the rooted artifacts and the checks
                          in front of them;
* `validPartialResult`    what reconciliation asks of a partial;
* `ingestPartial`         one partial for each work unit;
* `reconcile`             the merged values with their root.

`digest` is `prf.canonical`'s domain-separated hash with its `sha256:` prefix and `isRef` its
`valid-sha256-ref?`.
-/

namespace PRF.Accounting
open LongArith

/-! ## totals -/

/-- the order of the entries of a sorted map -/
def entryNotAfter (e f : Keyword × ℤ) : Prop := keywordNotAfter e.1 f.1

instance : DecidableRel entryNotAfter := fun e f =>
  inferInstanceAs (Decidable (keywordNotAfter e.1 f.1))

instance : Std.Total entryNotAfter where
  total e f := Std.Total.total (r := keywordNotAfter) e.1 f.1

instance : IsTrans (Keyword × ℤ) entryNotAfter where
  trans _ _ _ h h' := IsTrans.trans (r := keywordNotAfter) _ _ _ h h'

/-- a sorted map from categories to integers -/
structure Totals where
  entries : List (Keyword × HostInt)
  nodup : (entries.map Prod.fst).Nodup

namespace Totals

def empty : Totals := ⟨[], List.nodup_nil⟩

def put (m : Totals) (k : Keyword) (x : HostInt) : Totals :=
  ⟨Table.put m.entries k x, Table.nodup_put m.nodup k x⟩

/-- the entries in the order of the map -/
def listing (m : Totals) : List (Keyword × ℤ) :=
  (m.entries.map fun e => (e.1, e.2.value)).insertionSort entryNotAfter

/-- `(= m n)`: integers are compared by value, however they are held -/
def same (m n : Totals) : Bool := m.listing = n.listing

def value (m : Totals) : Value := .map (m.listing.map fun e => (.kw e.1, .int e.2))

/-- `integer-map?`; the values are integers by type -/
def integerMap (m : Totals) : Bool := m.entries.all fun e => e.1.ns.isSome

end Totals

/-! ## failures -/

inductive Failure where
  | invalidRequest
  | invalidPlan (expected actual duplicateSourceRoots : List String)
  | invalidPartial (expectedValues actualValues : List (Keyword × ℤ))
  | conflict (unitRoot existingRoot incomingRoot : String)
  | unsupportedContract
  | mismatch
  | incomplete (missing unexpected : List String)
  | invalidPartials (roots : List String)
  | coverage (duplicates omitted unexpected : List String)
  | differs (serial partitioned : List (Keyword × ℤ))
  | overflow
  | nullPointer
deriving DecidableEq

/-- the messages of this namespace; the host throws the others -/
def Failure.message : Failure → Option String
  | .invalidRequest => some "Invalid accounting request"
  | .invalidPlan _ _ _ => some "Invalid accounting partition plan"
  | .invalidPartial _ _ => some "Invalid accounting partial result"
  | .conflict _ _ _ => some "Conflicting accounting partial result"
  | .unsupportedContract => some "Unsupported accounting reduction contract"
  | .mismatch => some "Accounting request, contract, and partition plan mismatch"
  | .incomplete _ _ => some "Accounting reconciliation is incomplete"
  | .invalidPartials _ => some "Invalid accounting partial provenance or value"
  | .coverage _ _ _ => some "Accounting source coverage violation"
  | .differs _ _ => some "Partitioned accounting differs from serial accounting"
  | .overflow | .nullPointer => none

def whenNot (test : Bool) (failure : Failure) : Except Failure Unit :=
  if test then .ok () else .error failure

def orThrow {α : Type} (x : Option α) (failure : Failure) : Except Failure α :=
  match x with
  | some a => .ok a
  | none => .error failure

namespace Totals

/-- `(update m k (fnil + 0) x)` -/
def update (m : Totals) (e : Keyword × HostInt) : Except Failure Totals := do
  let sum ← orThrow (((Table.find m.entries e.1).getD (HostInt.ofInt 0)).add? e.2) .overflow
  return m.put e.1 sum

def mergeEntry (m : Totals) (e : Keyword × HostInt) : Except Failure Totals :=
  match Table.find m.entries e.1 with
  | none => .ok (m.put e.1 e.2)
  | some x => do
    let sum ← orThrow (x.add? e.2) .overflow
    return m.put e.1 sum

/-- `(merge-with + m n)` -/
def mergeWith (m n : Totals) : Except Failure Totals := n.entries.foldlM mergeEntry m

end Totals

/-! ## sets of roots -/

/-- the members of a set in order -/
def sortedSet (xs : List String) : List String := xs.dedup.insertionSort notAfter

def difference (xs ys : List String) : List String := xs.filter (· ∉ ys)

/-- equality of two sets -/
def sameSet (xs ys : List String) : Bool := xs.all (· ∈ ys) && ys.all (· ∈ xs)

def repeated (xs : List String) : List String := xs.filter fun x => 1 < xs.count x

/-! ## the reduction contract -/

def qualified (ns name : String) (h : legalName name = true := by exact Eq.refl true) : Keyword :=
  ⟨some ns, name, legal_of_legalName h⟩

def plain (name : String) (h : legalName name = true := by exact Eq.refl true) : Keyword :=
  ⟨none, name, legal_of_legalName h⟩

def strings (xs : List String) : Value := .vec (xs.map .str)

def schemaKey : Key := nsKey "artifact" "schema"
def requestRootKey : Key := nsKey "accounting-request" "root"
def workUnitRootKey : Key := nsKey "accounting-work-unit" "root"
def contractRootKey : Key := nsKey "accounting-reduction-contract" "root"
def sourceRootsKey : Key := nsKey "partition" "source-roots"
def valuesKey : Key := nsKey "accounting" "values"

structure Properties where
  associative : Bool
  commutative : Bool
  idempotent : Bool
  orderSensitive : Bool
  partitionIndependent : Bool
  requiresGlobalConstraint : Bool
deriving DecidableEq

def supportedProperties : Properties := ⟨true, true, false, false, true, false⟩

def Properties.value (p : Properties) : Value :=
  .map [(key "associative", .bool p.associative), (key "commutative", .bool p.commutative),
    (key "idempotent", .bool p.idempotent), (key "order-sensitive", .bool p.orderSensitive),
    (key "partition-independent", .bool p.partitionIndependent),
    (key "requires-global-constraint", .bool p.requiresGlobalConstraint)]

structure ReductionContract where
  schema : String
  operation : Keyword
  properties : Properties
  rule : Keyword
  proofObligation : Keyword
  root : String

def reductionContractSchema : String := "accounting-reduction-contract.v1"
def supportedOperation : Keyword := qualified "accounting.operation" "sum-by-category.v1"
def supportedRule : Keyword := plain "integer-sum-by-qualified-category"

section
variable (digest : String → Value → String)

def reductionContractRoot (c : ReductionContract) : String :=
  digest "ACCOUNTING_REDUCTION_CONTRACT_V1" (.map
    [(schemaKey, .str c.schema), (nsKey "accounting" "operation", .kw c.operation),
      (nsKey "algebraic" "properties", c.properties.value),
      (nsKey "reduction" "rule", .kw c.rule),
      (nsKey "reduction" "proof-obligation", .kw c.proofObligation)])

def buildReductionContract : ReductionContract :=
  let body : ReductionContract := {
    schema := reductionContractSchema
    operation := supportedOperation
    properties := supportedProperties
    rule := supportedRule
    proofObligation :=
      plain "serial-equivalence-conservation-and-exactly-once-source-coverage"
    root := "" }
  { body with root := reductionContractRoot digest body }

def validReductionContract (c : ReductionContract) : Bool :=
  c.schema = reductionContractSchema && c.operation = supportedOperation
    && c.properties = supportedProperties && c.rule = supportedRule
    && c.root = reductionContractRoot digest c

end

/-! ## requests -/

structure Source where
  sourceRoot : String
  category : Keyword
  amount : HostInt
  subjectRoot : String
  claimToRoot : String

/-- what a source adds to the totals -/
def Source.entry (s : Source) : Keyword × HostInt := (s.category, s.amount)

def Source.value (s : Source) : Value :=
  .map [(nsKey "source" "root", .str s.sourceRoot),
    (nsKey "accounting" "category", .kw s.category),
    (nsKey "accounting" "value", .int s.amount.value),
    (nsKey "accounting" "subject-root", .str s.subjectRoot),
    (nsKey "claim-to" "root", .str s.claimToRoot)]

structure RequestInput where
  accountingDomain : Keyword
  cutpointRoot : String
  accountingDefinitionRoot : String
  accountingPolicyRoot : String
  reductionContract : ReductionContract
  sources : List Source

structure Request where
  accountingDomain : Keyword
  cutpointRoot : String
  accountingDefinitionRoot : String
  accountingPolicyRoot : String
  contractRoot : String
  sources : List Source
  root : String

def Request.sourceRoots (r : Request) : List String := r.sources.map Source.sourceRoot

section
variable (digest : String → Value → String) (isRef : String → Bool)

def validSource (s : Source) : Bool :=
  [s.sourceRoot, s.subjectRoot, s.claimToRoot].all isRef && s.category.ns.isSome

def requestRoot (r : Request) : String :=
  digest "ACCOUNTING_REQUEST_V1" (.map
    [(schemaKey, .str "accounting-request.v1"), (nsKey "accounting" "domain", .kw r.accountingDomain),
      (nsKey "accounting" "cutpoint-root", .str r.cutpointRoot),
      (nsKey "accounting-definition" "root", .str r.accountingDefinitionRoot),
      (nsKey "accounting-policy" "root", .str r.accountingPolicyRoot),
      (contractRootKey, .str r.contractRoot),
      (nsKey "accounting" "sources", .vec (r.sources.map Source.value))])

def buildRequest (input : RequestInput) : Except Failure Request := do
  let sources := input.sources.insertionSort fun s t => notAfter s.sourceRoot t.sourceRoot
  whenNot (input.accountingDomain.ns.isSome
      && [input.cutpointRoot, input.accountingDefinitionRoot, input.accountingPolicyRoot].all isRef
      && validReductionContract digest input.reductionContract
      && !sources.isEmpty && sources.all (validSource isRef)
      && decide (sources.map Source.sourceRoot).Nodup)
    .invalidRequest
  let body : Request := {
    accountingDomain := input.accountingDomain
    cutpointRoot := input.cutpointRoot
    accountingDefinitionRoot := input.accountingDefinitionRoot
    accountingPolicyRoot := input.accountingPolicyRoot
    contractRoot := input.reductionContract.root
    sources := sources
    root := "" }
  return { body with root := requestRoot digest body }

end

def serialValues (r : Request) : Except Failure Totals :=
  r.sources.foldlM (fun totals s => totals.update s.entry) .empty

/-! ## partition plans -/

structure Requirements where
  dependencySetRoot : String
  allowedImplementationRoots : List String
  requiredCapabilities : List Keyword
  privacyRequirement : Keyword
  executionEnvironmentRoot : String

structure WorkUnit where
  requestRoot : String
  index : ℕ
  sourceRoots : List String
  dependencySetRoot : String
  allowedImplementationRoots : List String
  requiredCapabilities : List Keyword
  privacyRequirement : Keyword
  executionEnvironmentRoot : String
  root : String

/-- the work unit without its root -/
def WorkUnit.body (u : WorkUnit) : List (Key × Value) :=
  [(schemaKey, .str "accounting-work-unit.v1"),
    (nsKey "work-unit" "class", .kw (plain "accounting-partition")),
    (requestRootKey, .str u.requestRoot), (nsKey "partition" "index", .int u.index),
    (sourceRootsKey, strings u.sourceRoots),
    (nsKey "work-unit" "dependency-set-root", .str u.dependencySetRoot),
    (nsKey "work-unit" "allowed-implementation-roots", strings u.allowedImplementationRoots),
    (nsKey "work-unit" "required-capabilities", .vec (u.requiredCapabilities.map .kw)),
    (nsKey "work-unit" "privacy-requirement", .kw u.privacyRequirement),
    (nsKey "work-unit" "execution-environment-root", .str u.executionEnvironmentRoot)]

structure Plan where
  requestRoot : String
  contractRoot : String
  workUnits : List WorkUnit
  root : String

def privacyRequirements : List Keyword :=
  [plain "public", plain "runner-readable-private", plain "sealed-to-execution-environment"]

section
variable (digest : String → Value → String) (isRef : String → Bool)

def workUnitRoot (u : WorkUnit) : String := digest "ACCOUNTING_WORK_UNIT_V1" (.map u.body)

def buildWorkUnit (r : Request) (partitionIndex : ℕ) (sourceRoots : List String)
    (q : Requirements) : WorkUnit :=
  let body : WorkUnit := {
    requestRoot := r.root
    index := partitionIndex
    sourceRoots := sourceRoots.insertionSort notAfter
    dependencySetRoot := q.dependencySetRoot
    allowedImplementationRoots := q.allowedImplementationRoots.insertionSort notAfter
    requiredCapabilities := q.requiredCapabilities.insertionSort keywordNotAfter
    privacyRequirement := q.privacyRequirement
    executionEnvironmentRoot := q.executionEnvironmentRoot
    root := "" }
  { body with root := workUnitRoot digest body }

def partitionPlanRoot (p : Plan) : String :=
  digest "ACCOUNTING_PARTITION_PLAN_V1" (.map
    [(schemaKey, .str "accounting-partition-plan.v1"), (requestRootKey, .str p.requestRoot),
      (contractRootKey, .str p.contractRoot),
      (nsKey "partition" "work-units",
        .vec (p.workUnits.map fun u => .map (u.body ++ [(workUnitRootKey, .str u.root)]))),
      (nsKey "partition" "coverage", .kw (plain "complete-exactly-once"))])

def buildPartitionPlan (r : Request) (partitions : List (List String)) (q : Requirements) :
    Except Failure Plan := do
  let expected := r.sourceRoots
  let partitions := partitions.map (·.insertionSort notAfter)
  let flattened := partitions.flatten
  whenNot (!partitions.isEmpty && partitions.all (fun p => !p.isEmpty)
      && sameSet expected flattened && decide flattened.Nodup
      && isRef q.dependencySetRoot && isRef q.executionEnvironmentRoot
      && !q.allowedImplementationRoots.isEmpty && q.allowedImplementationRoots.all isRef
      && decide (q.privacyRequirement ∈ privacyRequirements))
    (.invalidPlan (sortedSet expected) (sortedSet flattened) (sortedSet (repeated flattened)))
  let body : Plan := {
    requestRoot := r.root
    contractRoot := r.contractRoot
    workUnits := partitions.mapIdx fun i p => buildWorkUnit digest r i p q
    root := "" }
  return { body with root := partitionPlanRoot digest body }

end

/-! ## partial results -/

structure PartialResult where
  schema : String
  requestRoot : String
  workUnitRoot : String
  index : ℕ
  sourceRoots : List String
  values : Totals
  runAssuranceRoot : String
  implementationRoot : String
  runnerReference : String
  dependencySetRoot : String
  executionEnvironmentRoot : String
  root : String

/-- what an execution attempt adds to the values of its unit -/
structure Execution where
  runAssuranceRoot : String
  implementationRoot : String
  runnerReference : String
  dependencySetRoot : String
  executionEnvironmentRoot : String

def partialSchema : String := "accounting-partial-result.v1"

/-- the serial fold over the sources of one unit -/
def partialValues (r : Request) (u : WorkUnit) : Except Failure Totals :=
  let sourceMap := Table.into [] (r.sources.map fun s => (s.sourceRoot, s))
  u.sourceRoots.foldlM (fun m root => do
    let s ← orThrow (Table.find sourceMap root) .nullPointer
    m.update s.entry) .empty

section
variable (digest : String → Value → String) (isRef : String → Bool)

def partialRoot (p : PartialResult) : String :=
  digest "ACCOUNTING_PARTIAL_RESULT_V1" (.map
    [(schemaKey, .str p.schema), (requestRootKey, .str p.requestRoot),
      (workUnitRootKey, .str p.workUnitRoot), (nsKey "partition" "index", .int p.index),
      (sourceRootsKey, strings p.sourceRoots), (valuesKey, p.values.value),
      (nsKey "research-run-assurance-evidence" "root", .str p.runAssuranceRoot),
      (nsKey "research-implementation-identity" "root", .str p.implementationRoot),
      (nsKey "runner" "reference", .str p.runnerReference),
      (nsKey "resolved-research-dependency-set" "root", .str p.dependencySetRoot),
      (nsKey "research-execution-environment" "root", .str p.executionEnvironmentRoot)])

def validPartialResult (r : Request) (u : WorkUnit) (p : PartialResult) : Except Failure Bool :=
  if p.schema = partialSchema ∧ r.root = u.requestRoot ∧ u.requestRoot = p.requestRoot
      ∧ u.root = p.workUnitRoot ∧ u.index = p.index ∧ u.sourceRoots = p.sourceRoots
      ∧ p.implementationRoot ∈ u.allowedImplementationRoots
      ∧ u.dependencySetRoot = p.dependencySetRoot
      ∧ u.executionEnvironmentRoot = p.executionEnvironmentRoot then do
    let values ← partialValues r u
    return values.same p.values && p.values.integerMap
      && [p.runAssuranceRoot, p.implementationRoot, p.runnerReference, p.dependencySetRoot,
        p.executionEnvironmentRoot].all isRef
      && p.root = partialRoot digest p
  else return false

def buildPartialResult (r : Request) (u : WorkUnit) (values : Totals) (x : Execution) :
    Except Failure PartialResult := do
  let expected ← partialValues r u
  whenNot (decide (r.root = u.requestRoot) && values.same expected && values.integerMap
      && [x.runAssuranceRoot, x.implementationRoot, x.runnerReference, x.dependencySetRoot,
        x.executionEnvironmentRoot].all isRef)
    (.invalidPartial expected.listing values.listing)
  let body : PartialResult := {
    schema := partialSchema
    requestRoot := r.root
    workUnitRoot := u.root
    index := u.index
    sourceRoots := u.sourceRoots
    values := values
    runAssuranceRoot := x.runAssuranceRoot
    implementationRoot := x.implementationRoot
    runnerReference := x.runnerReference
    dependencySetRoot := x.dependencySetRoot
    executionEnvironmentRoot := x.executionEnvironmentRoot
    root := "" }
  return { body with root := partialRoot digest body }

end

/-! ## ingestion -/

structure Ingestion where
  entries : List (String × PartialResult)
  nodup : (entries.map Prod.fst).Nodup

namespace Ingestion

def empty : Ingestion := ⟨[], List.nodup_nil⟩

def find (i : Ingestion) (unitRoot : String) : Option PartialResult :=
  Table.find i.entries unitRoot

def keys (i : Ingestion) : List String := i.entries.map Prod.fst

def assoc (i : Ingestion) (unitRoot : String) (p : PartialResult) : Ingestion :=
  ⟨Table.put i.entries unitRoot p, Table.nodup_put i.nodup unitRoot p⟩

end Ingestion

def ingestPartial (i : Ingestion) (p : PartialResult) : Except Failure Ingestion :=
  match i.find p.workUnitRoot with
  | none => .ok (i.assoc p.workUnitRoot p)
  | some existing =>
    if existing.root = p.root then .ok i
    else .error (.conflict p.workUnitRoot existing.root p.root)

/-- partials ingested one after the other -/
def ingest (ps : List PartialResult) : Except Failure Ingestion := ps.foldlM ingestPartial .empty

/-! ## reconciliation -/

structure Reconciliation where
  requestRoot : String
  planRoot : String
  contractRoot : String
  partialResultRoots : List String
  sourceRoots : List String
  values : Totals
  canonicalResultRoot : String
  root : String

section
variable (digest : String → Value → String) (isRef : String → Bool)

def canonicalResultRoot (requestRoot : String) (values : Totals) : String :=
  digest "CANONICAL_ACCOUNTING_RESULT_V1" (.map
    [(schemaKey, .str "canonical-accounting-result.v1"), (requestRootKey, .str requestRoot),
      (valuesKey, values.value)])

def reconciliationRoot (a : Reconciliation) : String :=
  digest "ACCOUNTING_RECONCILIATION_V1" (.map
    [(schemaKey, .str "accounting-reconciliation.v1"), (requestRootKey, .str a.requestRoot),
      (nsKey "accounting-partition-plan" "root", .str a.planRoot),
      (contractRootKey, .str a.contractRoot),
      (nsKey "accounting-partial-result" "roots", strings a.partialResultRoots),
      (nsKey "accounting" "source-roots", strings a.sourceRoots), (valuesKey, a.values.value),
      (nsKey "canonical-accounting-result" "root", .str a.canonicalResultRoot),
      (nsKey "reconciliation" "invariants", .map
        [(key "serial-equivalent", .bool true), (key "conserved", .bool true),
          (key "partition-complete", .bool true), (key "no-duplicate-contribution", .bool true),
          (key "no-omitted-contribution", .bool true), (key "deterministic", .bool true),
          (key "forensic-provenance-complete", .bool true)]),
      (nsKey "result" "meaning",
        .kw (plain "accounting-basis-not-allocation-or-fund-movement"))])

/-- the root of a partial that is not valid for its unit -/
def invalidPartial (r : Request) (unitByRoot : List (String × WorkUnit)) (p : PartialResult) :
    Except Failure (Option String) := do
  match Table.find unitByRoot p.workUnitRoot with
  | none => return some p.root
  | some u =>
    let valid ← validPartialResult digest isRef r u p
    return if valid then none else some p.root

/-- the artifact of merged values -/
def reconciliation (r : Request) (contract : ReductionContract) (plan : Plan)
    (partials : List PartialResult) (values : Totals) : Reconciliation :=
  let body : Reconciliation := {
    requestRoot := r.root
    planRoot := plan.root
    contractRoot := contract.root
    partialResultRoots := (partials.map PartialResult.root).insertionSort notAfter
    sourceRoots := (partials.flatMap PartialResult.sourceRoots).insertionSort notAfter
    values := values
    canonicalResultRoot := canonicalResultRoot digest r.root values
    root := "" }
  { body with root := reconciliationRoot digest body }

def reconcile (r : Request) (contract : ReductionContract) (plan : Plan) (ingestion : Ingestion) :
    Except Failure Reconciliation := do
  whenNot (validReductionContract digest contract) .unsupportedContract
  whenNot (r.root = plan.requestRoot && contract.root = r.contractRoot
      && r.contractRoot = plan.contractRoot && plan.root = partitionPlanRoot digest plan) .mismatch
  let required := plan.workUnits.map WorkUnit.root
  let missing := difference required ingestion.keys
  let extra := difference ingestion.keys required
  whenNot (missing.isEmpty && extra.isEmpty) (.incomplete (sortedSet missing) (sortedSet extra))
  let unitByRoot := Table.into [] (plan.workUnits.map fun u => (u.root, u))
  -- no required unit is missing here
  let partials := (sortedSet required).filterMap ingestion.find
  let sourceRoots := partials.flatMap PartialResult.sourceRoots
  let invalid := (← partials.mapM (invalidPartial digest isRef r unitByRoot)).reduceOption
  whenNot invalid.isEmpty (.invalidPartials invalid)
  let duplicates := repeated sourceRoots
  let omitted := difference r.sourceRoots sourceRoots
  let unexpected := difference sourceRoots r.sourceRoots
  whenNot (duplicates.isEmpty && omitted.isEmpty && unexpected.isEmpty)
    (.coverage (sortedSet duplicates) (sortedSet omitted) (sortedSet unexpected))
  let values ← partials.foldlM (fun result p => result.mergeWith p.values) .empty
  let serial ← serialValues r
  whenNot (serial.same values) (.differs serial.listing values.listing)
  return reconciliation digest r contract plan partials values

end

end PRF.Accounting
