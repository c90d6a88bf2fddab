import ProtocolRobustness.Canonical.Compare
import ProtocolRobustness.Economics.Proportional
import ProtocolRobustness.Economics.ShortfallDivision
import ProtocolRobustness.Economics.SlashPolicy
import ProtocolRobustness.Library.Datum

/-!
# Bounty shortfalls

`economics/bounty_shortfall.clj`: allocating the backing that is available over approved obligations,
recoveries that continue an earlier allocation, the replay of an allocation, and the settlements of
what it funded.  Hashes and the checks of signed evidence are parameters; equal maps are equal
values, so two artifacts are equal as their fields are.

* `Payable`, `Obligation`, `Policy`, `FundingSource`   what a call reads;
* `Allocation`                 the artifact, in the words of its keys;
* `allocateWith`               `allocate`, given what the nested replays return;
* `Inputs`, `allocate`         a call with its predecessor and its prior reservations, of any depth;
* `verifyProRataMath`, `verify`, `verifyFundedSettlements`   the checks.
-/

set_option linter.unusedSectionVars false

namespace PRF.Economics.Shortfall
open Bytes Table

/-! ## what a call reads -/

inductive PayableLifecycle
  | pendingBacking
  | backed
  | settled
  | cancelled
deriving DecidableEq

/-- the committed fields of `bounty-payable.v1` -/
structure PayableBody where
  id : String
  distributionRoot : Option String
  awardId : Option String
  beneficiary : Option String
  amount : ℤ
  kind : Option String
  lifecycle : PayableLifecycle
  evidenceReferences : Datum
  context : Datum
deriving DecidableEq

structure Payable extends PayableBody where
  hash : String
deriving DecidableEq

structure Obligation where
  id : String
  payable : Payable
deriving DecidableEq

structure PolicyBody where
  schema : String
  id : String
  version : ℤ
  authorityRoot : String
  token : String
  snapshotRoot : String
  parentRoot : Option String
  terms : Datum

structure Policy extends PolicyBody where
  hash : String

structure FundingSource where
  token : String
  sourceRoot : String
  operationRoot : String
  available : ℤ
  evidence : Datum

/-- the input of `settlement/verify-settlement` -/
structure SettlementInput where
  payableBefore : Payable
  backingHash : String
  paid : ℤ
  asset : String
  fundingSourceRoot : String
  evidence : Datum

structure Call where
  policy : Policy
  authorities : List String
  obligations : List Obligation
  fundingSource : FundingSource
  fundingTrustPolicy : Datum
  available : ℤ
  previousSettlements : Option (List (String × SettlementInput))
  eventId : String

/-! ## the artifact -/

structure ObligationRow where
  id : String
  root : String
  approved : ℤ
  paid : ℤ
  previouslyAllocated : ℤ
  liability : ℤ
  outstandingLiability : ℤ
  fundedUnpaid : ℤ
  unfundedLiability : ℤ
deriving DecidableEq

structure Claim where
  payable : Payable
  backingHash : String
  fundedAmount : ℤ
  obligationRoot : String
deriving DecidableEq

structure AllocationBody where
  policyRoot : String
  policyVersion : ℤ
  snapshotRoot : String
  fundingSourceRoot : String
  priorReservationRoots : List String
  token : String
  available : ℤ
  eventId : String
  eventHistory : List String
  fundingSourceHistory : List String
  recoveryOf : Option String
  obligations : List ObligationRow
  allocations : Amounts String
  cumulativeAllocations : Amounts String
  paid : Amounts String
  paymentBatchRoot : Option String
  fundedClaims : List (String × Claim)
  fundedClaimsHistory : List (String × List (String × Claim))
  liabilities : Amounts String
  fundedUnpaid : Amounts String
  unfundedLiabilities : Amounts String
  totalAllocated : ℤ
  totalApproved : ℤ
  totalPaid : ℤ
  totalFundedUnpaid : ℤ
  totalUnfundedLiability : ℤ
  totalOutstandingLiability : ℤ
  algorithmRoot : String
deriving DecidableEq

structure Allocation extends AllocationBody where
  hash : String
deriving DecidableEq

structure SettlementBatch where
  paid : Amounts String
  settlements : List (String × String)
  root : String

/-- what `build-bounty-payable-backing` is given -/
structure BackingTerms where
  payableRoot : String
  payableId : String
  distributionRoot : Option String
  amount : ℤ
  sourceRoot : String
  context : Datum

inductive Failure
  | unauthorizedPolicy
  | invalidObligations
  | staleRecovery
  | invalidReservationHistory
  | fundingSource (reason : String)
  | duplicateReservation
  | invalidAllocationInput
  | obligationOvercommitment
  | liabilityConservationFailed
  | division (thrown : Thrown)
deriving DecidableEq

/-- what the code takes from outside: hashes, and the checks of signed evidence -/
structure ShortfallEnv where
  sha256 : ByteString → String
  policyHash : PolicyBody → String
  payableHash : PayableBody → String
  backingHash : BackingTerms → String
  allocationHash : AllocationBody → String
  batchHash : String → Amounts String → List (String × String) → String
  /-- the reason of a source that is refused -/
  verifySource : FundingSource → Datum → String → String → Option String
  /-- the root of a settlement that is valid -/
  verifySettlement : SettlementInput → Option String

def requireThat (c : Prop) [Decidable c] (e : Failure) : Except Failure Unit :=
  if c then .ok () else .error e

namespace ShortfallEnv
variable (env : ShortfallEnv)

/-! ## guards -/

/-- `payable/verify-bounty-payable` -/
def verifyBountyPayable (p : Payable) : Prop :=
  0 ≤ p.amount ∧ p.beneficiary.isSome ∧ env.payableHash p.toPayableBody = p.hash

instance (p : Payable) : Decidable (env.verifyBountyPayable p) :=
  inferInstanceAs (Decidable (_ ∧ _))

def authorizedPolicy (policy : Policy) (authorities : List String) : Prop :=
  policy.schema = "bounty-shortfall-policy.v1"
    ∧ policy.hash = env.policyHash policy.toPolicyBody
    ∧ 0 < policy.version
    ∧ (if policy.version = 1 then policy.parentRoot = none
      else ∃ root ∈ policy.parentRoot, root ≠ "")
    ∧ policy.authorityRoot ∈ authorities

instance (policy : Policy) (authorities : List String) :
    Decidable (env.authorizedPolicy policy authorities) := by
  unfold authorizedPolicy
  infer_instance

def validObligations (obligations : List Obligation) : Prop :=
  obligations ≠ []
    ∧ (obligations.map Obligation.id).Nodup
    ∧ (obligations.map fun o => o.payable.hash).Nodup
    ∧ ∀ o ∈ obligations, o.id ≠ "" ∧ 0 < o.payable.amount
      ∧ o.payable.lifecycle = .pendingBacking ∧ env.verifyBountyPayable o.payable

instance (obligations : List Obligation) : Decidable (env.validObligations obligations) :=
  inferInstanceAs (Decidable (_ ∧ _))

/-! ## the replay of an allocation -/

end ShortfallEnv

/-- what plain comparison of strings says -/
def nameLe (a b : String) : Prop := notAfter a b

instance : DecidableRel nameLe := fun a b => inferInstanceAs (Decidable (notAfter a b))

/-- the request of `verify-pro-rata-math` -/
def mathRequest (a : Allocation) : PolicyRequest String where
  amount := a.available
  items := a.obligations.map fun o => ⟨o.id, o.liability, some o.liability⟩
  rounding := .floorWithLargestRemainder
  ordering := .canonicalId
  capTreatment := .unallocated

def mathClaim (a : Allocation) : ClaimedDivision String where
  allocations := a.obligations.map fun o => (o.id, a.allocations.get o.id)
  totalAllocated := a.totalAllocated
  totalUnmet := a.available - a.totalAllocated
  remainder := 0

def verifyProRataMath (a : Allocation) : Bool :=
  verifyWeightedProportionality nameLe (mathRequest a) (mathClaim a)

/-- `verify`, given what `allocate` returns on the inputs -/
def replayed (claimed : Option Allocation) (replay : Except Failure Allocation) : Bool :=
  match claimed, replay with
  | some a, .ok b => a = b ∧ verifyProRataMath a
  | _, _ => false

namespace ShortfallEnv
variable (env : ShortfallEnv)

/-! ## settlements -/

/-- `matches?` -/
def settlementMatches (a : Allocation) (e : String × ℤ) (input : SettlementInput) : Bool :=
  let before := input.payableBefore
  let root := (a.obligations.find? fun o => o.id = e.1).map ObligationRow.root
  match find a.fundedClaims e.1 with
  | none => false
  | some claim =>
    e.2 = before.amount ∧ claim.payable.id = before.id ∧ claim.payable.hash = before.hash
      ∧ claim.backingHash = input.backingHash
      ∧ root.elim Datum.null Datum.str = before.context.get "shortfall/obligation-root"
      ∧ Datum.str a.policyRoot = before.context.get "shortfall/policy-root"
      ∧ Datum.str a.eventId = before.context.get "shortfall/event-id"
      ∧ e.2 = input.paid ∧ a.token = input.asset ∧ a.fundingSourceRoot = input.fundingSourceRoot

/-- the root of the settlement of a funded obligation, when it is valid and bound to it -/
def checkSettlement (a : Allocation) (settlements : List (String × SettlementInput))
    (e : String × ℤ) : Option String := do
  let input ← find settlements e.1
  let root ← env.verifySettlement input
  if settlementMatches a e input then some root else none

def funded (a : Allocation) : List (String × ℤ) := a.allocations.entries.filter fun e => 0 < e.2

/-- `(select-keys funded supplied)` -/
def suppliedFunded (a : Allocation) (settlements : List (String × SettlementInput)) :
    List (String × ℤ) :=
  (funded a).filter fun e => e.1 ∈ settlements.map Prod.fst

theorem suppliedFunded_nodup (a : Allocation) (settlements : List (String × SettlementInput)) :
    ((suppliedFunded a settlements).map Prod.fst).Nodup :=
  ((List.filter_sublist.trans List.filter_sublist).map Prod.fst).nodup a.allocations.nodup

/-- `verify-funded-settlements`; `none` when it is not valid -/
def verifyFundedSettlements (a : Allocation) (replay : Except Failure Allocation)
    (settlements : List (String × SettlementInput)) : Option SettlementBatch :=
  if replayed (some a) replay = true
      ∧ settlements ≠ [] ∧ ∀ s ∈ settlements, s.1 ∈ (funded a).map Prod.fst then do
    let roots ← (suppliedFunded a settlements).mapM (env.checkSettlement a settlements)
    let settled := ((suppliedFunded a settlements).map Prod.fst).zip roots
    let paid := ⟨suppliedFunded a settlements, suppliedFunded_nodup a settlements⟩
    return ⟨paid, settled, env.batchHash a.hash paid settled⟩
  else none

/-! ## recoveries -/

end ShortfallEnv

/-- a nested call: the allocation it claims, and what `allocate` returns on it -/
structure Replayed where
  claimed : Option Allocation
  replay : Except Failure Allocation

/-- a prior reservation, with its inputs -/
structure PriorReservation where
  allocation : Allocation
  inputs : Replayed

namespace ShortfallEnv
variable (env : ShortfallEnv)

/-- the settlements of the predecessor, when they are given and valid -/
def paymentBatch (call : Call) (recoveryOf : Option Allocation) (previous : Option Replayed) :
    Option SettlementBatch := do
  let r ← recoveryOf
  let p ← previous
  let settlements ← call.previousSettlements
  env.verifyFundedSettlements r p.replay settlements

/-- what is asked of a predecessor -/
def recoverable (call : Call) (previous : Option Replayed) (r : Allocation) : Prop :=
  call.policy.parentRoot = some r.policyRoot
    ∧ call.policy.version = r.policyVersion + 1
    ∧ (∃ p ∈ previous, p.claimed = some r ∧ replayed p.claimed p.replay = true)
    ∧ (call.previousSettlements = none ∨ (env.paymentBatch call (some r) previous).isSome)
    ∧ r.hash = env.allocationHash r.toAllocationBody
    ∧ call.eventId ≠ r.eventId
    ∧ call.eventId ∉ r.eventHistory
    ∧ r.fundingSourceRoot ≠ call.fundingSource.sourceRoot
    ∧ call.fundingSource.sourceRoot ∉ r.fundingSourceHistory
    ∧ (call.obligations.map fun o => (o.id, o.payable.hash)).Perm
        (r.obligations.map fun o => (o.id, o.root))

instance (call : Call) (previous : Option Replayed) (r : Allocation) :
    Decidable (env.recoverable call previous r) := by
  unfold recoverable
  infer_instance

end ShortfallEnv

/-! ## the ledgers of a call -/

namespace Call
variable (call : Call) (recoveryOf : Option Allocation)

/-- `(get-in recovery-of [:allocation/paid id] 0)` -/
def paidBefore (id : String) : ℤ := recoveryOf.elim 0 fun r => r.paid.get id

def previouslyAllocated (id : String) : ℤ :=
  recoveryOf.elim 0 fun r => (find r.cumulativeAllocations.entries id).getD (r.allocations.get id)

/-- the part of an obligation that is not funded yet -/
def allocatable (o : Obligation) : ℤ := o.payable.amount - previouslyAllocated recoveryOf o.id

/-- paid and allocated amounts exceed the approved obligation -/
def overcommitted (o : Obligation) : Prop :=
  allocatable recoveryOf o < 0 ∨ previouslyAllocated recoveryOf o.id < paidBefore recoveryOf o.id

instance (o : Obligation) : Decidable (overcommitted recoveryOf o) :=
  inferInstanceAs (Decidable (_ ∨ _))

def owed : List Liability := call.obligations.map fun o => (o.id, allocatable recoveryOf o)

/-- `merge-with +` on what the predecessor has -/
def cumulative (allocated : Amounts String) : Amounts String :=
  (recoveryOf.elim Amounts.empty fun r => r.cumulativeAllocations).merge allocated

def paidAfter (batch : Option SettlementBatch) : Amounts String :=
  (recoveryOf.elim Amounts.empty fun r => r.paid).merge (batch.elim Amounts.empty SettlementBatch.paid)

def ids : List String := call.obligations.map Obligation.id

end Call

/-- the maps and totals of a call, from what is allocated and what is paid -/
structure Ledger where
  allocated : Amounts String
  cumulative : Amounts String
  paid : Amounts String

namespace Ledger
variable (l : Ledger) (obligations : List Obligation)

def liabilities : Amounts String :=
  .tabulate (obligations.map Obligation.id) fun id =>
    (((obligations.find? fun o => o.id = id).map fun o => o.payable.amount).getD 0) - l.paid.get id

def fundedUnpaid : Amounts String :=
  .tabulate l.cumulative.ids fun id => l.cumulative.get id - l.paid.get id

def unfundedLiabilities : Amounts String :=
  .tabulate (obligations.map Obligation.id) fun id =>
    (((obligations.find? fun o => o.id = id).map fun o => o.payable.amount).getD 0)
      - l.cumulative.get id

def totalApproved : ℤ := (obligations.map fun o => o.payable.amount).sum

def Conserves : Prop :=
  totalApproved obligations
    = l.paid.total + l.fundedUnpaid.total + (l.unfundedLiabilities obligations).total

instance : Decidable (l.Conserves obligations) := inferInstanceAs (Decidable (_ = _))

/-- `accounted-obligation-rows` -/
def row (recoveryOf : Option Allocation) (o : Obligation) : ObligationRow where
  id := o.id
  root := o.payable.hash
  approved := o.payable.amount
  paid := l.paid.get o.id
  previouslyAllocated := Call.previouslyAllocated recoveryOf o.id
  liability := Call.allocatable recoveryOf o
  outstandingLiability := (l.liabilities obligations).get o.id
  fundedUnpaid := l.fundedUnpaid.get o.id
  unfundedLiability := (l.unfundedLiabilities obligations).get o.id

end Ledger

namespace ShortfallEnv
variable (env : ShortfallEnv)

/-! ## funded claims -/

def claimContext (call : Call) (o : Obligation) : Datum :=
  .map [(.kw "shortfall/event-id", .str call.eventId),
    (.kw "shortfall/obligation-root", .str o.payable.hash),
    (.kw "shortfall/policy-root", .str call.policy.hash),
    (.kw "shortfall/source-root", .str call.fundingSource.sourceRoot)]

def backingContext (call : Call) (o : Obligation) : Datum :=
  .map [(.kw "funding/operation-root", .str call.fundingSource.operationRoot),
    (.kw "funding/source-root", .str call.fundingSource.sourceRoot),
    (.kw "funding/token", .str call.fundingSource.token),
    (.kw "shortfall/event-id", .str call.eventId),
    (.kw "shortfall/obligation-root", .str o.payable.hash),
    (.kw "shortfall/policy-root", .str call.policy.hash)]

/-- the payable of a funded part, already `:backed` -/
def childPayable (call : Call) (o : Obligation) (amount : ℤ) : Payable :=
  let body : PayableBody :=
    { id := "shortfall/" ++ call.eventId ++ "/" ++ o.id
      distributionRoot := o.payable.distributionRoot
      awardId := o.payable.awardId
      beneficiary := o.payable.beneficiary
      amount := amount
      kind := some (o.payable.kind.getD "sew.obligation/challenge-bounty")
      lifecycle := .backed
      evidenceReferences := .vec []
      context := claimContext call o }
  { body with hash := env.payableHash body }

def fundedClaim (call : Call) (o : Obligation) (amount : ℤ) : Claim :=
  let child := env.childPayable call o amount
  { payable := child
    backingHash := env.backingHash ⟨child.hash, child.id, child.distributionRoot, amount,
      call.fundingSource.sourceRoot, backingContext call o⟩
    fundedAmount := amount
    obligationRoot := o.payable.hash }

def fundedClaims (call : Call) (allocated : Amounts String) : List (String × Claim) :=
  call.obligations.filterMap fun o =>
    if 0 < allocated.get o.id then some (o.id, env.fundedClaim call o (allocated.get o.id)) else none

/-! ## the allocation -/

def allocationBody (call : Call) (recoveryOf : Option Allocation) (priors : List PriorReservation)
    (batch : Option SettlementBatch) (l : Ledger) (algorithmRoot : String) : AllocationBody where
  policyRoot := call.policy.hash
  policyVersion := call.policy.version
  snapshotRoot := call.fundingSource.sourceRoot
  fundingSourceRoot := call.fundingSource.sourceRoot
  priorReservationRoots := (priors.map fun p => p.allocation.hash).mergeSort fun a b => notAfter a b
  token := call.fundingSource.token
  available := call.available
  eventId := call.eventId
  eventHistory := recoveryOf.elim [] (fun r => r.eventHistory) ++ [call.eventId]
  fundingSourceHistory :=
    recoveryOf.elim [] (fun r => r.fundingSourceHistory) ++ [call.fundingSource.sourceRoot]
  recoveryOf := recoveryOf.map Allocation.hash
  obligations := call.obligations.map (l.row call.obligations recoveryOf)
  allocations := l.allocated
  cumulativeAllocations := l.cumulative
  paid := l.paid
  paymentBatchRoot := batch.map SettlementBatch.root
  fundedClaims := env.fundedClaims call l.allocated
  fundedClaimsHistory := put (recoveryOf.elim [] fun r => r.fundedClaimsHistory) call.eventId
    (env.fundedClaims call l.allocated)
  liabilities := l.liabilities call.obligations
  fundedUnpaid := l.fundedUnpaid
  unfundedLiabilities := l.unfundedLiabilities call.obligations
  totalAllocated := l.allocated.total
  totalApproved := Ledger.totalApproved call.obligations
  totalPaid := l.paid.total
  totalFundedUnpaid := l.fundedUnpaid.total
  totalUnfundedLiability := (l.unfundedLiabilities call.obligations).total
  totalOutstandingLiability := (l.liabilities call.obligations).total
  algorithmRoot := algorithmRoot

/-- `(into {} (map (juxt :row/id :allocated) rows))` -/
def allocatedMap (rows : List (String × ℤ)) : Amounts String :=
  ⟨into Amounts.empty.entries rows, nodup_into Amounts.empty.nodup rows⟩

def sealed (body : AllocationBody) : Allocation := { body with hash := env.allocationHash body }

/-- `allocate`, given what it returns on the predecessor and on the prior reservations -/
def allocateWith (call : Call) (recoveryOf : Option Allocation) (previous : Option Replayed)
    (priors : List PriorReservation) : Except Failure Allocation := do
  requireThat (env.authorizedPolicy call.policy call.authorities) .unauthorizedPolicy
  requireThat (env.validObligations call.obligations) .invalidObligations
  requireThat (call.policy.version ≤ 1 ∨ recoveryOf ≠ none) .staleRecovery
  requireThat (∀ p ∈ priors, p.inputs.claimed = some p.allocation
    ∧ replayed p.inputs.claimed p.inputs.replay = true) .invalidReservationHistory
  match env.verifySource call.fundingSource call.fundingTrustPolicy call.policy.token
      call.policy.snapshotRoot with
  | some reason => .error (.fundingSource reason)
  | none => .ok ()
  requireThat (∀ p ∈ priors, call.fundingSource.sourceRoot ≠ p.allocation.fundingSourceRoot)
    .duplicateReservation
  requireThat (0 ≤ call.available ∧ call.available ≤ call.fundingSource.available
    ∧ call.eventId ≠ "" ∧ call.eventId = call.fundingSource.operationRoot) .invalidAllocationInput
  requireThat (∀ r ∈ recoveryOf, env.recoverable call previous r) .staleRecovery
  requireThat (∀ o ∈ call.obligations, ¬ Call.overcommitted recoveryOf o) .obligationOvercommitment
  let (rows, algorithmRoot) ←
    (divide env.sha256 call.policy.id call.available (call.owed recoveryOf)).mapError .division
  let allocated := allocatedMap rows
  let batch := env.paymentBatch call recoveryOf previous
  let l : Ledger := ⟨allocated, Call.cumulative recoveryOf allocated, Call.paidAfter recoveryOf batch⟩
  requireThat (l.Conserves call.obligations) .liabilityConservationFailed
  return env.sealed (env.allocationBody call recoveryOf priors batch l algorithmRoot)

end ShortfallEnv

/-! ## nested inputs -/

/-- a call with the artifact it claims, its predecessor and its prior reservations -/
inductive Inputs where
  | mk (call : Call) (recoveryOf : Option Allocation) (claimed : Option Allocation)
      (previousInputs : Option Inputs) (priorReservations : List (Allocation × Inputs))

namespace Inputs

def call : Inputs → Call
  | .mk call _ _ _ _ => call

def recoveryOf : Inputs → Option Allocation
  | .mk _ recoveryOf _ _ _ => recoveryOf

def claimed : Inputs → Option Allocation
  | .mk _ _ claimed _ _ => claimed

def previousInputs : Inputs → Option Inputs
  | .mk _ _ _ previousInputs _ => previousInputs

/-- `(assoc inputs :allocation a)` -/
def claiming : Inputs → Allocation → Inputs
  | .mk call recoveryOf _ previousInputs priorReservations, a =>
    .mk call recoveryOf (some a) previousInputs priorReservations

end Inputs

namespace ShortfallEnv
variable (env : ShortfallEnv)

mutual

def allocate : Inputs → Except Failure Allocation
  | .mk call recoveryOf _ previousInputs priorReservations =>
    env.allocateWith call recoveryOf (replayPrevious previousInputs)
      (replayPriors priorReservations)

def replayPrevious : Option Inputs → Option Replayed
  | none => none
  | some inputs => some ⟨inputs.claimed, allocate inputs⟩

def replayPriors : List (Allocation × Inputs) → List PriorReservation
  | [] => []
  | (a, inputs) :: rest => ⟨a, inputs.claimed, allocate inputs⟩ :: replayPriors rest

end

def verify (inputs : Inputs) : Bool := replayed inputs.claimed (env.allocate inputs)

end ShortfallEnv

/-! ## what a call that returns has passed -/

section
variable {env : ShortfallEnv} {call : Call} {recoveryOf : Option Allocation}
  {previous : Option Replayed} {priors : List PriorReservation}

theorem owed_ids (call : Call) (recoveryOf : Option Allocation) :
    (call.owed recoveryOf).map Prod.fst = call.ids := by
  rw [Call.owed, List.map_map]
  rfl

/-- the guards that come before the division -/
structure Admitted (env : ShortfallEnv) (call : Call) (recoveryOf : Option Allocation)
    (previous : Option Replayed) (priors : List PriorReservation) : Prop where
  authorized : env.authorizedPolicy call.policy call.authorities
  valid : env.validObligations call.obligations
  successor : call.policy.version ≤ 1 ∨ recoveryOf ≠ none
  reservations : ∀ p ∈ priors, p.inputs.claimed = some p.allocation
    ∧ replayed p.inputs.claimed p.inputs.replay = true
  source : env.verifySource call.fundingSource call.fundingTrustPolicy call.policy.token
    call.policy.snapshotRoot = none
  unreserved : ∀ p ∈ priors, call.fundingSource.sourceRoot ≠ p.allocation.fundingSourceRoot
  input : 0 ≤ call.available ∧ call.available ≤ call.fundingSource.available
    ∧ call.eventId ≠ "" ∧ call.eventId = call.fundingSource.operationRoot
  recoverable : ∀ r ∈ recoveryOf, env.recoverable call previous r

/-- the ledgers, when the division gives `rows` -/
def ledgerOf (env : ShortfallEnv) (call : Call) (recoveryOf : Option Allocation)
    (previous : Option Replayed) (rows : List (String × ℤ)) : Ledger :=
  ⟨ShortfallEnv.allocatedMap rows, Call.cumulative recoveryOf (ShortfallEnv.allocatedMap rows),
    Call.paidAfter recoveryOf (env.paymentBatch call recoveryOf previous)⟩

/-- past the guards, only the ledgers and the division decide -/
theorem allocateWith_admitted (h : Admitted env call recoveryOf previous priors) :
    env.allocateWith call recoveryOf previous priors = (do
      requireThat (∀ o ∈ call.obligations, ¬ Call.overcommitted recoveryOf o)
        .obligationOvercommitment
      let division ← (divide env.sha256 call.policy.id call.available
        (call.owed recoveryOf)).mapError Failure.division
      let l := ledgerOf env call recoveryOf previous division.1
      requireThat (l.Conserves call.obligations) .liabilityConservationFailed
      return env.sealed (env.allocationBody call recoveryOf priors
        (env.paymentBatch call recoveryOf previous) l division.2)) := by
  unfold ShortfallEnv.allocateWith
  simp only [requireThat, if_pos h.authorized, if_pos h.valid, if_pos h.successor,
    if_pos h.reservations, if_pos h.unreserved, if_pos h.input, if_pos h.recoverable, h.source]
  rfl

theorem passed {α : Type} {c : Prop} [Decidable c] {e : Failure} {k : Unit → Except Failure α}
    {x : Except Failure α} (h : (requireThat c e >>= k) = x) (hx : x ≠ .error e) : c ∧ k () = x := by
  by_cases hc : c
  · rw [requireThat, if_pos hc] at h
    exact ⟨hc, h⟩
  · rw [requireThat, if_neg hc] at h
    exact absurd h.symm hx

/-- raised by a guard, before anything is computed -/
def Failure.early : Failure → Prop
  | .obligationOvercommitment | .liabilityConservationFailed | .division _ => False
  | _ => True

/-- what does not end in a guard has passed them -/
theorem admitted {x : Except Failure Allocation}
    (h : env.allocateWith call recoveryOf previous priors = x) (hx : ∀ e, x = .error e → ¬ e.early) :
    Admitted env call recoveryOf previous priors := by
  unfold ShortfallEnv.allocateWith at h
  obtain ⟨h1, h⟩ := passed h fun e => hx _ e trivial
  obtain ⟨h2, h⟩ := passed h fun e => hx _ e trivial
  obtain ⟨h3, h⟩ := passed h fun e => hx _ e trivial
  obtain ⟨h4, h⟩ := passed h fun e => hx _ e trivial
  cases hs : env.verifySource call.fundingSource call.fundingTrustPolicy call.policy.token
      call.policy.snapshotRoot with
  | some reason =>
    rw [hs] at h
    exact absurd trivial (hx (.fundingSource reason) h.symm)
  | none =>
    rw [hs] at h
    obtain ⟨h5, h⟩ := passed h fun e => hx _ e trivial
    obtain ⟨h6, h⟩ := passed h fun e => hx _ e trivial
    obtain ⟨h7, h⟩ := passed h fun e => hx _ e trivial
    exact ⟨h1, h2, h3, h4, hs, h5, h6, h7⟩

/-- **What an allocation is.** -/
structure Allocates (env : ShortfallEnv) (call : Call) (recoveryOf : Option Allocation)
    (previous : Option Replayed) (priors : List PriorReservation) (rows : List (String × ℤ))
    (a : Allocation) : Prop where
  admitted : Admitted env call recoveryOf previous priors
  committed : ∀ o ∈ call.obligations, ¬ Call.overcommitted recoveryOf o
  conserves : (ledgerOf env call recoveryOf previous rows).Conserves call.obligations
  divided : ∃ root, divide env.sha256 call.policy.id call.available (call.owed recoveryOf)
      = .ok (rows, root)
    ∧ a = env.sealed (env.allocationBody call recoveryOf priors
      (env.paymentBatch call recoveryOf previous) (ledgerOf env call recoveryOf previous rows) root)

theorem allocates_of_ok {a : Allocation}
    (h : env.allocateWith call recoveryOf previous priors = .ok a) :
    ∃ rows, Allocates env call recoveryOf previous priors rows a := by
  have hadm := admitted h nofun
  rw [allocateWith_admitted hadm] at h
  obtain ⟨hcommitted, h⟩ := passed h nofun
  obtain ⟨⟨rows, root⟩, hdiv, h⟩ := Fallible.bind_eq_ok.mp h
  obtain ⟨hconserves, h⟩ := passed h nofun
  cases hd : divide env.sha256 call.policy.id call.available (call.owed recoveryOf) with
  | error e =>
    rw [hd] at hdiv
    cases hdiv
  | ok d =>
    rw [hd] at hdiv
    obtain rfl := Except.ok.inj hdiv
    exact ⟨rows, hadm, hcommitted, hconserves, root, hd, (Except.ok.inj h).symm⟩

/-! ## the division of a call -/

section
variable (hadm : Admitted env call recoveryOf previous priors)
  (hcommitted : ∀ o ∈ call.obligations, ¬ Call.overcommitted recoveryOf o)
include hadm hcommitted

theorem owed_owed : Owed (call.owed recoveryOf) where
  distinct := by
    rw [owed_ids]
    exact hadm.valid.2.1
  nonneg := by
    intro e he
    obtain ⟨o, ho, rfl⟩ := List.mem_map.mp he
    exact not_lt.mp fun h => hcommitted o ho (Or.inl h)

/-- the awards, in the order of the result -/
def awarded (call : Call) (recoveryOf : Option Allocation) : List (String × ℤ) :=
  (orderedRows (call.owed recoveryOf)).map fun e =>
    (e.1, award call.available (call.owed recoveryOf) e)

theorem divide_call : ∃ root, divide env.sha256 call.policy.id call.available
    (call.owed recoveryOf) = .ok (awarded call recoveryOf, root) :=
  divide_eq hadm.input.1 (owed_owed hadm hcommitted) env.sha256 call.policy.id

omit hadm hcommitted in
theorem awarded_ids : ((awarded call recoveryOf).map Prod.fst).Perm call.ids := by
  rw [← owed_ids call recoveryOf, awarded, List.map_map]
  exact (orderedRows_perm _).map Prod.fst

theorem entries_allocatedMap :
    (ShortfallEnv.allocatedMap (awarded call recoveryOf)).entries = awarded call recoveryOf := by
  refine into_fresh [] _ ?_
  rw [List.nil_append]
  exact awarded_ids.nodup_iff.mpr hadm.valid.2.1

theorem ids_allocatedMap :
    (ShortfallEnv.allocatedMap (awarded call recoveryOf)).ids.Perm call.ids := by
  unfold Amounts.ids
  rw [entries_allocatedMap hadm hcommitted]
  exact awarded_ids

theorem get_allocatedMap {o : Obligation} (ho : o ∈ call.obligations) :
    (ShortfallEnv.allocatedMap (awarded call recoveryOf)).get o.id
      = award call.available (call.owed recoveryOf) (o.id, Call.allocatable recoveryOf o) := by
  have hmem : (o.id, award call.available (call.owed recoveryOf)
      (o.id, Call.allocatable recoveryOf o))
      ∈ (ShortfallEnv.allocatedMap (awarded call recoveryOf)).entries := by
    rw [entries_allocatedMap hadm hcommitted]
    have he : (o.id, Call.allocatable recoveryOf o) ∈ orderedRows (call.owed recoveryOf) :=
      (orderedRows_perm _).mem_iff.mpr (List.mem_map_of_mem ho)
    exact List.mem_map_of_mem (f := fun e => (e.1, award call.available (call.owed recoveryOf) e)) he
  unfold Amounts.get
  rw [find_of_mem (ShortfallEnv.allocatedMap (awarded call recoveryOf)).nodup hmem]
  rfl

end

theorem Allocates.rows_eq {rows : List (String × ℤ)} {a : Allocation}
    (h : Allocates env call recoveryOf previous priors rows a) : rows = awarded call recoveryOf := by
  obtain ⟨root, hdiv, -⟩ := h.divided
  obtain ⟨root', hdiv'⟩ := divide_call h.admitted h.committed
  rw [hdiv] at hdiv'
  exact (Prod.mk.inj (Except.ok.inj hdiv')).1

end

end PRF.Economics.Shortfall
