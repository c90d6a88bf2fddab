import ProtocolRobustness.Economics.Proportional
import ProtocolRobustness.Library.Fallible

/-!
# The generic allocator

`economics/payoffs.clj`: dividing an amount over weighted items, with or without redistribution of
what a cap cuts off.  Claimants are read in order; the order of the entries of a map is a parameter
beyond eight of them.  Items have distinct ids.

* `CanonicalRequest`          what an accepted request has passed;
* `proRataRequests`, `allocateProRata`   the single pass;
* `redistribute`              the loop of `allocate-pro-rata-with-redistribution`, with its two
                              exceptions and its three exits;
* `allocateCanonical`         the allocation of an accepted request.
-/

namespace PRF.Economics
open Fallible

/-! ## requests -/

/-- an accepted request; ties are broken by the order of the input -/
structure CanonicalRequest (ι : Type) where
  amount : ℤ
  participants : List (Participant ι)
  rounding : Rounding
  capTreatment : CapTreatment
  amount_nonneg : 0 ≤ amount
  distinct : (participants.map fun p => p.id).Nodup
  weights_nonneg : ∀ p ∈ participants, 0 ≤ p.weight
  weighted : ∃ p ∈ participants, 0 < p.weight
  caps_nonneg : ∀ p ∈ participants, ∀ c ∈ p.cap, 0 ≤ c

/-! ## the single pass -/

/-- `non-negative-integer` of an integer -/
def nonNegativeInteger (x : ℤ) : ℤ := max 0 x

def prepare {ι : Type} (p : Participant ι) : Participant ι :=
  ⟨p.id, nonNegativeInteger p.weight, p.cap.map nonNegativeInteger⟩

/-- `prepared`: the items with their place in the input -/
def prepared {ι : Type} (items : List (Participant ι)) : List (Item ι) :=
  items.zipIdx.map fun e => { prepare e.1 with idx := e.2 }

structure AllocationPolicy where
  rounding : Rounding
  ordering : OrderingPolicy
  totalWeight : ℤ
deriving DecidableEq

/-- one round of a redistribution -/
structure Pass (ι : Type) where
  pass : ℕ
  availableAtStart : ℤ
  activeIds : List ι
  activeWeightTotal : ℤ
  cappedIds : List ι
  committedByCap : ℤ
  availableAfterCaps : ℤ
deriving DecidableEq

inductive ResidualReason
  | noRemainingCapacity
  | noActiveWeight
  | floorRounding
  | unallocated
  | none
deriving DecidableEq

structure Redistribution (ι : Type) where
  passes : List (Pass ι)
  totalPasses : ℕ
  residualReason : ResidualReason
deriving DecidableEq

structure ProRataAllocation (ι : Type) where
  allocations : List (Division ι)
  totalRequested : ℤ
  totalAllocated : ℤ
  totalUnmet : ℤ
  remainder : ℤ
  policy : AllocationPolicy
  redistribution : Option (Redistribution ι)
deriving DecidableEq

section
variable {ι : Type} [DecidableEq ι] (idLe : ι → ι → Prop) [DecidableRel idLe]

/-- larger remainder first, then the tie key -/
def requestLe (amount totalWeight : ℤ) (ordering : OrderingPolicy) (a b : Item ι) : Prop :=
  (amount * b.weight).fmod totalWeight < (amount * a.weight).fmod totalWeight ∨
    (amount * a.weight).fmod totalWeight = (amount * b.weight).fmod totalWeight ∧
      match ordering with
      | .inputOrder => a.idx ≤ b.idx
      | .canonicalId => idLe a.id b.id

instance (amount totalWeight : ℤ) (ordering : OrderingPolicy) :
    DecidableRel (requestLe idLe amount totalWeight ordering) := fun a b =>
  match ordering with
  | .inputOrder => inferInstanceAs (Decidable (_ ∨ _ ∧ a.idx ≤ b.idx))
  | .canonicalId => inferInstanceAs (Decidable (_ ∨ _ ∧ idLe a.id b.id))

def proRataRequests (amount : ℤ) (prepared : List (Item ι)) (totalWeight : ℤ) (rounding : Rounding)
    (ordering : OrderingPolicy) : List ℤ :=
  let floors := prepared.map fun it => (amount * it.weight).tdiv totalWeight
  match rounding with
  | .floor => floors
  | .floorWithLargestRemainder =>
    let shortage := amount - floors.sum
    let remainderOrder := ((prepared.insertionSort (requestLe idLe amount totalWeight ordering)).map
      Item.idx).take shortage.toNat
    floors.zipIdx.map fun e => if e.2 ∈ remainderOrder then e.1 + 1 else e.1

def allocateItem (it : Item ι) (requested : ℤ) : Division ι :=
  let allocated := min requested (it.cap.getD requested)
  ⟨it.id, it.weight, it.cap, allocated, requested - allocated⟩

def allocateProRata (amount : ℤ) (items : List (Participant ι)) (rounding : Rounding)
    (ordering : OrderingPolicy) : ProRataAllocation ι :=
  let amount := nonNegativeInteger amount
  let prepared := prepared items
  let totalWeight := (prepared.map fun it => it.weight).sum
  let requests :=
    if totalWeight = 0 then List.replicate prepared.length 0
    else proRataRequests idLe amount prepared totalWeight rounding ordering
  let allocations := (prepared.zip requests).map fun e => allocateItem e.1 e.2
  let totalAllocated := (allocations.map Division.allocated).sum
  let totalUnmet := (allocations.map Division.unmet).sum
  { allocations := allocations
    totalRequested := amount
    totalAllocated := totalAllocated
    totalUnmet := totalUnmet
    remainder := amount - totalAllocated - totalUnmet
    policy := ⟨rounding, ordering, totalWeight⟩
    redistribution := none }

/-! ## redistribution -/

/-- the order of the entries of a map: that of their insertion up to eight of them -/
structure EntryOrder (ι : Type) where
  vals : List (Division ι) → List (Division ι)
  perm : ∀ rows, (vals rows).Perm rows
  small : ∀ rows, rows.length ≤ 8 → vals rows = rows

inductive RedistributionFailure
  | roundBoundExceeded (round initialActive : ℕ)
  | nonProgress (round : ℕ)
  /-- a sum over a row that is missing -/
  | missingRow
deriving DecidableEq

def allocationsInInputOrder (items : List (Participant ι)) (rows : List (Division ι)) :
    Except RedistributionFailure (List (Division ι)) :=
  match items.mapM fun p => rows.find? fun d => d.id = p.id with
  | some allocations => .ok allocations
  | none => .error .missingRow

/-- the exact quota reaches the cap -/
def capConstrained (remaining weightTotal : ℤ) (p : Participant ι) : Bool :=
  match p.cap with
  | some cap => nonNegativeInteger cap * weightTotal ≤ remaining * nonNegativeInteger p.weight
  | none => false

def capOf (p : Participant ι) : ℤ := nonNegativeInteger (p.cap.getD 0)

def commitRow (p : Participant ι) : Division ι :=
  ⟨p.id, nonNegativeInteger p.weight, p.cap.map nonNegativeInteger, capOf p, 0⟩

variable (order : EntryOrder ι) (amount : ℤ) (items : List (Participant ι)) (rounding : Rounding)
  (ordering : OrderingPolicy)

/-- every item is committed at its cap: what is left is their shortfall -/
def allCapped (round : ℕ) (remaining : ℤ) (committed : List (Division ι)) (passes : List (Pass ι)) :
    Except RedistributionFailure (ProRataAllocation ι) := do
  let shares := allocateProRata idLe remaining
    ((order.vals committed).map fun d => ⟨d.id, d.weight, none⟩) .floorWithLargestRemainder ordering
  let unmetOf := fun id => ((shares.allocations.find? fun d => d.id = id).map
    Division.allocated).getD 0
  let allocations ← allocationsInInputOrder items
    (committed.map fun d => { d with unmet := unmetOf d.id })
  return {
    allocations := allocations
    totalRequested := amount
    totalAllocated := (allocations.map Division.allocated).sum
    totalUnmet := remaining
    remainder := 0
    policy := ⟨rounding, ordering, 0⟩
    redistribution := if passes.any fun p => p.activeIds ≠ p.cappedIds then
      some ⟨passes, round, .noRemainingCapacity⟩ else none }

/-- what is left has no weight to go to -/
def noActiveWeight (round : ℕ) (remaining : ℤ) (active : List (Participant ι))
    (committed : List (Division ι)) (passes : List (Pass ι)) :
    Except RedistributionFailure (ProRataAllocation ι) := do
  let unweighted := active.map fun p => ⟨p.id, 0, p.cap.map nonNegativeInteger, 0, 0⟩
  let allocations ← allocationsInInputOrder items (unweighted ++ committed)
  return {
    allocations := allocations
    totalRequested := amount
    totalAllocated := (allocations.map Division.allocated).sum
    totalUnmet := 0
    remainder := remaining
    policy := ⟨rounding, ordering, 0⟩
    redistribution := some ⟨passes, round, .noActiveWeight⟩ }

/-- no cap is reached: the rest is divided in a single pass -/
def unconstrained (round : ℕ) (remaining : ℤ) (active : List (Participant ι))
    (committed : List (Division ι)) (passes : List (Pass ι)) :
    Except RedistributionFailure (ProRataAllocation ι) := do
  let final := allocateProRata idLe remaining active rounding ordering
  let allocations ← allocationsInInputOrder items (final.allocations ++ committed)
  return {
    allocations := allocations
    totalRequested := amount
    totalAllocated := (allocations.map Division.allocated).sum
    totalUnmet := final.totalUnmet
    remainder := final.remainder
    policy := final.policy
    redistribution := some ⟨passes, round + 1,
      if 0 < final.remainder then (if rounding = .floor then .floorRounding else .unallocated)
      else .none⟩ }

/-- the loop; `committed` in the order of insertion -/
def redistribute (round : ℕ) (remaining : ℤ) (active : List (Participant ι))
    (committed : List (Division ι)) (passes : List (Pass ι)) :
    Except RedistributionFailure (ProRataAllocation ι) :=
  if items.length < round then .error (.roundBoundExceeded round items.length)
  else
    let weightTotal := (active.map fun p => nonNegativeInteger p.weight).sum
    if active = [] then
      allCapped idLe order amount items rounding ordering round remaining committed passes
    else if weightTotal = 0 then
      noActiveWeight amount items rounding ordering round remaining active committed passes
    else
      let capped := active.filter (capConstrained remaining weightTotal)
      let committedAmount := (capped.map capOf).sum
      let pass : Pass ι := ⟨round, remaining, active.map fun p => p.id, weightTotal,
        capped.map fun p => p.id, committedAmount, remaining - committedAmount⟩
      if capped ≠ [] then
        let nextActive := active.filter fun p => p.id ∉ capped.map fun q => q.id
        if h : nextActive.length < active.length then
          redistribute (round + 1) (remaining - committedAmount) nextActive
            (committed ++ capped.map commitRow) (passes ++ [pass])
        else .error (.nonProgress round)
      else
        unconstrained idLe amount items rounding ordering round remaining active committed
          (passes ++ [pass])
termination_by active.length
decreasing_by exact h

def allocateProRataWithRedistribution : Except RedistributionFailure (ProRataAllocation ι) :=
  redistribute idLe order (nonNegativeInteger amount) items rounding ordering 0
    (nonNegativeInteger amount) items [] []

/-! ## accepted requests -/

/-- what `reconstruct` is asked for -/
def CanonicalRequest.policyRequest (request : CanonicalRequest ι) : PolicyRequest ι :=
  ⟨request.amount, request.participants, request.rounding, .inputOrder, request.capTreatment⟩

/-- `allocate-from-projection`, for what the boundary accepts -/
def allocateCanonical (request : CanonicalRequest ι) :
    Except RedistributionFailure (ProRataAllocation ι) :=
  match request.capTreatment with
  | .unallocated =>
    .ok (allocateProRata idLe request.amount request.participants request.rounding .inputOrder)
  | .redistribute => allocateProRataWithRedistribution idLe order request.amount
      request.participants request.rounding .inputOrder

end

end PRF.Economics
