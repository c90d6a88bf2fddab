import ProtocolRobustness.Library.Hamilton

/-!
# The independent reconstruction

`economics/verification.clj`: the expected allocation of a request, and the comparison of a claimed
result with it.  The order of ids under `:canonical-id` is a parameter.

* `singlePassRequested`   `single-pass-requested`: floors, and the units of the largest remainders;
* `applyCaps`             `apply-caps`;
* `redistributionChain`   `redistribution-chain`, with its three exits;
* `reconstruct`           `reconstruct`; `none` where a row is missing and a sum throws;
* `verifyWeightedProportionality`   whether a claimed result passes.
-/

set_option linter.unusedSectionVars false

namespace PRF.Economics
open Apportion

inductive Rounding
  | floor
  | floorWithLargestRemainder
deriving DecidableEq

inductive OrderingPolicy
  | inputOrder
  | canonicalId
deriving DecidableEq

inductive CapTreatment
  | unallocated
  | redistribute
deriving DecidableEq

structure Participant (ι : Type) where
  id : ι
  weight : ℤ
  cap : Option ℤ
deriving DecidableEq

/-- a participant with its place in the input -/
structure Item (ι : Type) extends Participant ι where
  idx : ℕ
deriving DecidableEq

structure PolicyRequest (ι : Type) where
  amount : ℤ
  items : List (Participant ι)
  rounding : Rounding
  ordering : OrderingPolicy
  capTreatment : CapTreatment

/-- a row of a result -/
structure Division (ι : Type) where
  id : ι
  weight : ℤ
  cap : Option ℤ
  allocated : ℤ
  unmet : ℤ
deriving DecidableEq

def normalizeItems {ι : Type} (items : List (Participant ι)) : List (Item ι) :=
  items.zipIdx.map fun e => { e.1 with idx := e.2 }

def itemTotal {ι : Type} (items : List (Item ι)) : ℤ := (items.map fun it => it.weight).sum

/-! ## the single pass -/

section
variable {ι : Type} [DecidableEq ι] (idLe : ι → ι → Prop) [DecidableRel idLe]

/-- `tie-key-for` -/
def tieLe (ordering : OrderingPolicy) (a b : Item ι) : Prop :=
  match ordering with
  | .inputOrder => a.idx ≤ b.idx
  | .canonicalId => idLe a.id b.id

instance (ordering : OrderingPolicy) : DecidableRel (tieLe idLe ordering) := fun a b =>
  match ordering with
  | .inputOrder => inferInstanceAs (Decidable (a.idx ≤ b.idx))
  | .canonicalId => inferInstanceAs (Decidable (idLe a.id b.id))

variable (amount : ℤ) (items : List (Item ι)) (rounding : Rounding) (ordering : OrderingPolicy)

def passFloor (it : Item ι) : ℤ := (amount * it.weight).tdiv (max 1 (itemTotal items))

def passRemainder (it : Item ι) : ℤ := (amount * it.weight).fmod (max 1 (itemTotal items))

def shortage : ℤ :=
  if 0 < itemTotal items ∧ rounding = .floorWithLargestRemainder then
    amount - (items.map (passFloor amount items)).sum
  else 0

/-- larger remainder first, then the tie key -/
def passLe (a b : Item ι) : Prop :=
  passRemainder amount items b < passRemainder amount items a ∨
    passRemainder amount items a = passRemainder amount items b ∧ tieLe idLe ordering a b

instance : DecidableRel (passLe idLe amount items ordering) := fun _ _ =>
  inferInstanceAs (Decidable (_ ∨ _ ∧ _))

def passAwarded : List ℕ :=
  ((items.insertionSort (passLe idLe amount items ordering)).take
    (shortage amount items rounding).toNat).map Item.idx

/-- `single-pass-requested`, as the value of an item -/
def singlePassRequested (it : Item ι) : ℤ :=
  if it.idx ∈ passAwarded idLe amount items rounding ordering then passFloor amount items it + 1
  else passFloor amount items it

/-- `apply-caps` on one item -/
def applyCap (requested : ℤ) (it : Item ι) : Division ι :=
  let allocated := match it.cap with
    | some cap => min requested cap
    | none => requested
  ⟨it.id, it.weight, it.cap, allocated, requested - allocated⟩

def applyCaps (requested : Item ι → ℤ) (items : List (Item ι)) : List (Division ι) :=
  items.map fun it => applyCap (requested it) it

/-! ## redistribution -/

/-- at least its cap by its exact quota -/
def capReached (remaining weightTotal : ℤ) (p : Participant ι) : Bool :=
  p.cap.any fun cap => cap * weightTotal ≤ remaining * p.weight

/-- a committed row, with the place of its item -/
structure Commitment (ι : Type) where
  idx : ℕ
  row : Division ι
deriving DecidableEq

def commit (it : Item ι) : Commitment ι := ⟨it.idx, ⟨it.id, it.weight, it.cap, it.cap.getD 0, 0⟩⟩

structure ChainResult (ι : Type) where
  committed : List (Commitment ι)
  final : List (Division ι)

/-- what no cap can take, split over the committed rows in the order of the input -/
def shareUnmet (remaining : ℤ) (committed : List (Commitment ι)) : List (Commitment ι) :=
  let rows := committed.insertionSort fun a b => a.idx ≤ b.idx
  let shareRows := normalizeItems (rows.map fun c => ⟨c.row.id, c.row.weight, none⟩)
  let shares := applyCaps (singlePassRequested idLe remaining shareRows .floorWithLargestRemainder
    ordering) shareRows
  committed.map fun c => { c with row := { c.row with
    unmet := ((shares.find? fun d => d.id = c.row.id).map Division.allocated).getD 0 } }

def notIn (ids : List ι) (items : List (Item ι)) : List (Item ι) := items.filter fun it => it.id ∉ ids

theorem notIn_length_lt {p : Item ι → Bool} {items : List (Item ι)} (h : items.filter p ≠ []) :
    (notIn ((items.filter p).map fun it => it.id) items).length < items.length := by
  obtain ⟨it, hit⟩ := List.exists_mem_of_ne_nil _ h
  refine List.length_filter_lt_length_iff_exists.mpr ⟨it, List.mem_of_mem_filter hit, ?_⟩
  have hmem : it.id ∈ (items.filter p).map fun it => it.id := List.mem_map_of_mem hit
  simpa [and_assoc] using hmem

def constrainedItems (remaining : ℤ) (active : List (Item ι)) : List (Item ι) :=
  active.filter fun it => capReached remaining (itemTotal active) it.toParticipant

def capsOf (items : List (Item ι)) : ℤ := (items.map fun it => it.cap.getD 0).sum

def redistributionChain (remaining : ℤ) (active : List (Item ι)) (committed : List (Commitment ι)) :
    ChainResult ι :=
  if active = [] then ⟨shareUnmet idLe ordering remaining committed, []⟩
  else if itemTotal active = 0 then
    ⟨committed, active.map fun it => ⟨it.id, 0, it.cap, 0, 0⟩⟩
  else if h : constrainedItems remaining active ≠ [] then
    redistributionChain (remaining - capsOf (constrainedItems remaining active))
      (notIn ((constrainedItems remaining active).map fun it => it.id) active)
      (committed ++ (constrainedItems remaining active).map commit)
  else
    ⟨committed, applyCaps (singlePassRequested idLe remaining active rounding ordering) active⟩
termination_by active.length
decreasing_by exact notIn_length_lt h

/-! ## the reconstruction -/

structure Reconstruction (ι : Type) where
  rows : List (Division ι)
  totalAllocated : ℤ
  totalUnmet : ℤ
  remainder : ℤ
deriving DecidableEq

def totalled (amount : ℤ) (rows : List (Division ι)) : Reconstruction ι where
  rows := rows
  totalAllocated := (rows.map Division.allocated).sum
  totalUnmet := (rows.map Division.unmet).sum
  remainder := amount - (rows.map Division.allocated).sum - (rows.map Division.unmet).sum

variable (request : PolicyRequest ι)

def reconstruct : Option (Reconstruction ι) :=
  let items := normalizeItems request.items
  match request.capTreatment with
  | .unallocated =>
    some (totalled request.amount (applyCaps (singlePassRequested idLe request.amount items
      request.rounding request.ordering) items))
  | .redistribute =>
    let result := redistributionChain idLe request.rounding request.ordering request.amount items []
    -- a final row replaces a committed row of the same id
    let all := result.final ++ result.committed.map Commitment.row
    (items.mapM fun it => all.find? fun d => d.id = it.id).map (totalled request.amount)

/-! ## the comparison -/

structure ClaimedDivision (ι : Type) where
  allocations : List (ι × ℤ)
  totalAllocated : ℤ
  totalUnmet : ℤ
  remainder : ℤ

/-- `verify-weighted-proportionality`: passed or not -/
def verifyWeightedProportionality (claimed : ClaimedDivision ι) : Bool :=
  match reconstruct idLe request with
  | none => false
  | some expected =>
    (expected.rows.all fun d => claimed.allocations.any fun e => e.1 = d.id)
      && (claimed.allocations.all fun e => expected.rows.any fun d => d.id = e.1)
      && (expected.rows.all fun d =>
        (claimed.allocations.find? fun e => e.1 = d.id).all fun e => d.allocated = e.2)
      && (expected.totalAllocated = claimed.totalAllocated
        ∧ expected.totalUnmet = claimed.totalUnmet ∧ expected.remainder = claimed.remainder)

end

/-! ## the single pass as a division -/

section
variable {ι : Type} [DecidableEq ι] {idLe : ι → ι → Prop} [DecidableRel idLe]

variable {amount : ℤ} {items : List (Item ι)} {ordering : OrderingPolicy}

theorem idx_normalizeItems (l : List (Participant ι)) :
    (normalizeItems l).map Item.idx = List.range l.length := by
  have h : (l.zipIdx.map fun e => e.2) = List.range' 0 l.length := List.zipIdx_map_snd 0 l
  simp only [normalizeItems, List.map_map]
  rw [List.range_eq_range', ← h]
  rfl

theorem participants_normalizeItems (l : List (Participant ι)) :
    (normalizeItems l).map Item.toParticipant = l := by
  have h : (l.zipIdx.map fun e => e.1) = l := List.zipIdx_map_fst 0 l
  simp only [normalizeItems, List.map_map]
  conv_rhs => rw [← h]
  rfl

theorem itemTotal_nonneg (hw : ∀ it ∈ items, 0 ≤ it.weight) : 0 ≤ itemTotal items :=
  sum_map_nonneg hw

theorem singlePassRequested_zero {rounding : Rounding} (hw : ∀ it ∈ items, 0 ≤ it.weight)
    (h0 : itemTotal items = 0) {it : Item ι} (hit : it ∈ items) :
    singlePassRequested idLe amount items rounding ordering it = 0 := by
  have hit0 : it.weight = 0 := eq_zero_of_sum_eq_zero hw h0 it hit
  have hnone : shortage amount items rounding = 0 := if_neg fun h => h.1.ne' h0
  have hfloor : passFloor amount items it = 0 := by
    unfold passFloor
    rw [hit0, mul_zero, Int.zero_tdiv]
  unfold singlePassRequested passAwarded
  rw [hnone, hfloor]
  exact if_neg List.not_mem_nil

section
variable (ha : 0 ≤ amount) (hw : ∀ it ∈ items, 0 ≤ it.weight) (ht : 0 < itemTotal items)
include ha hw ht

theorem passFloor_eq {it : Item ι} (hit : it ∈ items) :
    passFloor amount items it = floorShare amount (itemTotal items) (fun it => it.weight) it := by
  unfold passFloor
  rw [max_eq_right (by omega), Int.tdiv_eq_ediv_of_nonneg (mul_nonneg ha (hw it hit))]
  rfl

omit ha hw in
theorem passRemainder_eq (it : Item ι) :
    passRemainder amount items it = remainder amount (itemTotal items) (fun it => it.weight) it := by
  unfold passRemainder
  rw [max_eq_right (by omega), Int.fmod_eq_emod_of_nonneg _ ht.le]
  rfl

theorem singlePassRequested_floor {it : Item ι} (hit : it ∈ items) :
    singlePassRequested idLe amount items .floor ordering it
      = floorShare amount (itemTotal items) (fun it => it.weight) it := by
  have hnone : shortage amount items .floor = 0 := if_neg fun h => nomatch h.2
  unfold singlePassRequested passAwarded
  rw [hnone, passFloor_eq ha hw ht hit]
  exact if_neg List.not_mem_nil

/-- **The single pass is the division by largest remainders.** -/
theorem singlePassRequested_eq (hidx : (items.map Item.idx).Nodup) {it : Item ι}
    (hit : it ∈ items) :
    singlePassRequested idLe amount items .floorWithLargestRemainder ordering it
      = Hamilton.share (tieLe idLe ordering) amount (fun it => it.weight) items it := by
  have hdust : shortage amount items .floorWithLargestRemainder
      = dust amount (itemTotal items) (fun it => it.weight) items := by
    unfold shortage dust
    rw [if_pos ⟨ht, rfl⟩, List.map_congr_left fun it hit => passFloor_eq ha hw ht hit]
  have hle : passLe idLe amount items ordering
      = Hamilton.rankLe (tieLe idLe ordering) amount (itemTotal items) fun it => it.weight := by
    funext a b
    unfold passLe Hamilton.rankLe
    rw [passRemainder_eq ht, passRemainder_eq ht]
  have hawarded : passAwarded idLe amount items .floorWithLargestRemainder ordering
      = (Hamilton.winners (tieLe idLe ordering) amount (fun it => it.weight) items).map
        Item.idx := by
    unfold passAwarded Hamilton.winners Hamilton.ranking
    rw [hdust]
    congr 2
    congr 1
  have hmem : it.idx ∈ passAwarded idLe amount items .floorWithLargestRemainder ordering
      ↔ it ∈ Hamilton.winners (tieLe idLe ordering) amount (fun it => it.weight) items := by
    rw [hawarded]
    constructor
    · intro h
      obtain ⟨b, hb, e⟩ := List.mem_map.mp h
      exact List.inj_on_of_nodup_map hidx (Hamilton.mem_of_mem_winners hb) hit e ▸ hb
    · exact fun h => List.mem_map_of_mem h
  unfold singlePassRequested Hamilton.share
  rw [if_congr hmem rfl rfl, passFloor_eq ha hw ht hit]
  by_cases h : it ∈ Hamilton.winners (tieLe idLe ordering) amount (fun it => it.weight) items
  · rw [if_pos h, if_pos h]
    rfl
  · rw [if_neg h, if_neg h, add_zero]
    rfl

end

end

end PRF.Economics
