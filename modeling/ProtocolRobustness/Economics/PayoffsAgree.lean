import ProtocolRobustness.Economics.Payoffs
import ProtocolRobustness.Library.ActiveSet

/-!
# The allocator and its reconstruction

The two loops commit the same claimants in the same rounds, and their single passes request the same
amounts.  What is left to differ is the shortfall of a request in which every cap is reached: the
allocator divides it in the order of its map of commitments, the reconstruction in the order of the
input.

* `passShare`        a request of the single pass, ties by the order of the list;
* `chain_eq_exit`, `loop_eq_exit`   both loops, as the rounds of an active set and one of three exits.
-/

set_option linter.unusedSectionVars false

namespace PRF.Economics
open Apportion

section
variable {ι : Type} [DecidableEq ι] {idLe : ι → ι → Prop} [DecidableRel idLe]

/-! ## claimants -/

/-- participants as the boundary accepts them -/
structure Accepted (l : List (Participant ι)) : Prop where
  distinct : (l.map fun p => p.id).Nodup
  weights_nonneg : ∀ p ∈ l, 0 ≤ p.weight
  caps_nonneg : ∀ p ∈ l, ∀ c ∈ p.cap, 0 ≤ c

theorem Accepted.sublist {l l' : List (Participant ι)} (h : Accepted l) (hs : l'.Sublist l) :
    Accepted l' :=
  ⟨(hs.map _).nodup h.distinct, fun p hp => h.weights_nonneg p (hs.subset hp),
    fun p hp => h.caps_nonneg p (hs.subset hp)⟩

theorem Accepted.nodup {l : List (Participant ι)} (h : Accepted l) : l.Nodup :=
  List.Nodup.of_map _ h.distinct

theorem nonNegativeInteger_eq {x : ℤ} (h : 0 ≤ x) : nonNegativeInteger x = x := max_eq_right h

theorem prepare_eq {p : Participant ι} (hw : 0 ≤ p.weight) (hc : ∀ c ∈ p.cap, 0 ≤ c) :
    prepare p = p := by
  obtain ⟨id, weight, cap⟩ := p
  unfold prepare
  rw [nonNegativeInteger_eq hw]
  cases cap with
  | none => rfl
  | some c =>
    rw [Option.map_some, nonNegativeInteger_eq (hc c rfl)]

theorem prepared_eq {l : List (Participant ι)} (h : Accepted l) : prepared l = normalizeItems l := by
  unfold prepared normalizeItems
  refine List.map_congr_left fun e he => ?_
  have hmem : e.1 ∈ l := List.fst_mem_of_mem_zipIdx he
  rw [prepare_eq (h.weights_nonneg _ hmem) (h.caps_nonneg _ hmem)]

theorem pairwise_idx (l : List (Participant ι)) :
    (normalizeItems l).Pairwise fun a b => a.idx < b.idx := by
  have h : ((normalizeItems l).map Item.idx).Pairwise (· < ·) := by
    rw [idx_normalizeItems]
    exact List.pairwise_lt_range
  exact List.pairwise_map.mp h

/-! ## the single pass, without places -/

/-- the share of a participant, ties by the order of the list -/
def passShare (amount : ℤ) (l : List (Participant ι)) (p : Participant ι) : ℤ :=
  Hamilton.share (fun _ _ => True) amount (fun p => p.weight) l p

def passRequest (amount : ℤ) (rounding : Rounding) (l : List (Participant ι)) (p : Participant ι) :
    ℤ :=
  if (l.map fun p => p.weight).sum = 0 then 0
  else match rounding with
    | .floor => floorShare amount (l.map fun p => p.weight).sum (fun p => p.weight) p
    | .floorWithLargestRemainder => passShare amount l p

/-- a list of items in the order of the input -/
structure InOrder (items : List (Item ι)) : Prop where
  accepted : Accepted (items.map Item.toParticipant)
  increasing : items.Pairwise fun a b => a.idx < b.idx

theorem inOrder_normalizeItems {l : List (Participant ι)} (h : Accepted l) :
    InOrder (normalizeItems l) :=
  ⟨by rw [participants_normalizeItems]; exact h, pairwise_idx l⟩

section
variable {items : List (Item ι)} (h : InOrder items)
include h

theorem InOrder.sublist {items' : List (Item ι)} (hs : items'.Sublist items) : InOrder items' :=
  ⟨h.accepted.sublist (hs.map _), h.increasing.sublist hs⟩

theorem InOrder.ids_nodup : (items.map fun it => it.id).Nodup := by
  have hd := h.accepted.distinct
  rw [List.map_map] at hd
  exact hd

theorem InOrder.eq_of_id {it it' : Item ι} (hit : it ∈ items) (hit' : it' ∈ items)
    (hid : it.id = it'.id) : it = it' :=
  List.inj_on_of_nodup_map h.ids_nodup hit hit' hid

theorem InOrder.idx_nodup : (items.map Item.idx).Nodup :=
  List.pairwise_map.mpr (h.increasing.imp fun hlt => hlt.ne)

theorem InOrder.weight_nonneg : ∀ it ∈ items, 0 ≤ it.weight := fun it hit =>
  h.accepted.weights_nonneg it.toParticipant (List.mem_map_of_mem hit)

theorem InOrder.cap_nonneg : ∀ it ∈ items, ∀ c ∈ it.cap, 0 ≤ c := fun it hit =>
  h.accepted.caps_nonneg it.toParticipant (List.mem_map_of_mem hit)

omit h in
theorem sum_weights (items : List (Item ι)) :
    ((items.map Item.toParticipant).map fun p => p.weight).sum = itemTotal items := by
  rw [List.map_map]
  rfl

/-- **What is requested in a single pass depends on the order of the items only.** -/
theorem singlePassRequested_eq_passRequest {amount : ℤ} (ha : 0 ≤ amount) (rounding : Rounding)
    {it : Item ι} (hit : it ∈ items) :
    singlePassRequested idLe amount items rounding .inputOrder it
      = passRequest amount rounding (items.map Item.toParticipant) it.toParticipant := by
  unfold passRequest
  rw [sum_weights]
  by_cases h0 : itemTotal items = 0
  · rw [if_pos h0]
    exact singlePassRequested_zero h.weight_nonneg h0 hit
  · have ht : 0 < itemTotal items := lt_of_le_of_ne (itemTotal_nonneg h.weight_nonneg) (Ne.symm h0)
    rw [if_neg h0]
    cases rounding with
    | floor => exact singlePassRequested_floor ha h.weight_nonneg ht hit
    | floorWithLargestRemainder =>
      have hties : items.Pairwise fun a b => tieLe idLe .inputOrder a b ↔ True :=
        h.increasing.imp fun hlt => iff_true_intro hlt.le
      have hinj : ∀ b ∈ items, ∀ c ∈ items, b.toParticipant = c.toParticipant → b = c :=
        fun b hb c hc e => h.eq_of_id hb hc (congrArg Participant.id e)
      rw [singlePassRequested_eq ha h.weight_nonneg ht h.idx_nodup hit, Hamilton.share_congr hties]
      exact Hamilton.share_map (fun _ _ => True) (fun p : Participant ι => p.weight)
        Item.toParticipant hinj hit

end

theorem zipIdx_normalizeItems (l : List (Participant ι)) (f : Item ι → ℤ) :
    ((normalizeItems l).map f).zipIdx = (normalizeItems l).map fun it => (f it, it.idx) := by
  refine List.ext_getElem (by simp) fun i h1 h2 => ?_
  simp [normalizeItems]

theorem proRataRequests_eq {amount : ℤ} (rounding : Rounding) {l : List (Participant ι)}
    (ht : 0 < itemTotal (normalizeItems l)) :
    proRataRequests idLe amount (normalizeItems l) (itemTotal (normalizeItems l)) rounding .inputOrder
      = (normalizeItems l).map
        (singlePassRequested idLe amount (normalizeItems l) rounding .inputOrder) := by
  have hmax : max 1 (itemTotal (normalizeItems l)) = itemTotal (normalizeItems l) :=
    max_eq_right (by omega)
  have hfloor : (fun it : Item ι => (amount * it.weight).tdiv (itemTotal (normalizeItems l)))
      = passFloor amount (normalizeItems l) := by
    funext it
    unfold passFloor
    rw [hmax]
  cases rounding with
  | floor =>
    have hnone : shortage amount (normalizeItems l) .floor = 0 := if_neg fun h => nomatch h.2
    show (normalizeItems l).map _ = _
    rw [hfloor]
    refine List.map_congr_left fun it _ => ?_
    unfold singlePassRequested passAwarded
    rw [hnone]
    exact (if_neg List.not_mem_nil).symm
  | floorWithLargestRemainder =>
    have hle : requestLe idLe amount (itemTotal (normalizeItems l)) .inputOrder
        = passLe idLe amount (normalizeItems l) .inputOrder := by
      funext a b
      unfold requestLe passLe passRemainder tieLe
      rw [hmax]
    have hshortage : amount - ((normalizeItems l).map (passFloor amount (normalizeItems l))).sum
        = shortage amount (normalizeItems l) .floorWithLargestRemainder := (if_pos ⟨ht, rfl⟩).symm
    have hawarded : (((normalizeItems l).insertionSort (requestLe idLe amount
          (itemTotal (normalizeItems l)) .inputOrder)).map Item.idx).take
            (shortage amount (normalizeItems l) .floorWithLargestRemainder).toNat
        = passAwarded idLe amount (normalizeItems l) .floorWithLargestRemainder .inputOrder := by
      unfold passAwarded
      rw [List.map_take]
      congr 2
      congr 1
    unfold proRataRequests
    simp only [hfloor, hshortage, hawarded]
    rw [zipIdx_normalizeItems, List.map_map]
    rfl

def passRow (amount : ℤ) (rounding : Rounding) (l : List (Participant ι)) (p : Participant ι) :
    Division ι :=
  ⟨p.id, p.weight, p.cap,
    min (passRequest amount rounding l p) (p.cap.getD (passRequest amount rounding l p)),
    passRequest amount rounding l p
      - min (passRequest amount rounding l p) (p.cap.getD (passRequest amount rounding l p))⟩

theorem applyCaps_eq {items : List (Item ι)} (h : InOrder items) {amount : ℤ} (ha : 0 ≤ amount)
    (rounding : Rounding) :
    applyCaps (singlePassRequested idLe amount items rounding .inputOrder) items
      = items.map fun it =>
        passRow amount rounding (items.map Item.toParticipant) it.toParticipant := by
  refine List.map_congr_left fun it hit => ?_
  rw [singlePassRequested_eq_passRequest h ha rounding hit]
  unfold applyCap passRow
  cases hc : it.cap with
  | none => simp
  | some c => rfl

section
variable {l : List (Participant ι)} (h : Accepted l) {amount : ℤ} (ha : 0 ≤ amount)
  (rounding : Rounding)
include h ha

theorem reconstructed_pass :
    applyCaps (singlePassRequested idLe amount (normalizeItems l) rounding .inputOrder)
      (normalizeItems l) = l.map (passRow amount rounding l) := by
  have e : ((normalizeItems l).map Item.toParticipant).map (passRow amount rounding l)
      = l.map (passRow amount rounding l) := by
    rw [participants_normalizeItems]
  rw [applyCaps_eq (inOrder_normalizeItems h) ha, ← e, List.map_map, participants_normalizeItems]
  rfl

/-- **The rows of a single pass of the allocator.** -/
theorem allocations_allocateProRata :
    (allocateProRata idLe amount l rounding .inputOrder).allocations
      = l.map (passRow amount rounding l) := by
  have hsum : ((normalizeItems l).map fun it => it.weight).sum = itemTotal (normalizeItems l) := rfl
  have hpass : applyCaps (singlePassRequested idLe _ _ _ _) _ = _ := reconstructed_pass h ha rounding
  rw [← hpass]
  unfold allocateProRata
  simp only [prepared_eq h, nonNegativeInteger_eq ha, hsum]
  have hrow : ∀ it : Item ι, ∀ r : ℤ, allocateItem it r = applyCap r it := by
    intro it r
    unfold allocateItem applyCap
    cases it.cap with
    | none => simp
    | some c => rfl
  have hrequests : (if itemTotal (normalizeItems l) = 0 then
        List.replicate (normalizeItems l).length 0
      else proRataRequests idLe amount (normalizeItems l) (itemTotal (normalizeItems l)) rounding
        .inputOrder)
      = (normalizeItems l).map
        (singlePassRequested idLe amount (normalizeItems l) rounding .inputOrder) := by
    have hw := (inOrder_normalizeItems h).weight_nonneg
    by_cases h0 : itemTotal (normalizeItems l) = 0
    · rw [if_pos h0, ← List.map_const']
      exact List.map_congr_left fun it hit => (singlePassRequested_zero hw h0 hit).symm
    · rw [if_neg h0]
      exact proRataRequests_eq rounding (lt_of_le_of_ne (itemTotal_nonneg hw) (Ne.symm h0))
  rw [hrequests, ← List.map_prod_left_eq_zip, List.map_map]
  exact List.map_congr_left fun it _ => hrow _ _

end

/-! ### the sums of a pass -/

instance : Std.Total fun _ _ : Participant ι => True := ⟨fun _ _ => Or.inl trivial⟩

instance : IsTrans (Participant ι) fun _ _ => True := ⟨fun _ _ _ _ _ => trivial⟩

section
variable {l : List (Participant ι)} (h : Accepted l) {amount : ℤ} (ha : 0 ≤ amount)
  (rounding : Rounding)
include h ha

theorem passRequest_nonneg {p : Participant ι} (hp : p ∈ l) : 0 ≤ passRequest amount rounding l p := by
  unfold passRequest
  by_cases h0 : (l.map fun p => p.weight).sum = 0
  · rw [if_pos h0]
  · rw [if_neg h0]
    have ht : 0 < (l.map fun p => p.weight).sum :=
      lt_of_le_of_ne (sum_map_nonneg h.weights_nonneg) (Ne.symm h0)
    have hfloor := floorShare_nonneg amount (fun p : Participant ι => p.weight) ha ht
      (h.weights_nonneg p hp)
    cases rounding with
    | floor => exact hfloor
    | floorWithLargestRemainder => exact hfloor.trans (Hamilton.floorShare_le_share p)

theorem sum_passShare (ht : 0 < (l.map fun p => p.weight).sum) :
    (l.map (passShare amount l)).sum = amount :=
  Hamilton.sum_share ht h.nodup

theorem sum_passRequest_le : (l.map (passRequest amount rounding l)).sum ≤ amount := by
  by_cases h0 : (l.map fun p => p.weight).sum = 0
  · have hzero : ∀ p ∈ l, passRequest amount rounding l p = 0 := fun p _ => if_pos h0
    rw [List.map_congr_left hzero, List.sum_map_zero]
    exact ha
  · have ht : 0 < (l.map fun p => p.weight).sum :=
      lt_of_le_of_ne (sum_map_nonneg h.weights_nonneg) (Ne.symm h0)
    have hrequest : ∀ p ∈ l, passRequest amount rounding l p = match rounding with
        | .floor => floorShare amount (l.map fun p => p.weight).sum (fun p => p.weight) p
        | .floorWithLargestRemainder => passShare amount l p := fun p _ => if_neg h0
    rw [List.map_congr_left hrequest]
    cases rounding with
    | floor =>
      have hdust := dust_nonneg amount (fun p : Participant ι => p.weight) ht rfl
      unfold dust at hdust
      show (l.map (floorShare amount _ _)).sum ≤ amount
      omega
    | floorWithLargestRemainder => exact (sum_passShare h ha ht).le

omit h ha in
theorem passRow_capped (p : Participant ι) {c : ℤ} (hc : c ∈ p.cap) :
    (passRow amount rounding l p).allocated ≤ c := by
  show min _ ((p.cap).getD _) ≤ c
  rw [Option.mem_def.mp hc]
  exact min_le_right _ _

theorem passRow_nonneg {p : Participant ι} (hp : p ∈ l) :
    0 ≤ (passRow amount rounding l p).allocated ∧ 0 ≤ (passRow amount rounding l p).unmet := by
  have hrequest := passRequest_nonneg h ha rounding hp
  refine ⟨le_min hrequest ?_, sub_nonneg.mpr (min_le_left _ _)⟩
  cases hc : p.cap with
  | none => exact hrequest
  | some c => exact h.caps_nonneg p hp c hc

theorem passRow_spent : (l.map fun p => (passRow amount rounding l p).allocated).sum
    + (l.map fun p => (passRow amount rounding l p).unmet).sum ≤ amount := by
  have hsum := sum_passRequest_le h ha rounding
  rw [← List.sum_map_add]
  refine (congrArg List.sum (List.map_congr_left fun p _ => ?_)).trans_le hsum
  exact add_sub_cancel _ _

end

/-! ## the reconstruction, as rounds and an exit -/

def itemWeight (it : Item ι) : ℤ := it.weight

def itemCap (it : Item ι) : Option ℤ := it.cap

theorem constrainedItems_eq (remaining : ℤ) (active : List (Item ι)) :
    constrainedItems remaining active = ActiveSet.full itemWeight itemCap remaining active := rfl

theorem filter_not_named {α : Type} {key : α → ι} {l : List α} (h : (l.map key).Nodup) (p : α → Bool) :
    (l.filter fun a => key a ∉ (l.filter p).map key) = l.filter fun a => !p a := by
  refine List.filter_congr fun a ha => ?_
  have hiff : key a ∉ (l.filter p).map key ↔ p a = false := by
    constructor
    · intro hnot
      by_contra hp
      exact hnot (List.mem_map_of_mem (List.mem_filter.mpr ⟨ha, by simpa using hp⟩))
    · intro hp hmem
      obtain ⟨b, hb, heq⟩ := List.mem_map.mp hmem
      obtain ⟨hbl, hpb⟩ := List.mem_filter.mp hb
      rw [List.inj_on_of_nodup_map h hbl ha heq, hp] at hpb
      cases hpb
  have hdec : decide (key a ∉ (l.filter p).map key) = decide (p a = false) := decide_eq_decide.mpr hiff
  rw [hdec]
  by_cases hp : p a = true
  · simp [hp]
  · simp [hp]

theorem notIn_constrained {remaining : ℤ} {active : List (Item ι)}
    (h : (active.map fun it => it.id).Nodup) :
    notIn ((constrainedItems remaining active).map fun it => it.id) active
      = ActiveSet.free itemWeight itemCap remaining active :=
  filter_not_named h _

def chainExit (idLe : ι → ι → Prop) [DecidableRel idLe] (rounding : Rounding)
    (ordering : OrderingPolicy) (s : ActiveSet.State (Item ι)) : ChainResult ι :=
  if s.active = [] then ⟨shareUnmet idLe ordering s.remaining (s.committed.map commit), []⟩
  else if itemTotal s.active = 0 then
    ⟨s.committed.map commit, s.active.map fun it => ⟨it.id, 0, it.cap, 0, 0⟩⟩
  else ⟨s.committed.map commit,
    applyCaps (singlePassRequested idLe s.remaining s.active rounding ordering) s.active⟩

/-- **The chain of the reconstruction is the rounds, and then its exit.** -/
theorem chain_eq_exit (rounding : Rounding) (ordering : OrderingPolicy) (remaining : ℤ)
    (active committed : List (Item ι)) (h : (active.map fun it => it.id).Nodup) :
    redistributionChain idLe rounding ordering remaining active (committed.map commit)
      = chainExit idLe rounding ordering
        (ActiveSet.run itemWeight itemCap remaining active committed) := by
  induction hn : active.length using Nat.strong_induction_on generalizing remaining active committed
    with
  | _ n ih =>
    subst hn
    rw [redistributionChain, notIn_constrained h, constrainedItems_eq]
    by_cases hdue : ActiveSet.Due itemWeight itemCap remaining active
    · obtain ⟨hne, h0, hfull⟩ := hdue
      have hids := ((List.filter_sublist (p := fun a => !ActiveSet.reached itemWeight itemCap remaining
        (ActiveSet.total itemWeight active) a)).map fun it : Item ι => it.id).nodup h
      have h0' : itemTotal active ≠ 0 := h0
      rw [if_neg hne, if_neg h0', dif_pos hfull, ActiveSet.run_step ⟨hne, h0, hfull⟩, ← List.map_append]
      exact ih _ (ActiveSet.free_length_lt hfull) _ _ _ hids rfl
    · rw [ActiveSet.run_stop hdue]
      unfold chainExit
      by_cases hne : active = []
      · rw [if_pos hne, if_pos hne]
      · rw [if_neg hne, if_neg hne]
        by_cases h0 : itemTotal active = 0
        · rw [if_pos h0, if_pos h0]
        · rw [if_neg h0, if_neg h0, dif_neg fun hfull => hdue ⟨hne, h0, hfull⟩]

/-! ## the allocator, as rounds and an exit -/

def weightOf (p : Participant ι) : ℤ := p.weight

def declaredCap (p : Participant ι) : Option ℤ := p.cap

section
variable {active : List (Participant ι)} (h : Accepted active) (remaining : ℤ)
include h

theorem weightTotal_eq :
    (active.map fun p => nonNegativeInteger p.weight).sum = ActiveSet.total weightOf active :=
  congrArg List.sum (List.map_congr_left fun p hp => nonNegativeInteger_eq (h.weights_nonneg p hp))

theorem capConstrained_eq {weightTotal : ℤ} {p : Participant ι} (hp : p ∈ active) :
    capConstrained remaining weightTotal p
      = ActiveSet.reached weightOf declaredCap remaining weightTotal p := by
  unfold capConstrained ActiveSet.reached declaredCap
  cases hc : p.cap with
  | none => rfl
  | some c =>
    show decide (nonNegativeInteger c * _ ≤ _ * nonNegativeInteger p.weight) = _
    rw [nonNegativeInteger_eq (h.caps_nonneg p hp c hc), nonNegativeInteger_eq (h.weights_nonneg p hp)]
    rfl

theorem capped_eq : active.filter (capConstrained remaining (ActiveSet.total weightOf active))
    = ActiveSet.full weightOf declaredCap remaining active :=
  List.filter_congr fun _ hp => capConstrained_eq h remaining hp

theorem capOf_eq {p : Participant ι} (hp : p ∈ active) : capOf p = (declaredCap p).getD 0 := by
  refine nonNegativeInteger_eq ?_
  show 0 ≤ (p.cap).getD 0
  cases hc : p.cap with
  | none => exact le_refl 0
  | some c => exact h.caps_nonneg p hp c hc

theorem committedAmount_eq :
    ((ActiveSet.full weightOf declaredCap remaining active).map capOf).sum
      = ActiveSet.capsOf declaredCap (ActiveSet.full weightOf declaredCap remaining active) :=
  congrArg List.sum (List.map_congr_left fun _ hp => capOf_eq h (List.mem_of_mem_filter hp))

theorem nextActive_eq :
    (active.filter fun p =>
      p.id ∉ (ActiveSet.full weightOf declaredCap remaining active).map fun q => q.id)
      = ActiveSet.free weightOf declaredCap remaining active :=
  filter_not_named h.distinct _

end

section
variable (idLe) (order : EntryOrder ι) (amount : ℤ) (items : List (Participant ι))
  (rounding : Rounding) (ordering : OrderingPolicy)

def loopExit (round : ℕ) (passes : List (Pass ι)) (s : ActiveSet.State (Participant ι)) :
    Except RedistributionFailure (ProRataAllocation ι) :=
  if s.active = [] then allCapped idLe order amount items rounding ordering round s.remaining
    (s.committed.map commitRow) passes
  else if ActiveSet.total weightOf s.active = 0 then
    noActiveWeight amount items rounding ordering round s.remaining s.active
      (s.committed.map commitRow) passes
  else unconstrained idLe amount items rounding ordering round s.remaining s.active
    (s.committed.map commitRow) passes

variable {idLe order amount items rounding ordering}

/-- **The loop of the allocator is the rounds, and then its exit**; neither exception is raised. -/
theorem loop_eq_exit (round : ℕ) (remaining : ℤ) (active committed : List (Participant ι))
    (passes : List (Pass ι)) (h : Accepted active) (hround : round + active.length ≤ items.length) :
    ∃ round' passes', redistribute idLe order amount items rounding ordering round remaining active
        (committed.map commitRow) passes
      = loopExit idLe order amount items rounding ordering round' passes'
        (ActiveSet.run weightOf declaredCap remaining active committed) := by
  induction hn : active.length using Nat.strong_induction_on generalizing round remaining active
    committed passes with
  | _ n ih =>
    subst hn
    rw [redistribute, if_neg (by omega)]
    simp only [weightTotal_eq h, capped_eq h, nextActive_eq h, committedAmount_eq h]
    by_cases hdue : ActiveSet.Due weightOf declaredCap remaining active
    · have hlt := ActiveSet.free_length_lt hdue.2.2
      rw [if_neg hdue.1, if_neg hdue.2.1, if_pos hdue.2.2, dif_pos hlt, ActiveSet.run_step hdue,
        ← List.map_append]
      exact ih _ hlt _ _ _ _ _ (h.sublist List.filter_sublist) (by omega) rfl
    · rw [ActiveSet.run_stop hdue]
      by_cases hne : active = []
      · exact ⟨round, passes, by rw [if_pos hne, loopExit, if_pos hne]⟩
      · by_cases h0 : ActiveSet.total weightOf active = 0
        · exact ⟨round, passes, by rw [if_neg hne, if_pos h0, loopExit, if_neg hne, if_pos h0]⟩
        · have hfull : ¬ ActiveSet.full weightOf declaredCap remaining active ≠ [] :=
            fun hfull => hdue ⟨hne, h0, hfull⟩
          rw [if_neg hne, if_neg h0, if_neg hfull]
          exact ⟨round, _, by rw [loopExit, if_neg hne, if_neg h0]⟩

end

end

end PRF.Economics
