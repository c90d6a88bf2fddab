import ProtocolRobustness.Economics.PayoffsAgree
import ProtocolRobustness.Library.Keyed

/-!
# The exits of the two loops

Row by row, what the allocator returns and what the reconstruction expects.

* `Agrees`           what is asked of a result and its reconstruction;
* `agrees_of_rows`   with equal allocated amounts and totals, the unmet amounts decide;
* `TiesByInput`      the units of the shortfall fall on the same claimants by the order of the map of
                     commitments and by the order of the input;
* `agrees_iff`       the results agree just then, for every accepted request.
-/

set_option linter.unusedSectionVars false

namespace PRF.Economics
open Apportion

section
variable {ι : Type} [DecidableEq ι] {idLe : ι → ι → Prop} [DecidableRel idLe]

/-! ## an accepted request -/

theorem CanonicalRequest.accepted (request : CanonicalRequest ι) : Accepted request.participants :=
  ⟨request.distinct, request.weights_nonneg, request.caps_nonneg⟩

def CanonicalRequest.items (request : CanonicalRequest ι) : List (Item ι) :=
  normalizeItems request.participants

theorem inOrder_items (request : CanonicalRequest ι) : InOrder request.items :=
  inOrder_normalizeItems request.accepted

theorem participants_items (request : CanonicalRequest ι) :
    request.items.map Item.toParticipant = request.participants :=
  participants_normalizeItems _

theorem map_participants {β : Type} (request : CanonicalRequest ι) (f : Participant ι → β) :
    request.participants.map f = request.items.map fun it => f it.toParticipant := by
  rw [← participants_items, List.map_map]
  rfl

theorem mem_participants {request : CanonicalRequest ι} {it : Item ι} (hit : it ∈ request.items) :
    it.toParticipant ∈ request.participants :=
  participants_items request ▸ List.mem_map_of_mem hit

/-! ## what is asked of a result -/

structure Agrees (request : CanonicalRequest ι) (r : ProRataAllocation ι)
    (expected : Reconstruction ι) : Prop where
  ids : (r.allocations.map fun d => d.id) = request.participants.map fun p => p.id
  rows : (r.allocations.map fun d => (d.id, d.allocated, d.unmet))
    = expected.rows.map fun d => (d.id, d.allocated, d.unmet)
  totals : r.totalAllocated = expected.totalAllocated ∧ r.totalUnmet = expected.totalUnmet
    ∧ r.remainder = expected.remainder
  nonneg : 0 ≤ r.totalAllocated ∧ 0 ≤ r.totalUnmet ∧ 0 ≤ r.remainder
  conserved : r.totalAllocated + r.totalUnmet + r.remainder = request.amount
  unmet : r.totalUnmet = (r.allocations.map Division.unmet).sum
  capped : ∀ p ∈ request.participants, ∀ d ∈ r.allocations, d.id = p.id → ∀ c ∈ p.cap,
    d.allocated ≤ c

/-- rows for the items of a request, with the amounts and totals that they share -/
structure Rows (amount : ℤ) (items : List (Item ι)) (g g' : Item ι → Division ι) (unmet remainder : ℤ) :
    Prop where
  id : ∀ it ∈ items, (g it).id = it.id ∧ (g' it).id = it.id
  allocated : ∀ it ∈ items, (g it).allocated = (g' it).allocated
  nonneg : ∀ it ∈ items, 0 ≤ (g it).allocated
  capped : ∀ it ∈ items, ∀ c ∈ it.cap, (g it).allocated ≤ c
  sums : (items.map fun it => (g it).unmet).sum = unmet
    ∧ (items.map fun it => (g' it).unmet).sum = unmet
  unmet_nonneg : 0 ≤ unmet
  remainder_nonneg : 0 ≤ remainder
  spent : (items.map fun it => (g it).allocated).sum + unmet + remainder = amount

theorem sum_map_map {α : Type} (items : List α) (g : α → Division ι) (f : Division ι → ℤ) :
    ((items.map g).map f).sum = (items.map fun it => f (g it)).sum := by
  rw [List.map_map]
  rfl

/-- **With equal allocated amounts and totals, the unmet amounts decide.** -/
theorem agrees_of_rows {request : CanonicalRequest ι} {r : ProRataAllocation ι}
    {g g' : Item ι → Division ι} {unmet remainder : ℤ}
    (h : Rows request.amount request.items g g' unmet remainder)
    (hrows : r.allocations = request.items.map g)
    (htotal : r.totalAllocated = (r.allocations.map Division.allocated).sum)
    (hunmet : r.totalUnmet = unmet) (hremainder : r.remainder = remainder) :
    Agrees request r (totalled request.amount (request.items.map g'))
      ↔ ∀ it ∈ request.items, (g it).unmet = (g' it).unmet := by
  have hallocated : (request.items.map fun it => (g it).allocated)
      = request.items.map fun it => (g' it).allocated :=
    List.map_congr_left h.allocated
  have hspent := h.spent
  rw [hrows, sum_map_map] at htotal
  have hsum : (totalled request.amount
      (request.items.map g')).totalAllocated = r.totalAllocated := by
    show ((request.items.map g').map Division.allocated).sum = _
    rw [htotal, hallocated, sum_map_map]
  have hsum' : (totalled request.amount
      (request.items.map g')).totalUnmet = unmet := by
    show ((request.items.map g').map Division.unmet).sum = _
    rw [sum_map_map, h.sums.2]
  have hrest : (totalled request.amount
      (request.items.map g')).remainder = remainder := by
    show request.amount - (totalled request.amount _).totalAllocated
      - (totalled request.amount _).totalUnmet = _
    rw [hsum, hsum', htotal]
    omega
  constructor
  · intro ha it hit
    have hmap := ha.rows
    rw [hrows] at hmap
    have hmap : (request.items.map g).map _
      = (request.items.map g').map _ := hmap
    rw [List.map_map, List.map_map] at hmap
    have heq := List.map_inj_left.mp hmap it hit
    exact (Prod.mk.inj (Prod.mk.inj heq).2).2
  · intro hall
    refine ⟨?_, ?_, ⟨hsum.symm, hunmet.trans hsum'.symm, hremainder.trans hrest.symm⟩, ?_, ?_, ?_, ?_⟩
    · rw [hrows, List.map_map, map_participants]
      exact List.map_congr_left fun it hit => (h.id it hit).1
    · rw [hrows]
      show _ = (request.items.map g').map _
      rw [List.map_map, List.map_map]
      refine List.map_congr_left fun it hit => ?_
      show ((g it).id, (g it).allocated, (g it).unmet) = ((g' it).id, (g' it).allocated, (g' it).unmet)
      rw [(h.id it hit).1, (h.id it hit).2, h.allocated it hit, hall it hit]
    · rw [htotal, hunmet, hremainder]
      exact ⟨sum_map_nonneg h.nonneg, h.unmet_nonneg, h.remainder_nonneg⟩
    · rw [htotal, hunmet, hremainder]
      exact hspent
    · rw [hunmet, hrows, sum_map_map, h.sums.1]
    · intro p hp d hd hid c hc
      rw [hrows] at hd
      obtain ⟨it, hit, rfl⟩ := List.mem_map.mp hd
      -- the item of the row is the participant
      have hmem : it.toParticipant ∈ request.participants :=
        participants_items request ▸ List.mem_map_of_mem hit
      rw [(h.id it hit).1] at hid
      have heq : it.toParticipant = p := List.inj_on_of_nodup_map request.distinct hmem hp hid
      refine h.capped it hit c ?_
      rw [heq]
      exact hc

/-! ## the exits -/

variable (request : CanonicalRequest ι)

/-- where the rounds of a request end -/
def CanonicalRequest.settled (request : CanonicalRequest ι) : ActiveSet.State (Item ι) :=
  ActiveSet.run itemWeight itemCap request.amount request.items []

theorem settled_spec : ActiveSet.Settled itemWeight itemCap request.amount request.items
    request.settled :=
  ActiveSet.run_spec ⟨(inOrder_items request).weight_nonneg, (inOrder_items request).cap_nonneg⟩
    request.amount_nonneg

theorem run_participants : ActiveSet.run weightOf declaredCap request.amount request.participants []
    = request.settled.map Item.toParticipant := by
  have h := ActiveSet.run_map weightOf declaredCap (Item.toParticipant (ι := ι)) request.amount
    request.items []
  rw [participants_items] at h
  exact h

/-! ### the single pass -/

theorem reconstruct_unallocated (htreatment : request.capTreatment = .unallocated) :
    reconstruct idLe request.policyRequest
      = some (totalled request.amount
        (request.participants.map (passRow request.amount request.rounding request.participants))) := by
  unfold reconstruct CanonicalRequest.policyRequest
  simp only [htreatment]
  rw [reconstructed_pass request.accepted request.amount_nonneg]

theorem unallocated_agrees (order : EntryOrder ι) (htreatment : request.capTreatment = .unallocated) :
    ∃ r expected, allocateCanonical idLe order request = .ok r
      ∧ reconstruct idLe request.policyRequest = some expected ∧ Agrees request r expected := by
  have ha := request.amount_nonneg
  have hspent := passRow_spent request.accepted ha request.rounding
  have hunmet : 0 ≤ (request.participants.map fun p =>
      (passRow request.amount request.rounding request.participants p).unmet).sum :=
    sum_map_nonneg fun p hp => (passRow_nonneg request.accepted ha request.rounding hp).2
  rw [map_participants, map_participants] at hspent
  rw [map_participants] at hunmet
  have hrows : (allocateProRata idLe request.amount request.participants request.rounding
      .inputOrder).allocations = request.items.map fun it =>
        passRow request.amount request.rounding request.participants it.toParticipant := by
    rw [allocations_allocateProRata request.accepted ha, map_participants]
  have h : Rows request.amount request.items
      (fun it => passRow request.amount request.rounding request.participants it.toParticipant)
      (fun it => passRow request.amount request.rounding request.participants it.toParticipant)
      _ (request.amount - _ - _) :=
    { id := fun it _ => ⟨rfl, rfl⟩
      allocated := fun it _ => rfl
      nonneg := fun it hit =>
        (passRow_nonneg request.accepted ha request.rounding (mem_participants hit)).1
      capped := fun it hit c hc => passRow_capped request.rounding it.toParticipant hc
      sums := ⟨rfl, rfl⟩
      unmet_nonneg := hunmet
      remainder_nonneg := sub_nonneg.mpr (le_sub_iff_add_le'.mpr hspent)
      spent := by omega }
  have hok : allocateCanonical idLe order request = .ok (allocateProRata idLe request.amount
      request.participants request.rounding .inputOrder) := by
    unfold allocateCanonical
    rw [htreatment]
  refine ⟨_, _, hok, reconstruct_unallocated request htreatment, ?_⟩
  rw [map_participants]
  refine (agrees_of_rows h hrows rfl ?_ ?_).mpr fun it _ => rfl
  · show ((allocateProRata idLe _ _ _ _).allocations.map Division.unmet).sum = _
    rw [hrows, sum_map_map]
  · show nonNegativeInteger request.amount
      - ((allocateProRata idLe _ _ _ _).allocations.map Division.allocated).sum
      - ((allocateProRata idLe _ _ _ _).allocations.map Division.unmet).sum = _
    rw [nonNegativeInteger_eq ha, hrows, sum_map_map, sum_map_map]

/-! ### rows by where the rounds left them -/

/-- one row for who is still active, another for who was committed -/
def pick (s : ActiveSet.State (Item ι)) (active committed : Item ι → Division ι) (it : Item ι) :
    Division ι :=
  if it ∈ s.active then active it else committed it

section
variable {request : CanonicalRequest ι} {g c : Item ι → Division ι}

theorem pick_active {it : Item ι} (hit : it ∈ request.settled.active) :
    pick request.settled g c it = g it := if_pos hit

theorem pick_committed {it : Item ι} (hit : it ∈ request.settled.committed) :
    pick request.settled g c it = c it := by
  have hn := (settled_spec request).split.nodup_iff.mpr (inOrder_items request).idx_nodup.of_map
  exact if_neg ((List.nodup_append'.mp hn).2.2 hit)

theorem sum_pick (f : Division ι → ℤ) :
    (request.items.map fun it => f (pick request.settled g c it)).sum
      = (request.settled.committed.map fun it => f (c it)).sum
        + (request.settled.active.map fun it => f (g it)).sum := by
  have hperm := ((settled_spec request).split.map fun it => f (pick request.settled g c it)).sum_eq
  rw [← hperm, List.map_append, List.sum_append]
  congr 1
  · exact congrArg List.sum (List.map_congr_left fun it hit => congrArg f (pick_committed hit))
  · exact congrArg List.sum (List.map_congr_left fun it hit => congrArg f (pick_active hit))

variable (hg : ∀ it, (g it).id = it.id) (hc : ∀ it, (c it).id = it.id)
include hg hc

theorem find_pick {it : Item ι} (hit : it ∈ request.items) :
    (request.settled.active.map g ++ request.settled.committed.map c).find? (fun d => d.id = it.id)
      = some (pick request.settled g c it) := by
  have hperm := (List.perm_append_comm.trans (settled_spec request).split)
  have hids : (request.settled.active.map g ++ request.settled.committed.map c).map (fun d => d.id)
      = (request.settled.active ++ request.settled.committed).map fun it => it.id := by
    rw [List.map_append, List.map_append, List.map_map, List.map_map]
    exact congrArg₂ (· ++ ·) (List.map_congr_left fun it _ => hg it)
      (List.map_congr_left fun it _ => hc it)
  refine (Keyed.search_eq_some ?_).mpr ?_
  · rw [hids]
    exact (hperm.map _).nodup_iff.mpr (inOrder_items request).ids_nodup
  · rcases List.mem_append.mp (hperm.mem_iff.mpr hit) with hin | hin
    · rw [pick_active hin]
      exact ⟨List.mem_append_left _ (List.mem_map_of_mem hin), hg it⟩
    · rw [pick_committed hin]
      exact ⟨List.mem_append_right _ (List.mem_map_of_mem hin), hc it⟩

variable (request) in
theorem mapM_pick : (request.items.mapM fun it =>
    (request.settled.active.map g ++ request.settled.committed.map c).find? fun d => d.id = it.id)
      = some (request.items.map (pick request.settled g c)) :=
  Fallible.mapM_some fun _ hit => find_pick hg hc hit

variable (request) in
theorem inInputOrder_pick : allocationsInInputOrder request.participants
    (request.settled.active.map g ++ request.settled.committed.map c)
      = .ok (request.items.map (pick request.settled g c)) := by
  have hfound : (request.participants.mapM fun p => (request.settled.active.map g
      ++ request.settled.committed.map c).find? fun d => d.id = p.id)
      = some (request.items.map (pick request.settled g c)) := by
    rw [← participants_items request, List.mapM_map]
    exact mapM_pick request hg hc
  unfold allocationsInInputOrder
  rw [hfound]

end

def capRow (unmet : Item ι → ℤ) (it : Item ι) : Division ι :=
  ⟨it.id, it.weight, it.cap, it.cap.getD 0, unmet it⟩

/-- a row without weight -/
def zeroRow (it : Item ι) : Division ι := ⟨it.id, 0, it.cap, 0, 0⟩

/-- a row of the last pass -/
def restRow (request : CanonicalRequest ι) (it : Item ι) : Division ι :=
  passRow request.settled.remaining request.rounding
    (request.settled.active.map Item.toParticipant) it.toParticipant

section
variable {request : CanonicalRequest ι}

theorem mem_items_of_committed {it : Item ι} (hit : it ∈ request.settled.committed) :
    it ∈ request.items :=
  (settled_spec request).split.mem_iff.mp (List.mem_append_left _ hit)

theorem mem_items_of_active {it : Item ι} (hit : it ∈ request.settled.active) : it ∈ request.items :=
  (settled_spec request).split.mem_iff.mp (List.mem_append_right _ hit)

theorem map_nonNegativeInteger {it : Item ι} (hit : it ∈ request.items) :
    it.cap.map nonNegativeInteger = it.cap := by
  cases hcap : it.cap with
  | none => rfl
  | some c => rw [Option.map_some, nonNegativeInteger_eq ((inOrder_items request).cap_nonneg it hit c hcap)]

theorem capD_nonneg {it : Item ι} (hit : it ∈ request.items) : 0 ≤ it.cap.getD 0 := by
  cases hcap : it.cap with
  | none => exact le_refl 0
  | some c => exact (inOrder_items request).cap_nonneg it hit c hcap

theorem commitRows_eq : (request.settled.committed.map Item.toParticipant).map commitRow
    = request.settled.committed.map (capRow fun _ => 0) := by
  rw [List.map_map]
  refine List.map_congr_left fun it hit => ?_
  have hmem := mem_items_of_committed hit
  show commitRow it.toParticipant = capRow _ it
  unfold commitRow capRow capOf
  rw [map_nonNegativeInteger hmem, nonNegativeInteger_eq ((inOrder_items request).weight_nonneg it hmem),
    nonNegativeInteger_eq (capD_nonneg hmem)]

theorem spent_committed (unmet : Item ι → ℤ) :
    (request.settled.committed.map fun it => (capRow unmet it).allocated).sum
      + request.settled.remaining = request.amount := by
  have hspent := (settled_spec request).spent
  show ActiveSet.capsOf itemCap request.settled.committed + _ = _
  omega

theorem capRow_capped (unmet : Item ι → ℤ) (it : Item ι) {c : ℤ} (hc : c ∈ it.cap) :
    (capRow unmet it).allocated ≤ c := by
  show it.cap.getD 0 ≤ c
  rw [Option.mem_def.mp hc]
  exact le_refl c

/-! ### nobody left has weight -/

theorem reconstruct_redistribute (htreatment : request.capTreatment = .redistribute) :
    reconstruct idLe request.policyRequest
      = (request.items.mapM fun it =>
        ((chainExit idLe request.rounding .inputOrder request.settled).final
          ++ (chainExit idLe request.rounding .inputOrder request.settled).committed.map
            Commitment.row).find? fun d => d.id = it.id).map (totalled request.amount) := by
  have hchain : redistributionChain idLe request.rounding .inputOrder request.amount request.items []
      = chainExit idLe request.rounding .inputOrder request.settled :=
    chain_eq_exit request.rounding .inputOrder request.amount request.items []
      (inOrder_items request).ids_nodup
  unfold reconstruct CanonicalRequest.policyRequest
  simp only [htreatment]
  rw [← hchain]
  rfl

theorem rows_active {g : Item ι → Division ι} {unmet remainder : ℤ}
    (hid : ∀ it, (g it).id = it.id)
    (hnonneg : ∀ it ∈ request.settled.active, 0 ≤ (g it).allocated)
    (hcapped : ∀ it ∈ request.settled.active, ∀ c ∈ it.cap, (g it).allocated ≤ c)
    (hunmet : (request.settled.active.map fun it => (g it).unmet).sum = unmet) (hu : 0 ≤ unmet)
    (hspent : (request.settled.active.map fun it => (g it).allocated).sum + unmet + remainder
      = request.settled.remaining) (hr : 0 ≤ remainder) :
    Rows request.amount request.items (pick request.settled g (capRow fun _ => 0))
      (pick request.settled g (capRow fun _ => 0)) unmet remainder := by
  have hrow : ∀ it ∈ request.items, (it ∈ request.settled.active
      ∧ pick request.settled g (capRow fun _ => 0) it = g it)
      ∨ pick request.settled g (capRow fun _ => 0) it = capRow (fun _ => 0) it := by
    intro it hit
    rcases List.mem_append.mp ((settled_spec request).split.mem_iff.mpr hit) with hin | hin
    · exact Or.inr (pick_committed hin)
    · exact Or.inl ⟨hin, pick_active hin⟩
  have hsum : (request.items.map fun it =>
      (pick request.settled g (capRow fun _ => 0) it).unmet).sum = unmet := by
    have hzero : (request.settled.committed.map fun it : Item ι =>
      (capRow (fun _ => 0) it).unmet).sum = 0 := List.sum_map_zero
    rw [sum_pick Division.unmet, hzero, zero_add, hunmet]
  exact
    { id := by
        intro it hit
        rcases hrow it hit with ⟨-, h⟩ | h
        · rw [h]
          exact ⟨hid it, hid it⟩
        · rw [h]
          exact ⟨rfl, rfl⟩
      allocated := fun it _ => rfl
      nonneg := by
        intro it hit
        rcases hrow it hit with ⟨hin, h⟩ | h
        · rw [h]
          exact hnonneg it hin
        · rw [h]
          exact capD_nonneg hit
      capped := by
        intro it hit c hc
        rcases hrow it hit with ⟨hin, h⟩ | h
        · rw [h]
          exact hcapped it hin c hc
        · rw [h]
          exact capRow_capped _ it hc
      sums := ⟨hsum, hsum⟩
      unmet_nonneg := hu
      remainder_nonneg := hr
      spent := by
        have h : _ + request.settled.remaining = _ := spent_committed fun _ => 0
        rw [sum_pick Division.allocated]
        omega }

variable (order : EntryOrder ι)

theorem allocateCanonical_exit (htreatment : request.capTreatment = .redistribute) :
    ∃ round passes, allocateCanonical idLe order request
      = loopExit idLe order request.amount request.participants request.rounding .inputOrder round
        passes (request.settled.map Item.toParticipant) := by
  have hloop : ∃ round passes, redistribute idLe order request.amount request.participants
      request.rounding .inputOrder 0 request.amount request.participants [] []
      = loopExit idLe order request.amount request.participants request.rounding .inputOrder round
        passes (ActiveSet.run weightOf declaredCap request.amount request.participants []) :=
    loop_eq_exit 0 request.amount request.participants [] [] request.accepted (Nat.zero_add _).le
  obtain ⟨round, passes, h⟩ := hloop
  refine ⟨round, passes, ?_⟩
  rw [run_participants] at h
  rw [← h]
  unfold allocateCanonical allocateProRataWithRedistribution
  simp only [htreatment, nonNegativeInteger_eq request.amount_nonneg]

theorem noActiveWeight_agrees (htreatment : request.capTreatment = .redistribute)
    (hne : request.settled.active ≠ []) (h0 : itemTotal request.settled.active = 0) :
    ∃ r expected, allocateCanonical idLe order request = .ok r
      ∧ reconstruct idLe request.policyRequest = some expected ∧ Agrees request r expected := by
  have hexit : ∃ round passes, allocateCanonical idLe order request = _ :=
    allocateCanonical_exit order htreatment
  obtain ⟨round, passes, hexit⟩ := hexit
  have hne' : (request.settled.map Item.toParticipant).active ≠ [] :=
    mt List.map_eq_nil_iff.mp hne
  have h0' : ActiveSet.total weightOf (request.settled.map Item.toParticipant).active = 0 := by
    show ActiveSet.total weightOf (request.settled.active.map Item.toParticipant) = 0
    rw [ActiveSet.total_map]
    exact h0
  have hrows : (request.settled.active.map Item.toParticipant).map (fun p : Participant ι =>
      (⟨p.id, 0, p.cap.map nonNegativeInteger, 0, 0⟩ : Division ι))
      = request.settled.active.map zeroRow := by
    rw [List.map_map]
    refine List.map_congr_left fun it hit => ?_
    show (⟨it.id, 0, it.cap.map nonNegativeInteger, 0, 0⟩ : Division ι) = zeroRow it
    rw [map_nonNegativeInteger (mem_items_of_active hit)]
    rfl
  have hpick := inInputOrder_pick request (g := zeroRow) (c := capRow fun _ => 0) (fun _ => rfl)
    fun _ => rfl
  rw [loopExit, if_neg hne', if_pos h0', noActiveWeight] at hexit
  simp only [ActiveSet.State.map] at hexit
  rw [hrows, commitRows_eq, hpick] at hexit
  have hexpected : reconstruct idLe request.policyRequest = _ := reconstruct_redistribute htreatment
  rw [chainExit, if_neg hne, if_pos h0, List.map_map] at hexpected
  have hfound := mapM_pick request (g := zeroRow) (c := capRow fun _ => 0) (fun _ => rfl) fun _ => rfl
  refine ⟨_, _, hexit, hexpected.trans (congrArg (Option.map (totalled request.amount)) hfound), ?_⟩
  have hsums : (request.settled.active.map fun it => (zeroRow it).unmet).sum = 0
      ∧ (request.settled.active.map fun it => (zeroRow it).allocated).sum = 0 :=
    ⟨List.sum_map_zero, List.sum_map_zero⟩
  have h := rows_active (fun _ => rfl) (fun _ _ => le_refl 0)
    (fun it hit c hc => (inOrder_items request).cap_nonneg it (mem_items_of_active hit) c hc) hsums.1
    (le_refl 0) (by rw [hsums.2, add_zero, zero_add]) (settled_spec request).nonneg
  exact (agrees_of_rows h rfl rfl rfl rfl).mpr fun it _ => rfl

/-! ### the rest is divided in a single pass -/

theorem unconstrained_agrees (htreatment : request.capTreatment = .redistribute)
    (hne : request.settled.active ≠ []) (h0 : itemTotal request.settled.active ≠ 0) :
    ∃ r expected, allocateCanonical idLe order request = .ok r
      ∧ reconstruct idLe request.policyRequest = some expected ∧ Agrees request r expected := by
  have hexit : ∃ round passes, allocateCanonical idLe order request = _ :=
    allocateCanonical_exit order htreatment
  obtain ⟨round, passes, hexit⟩ := hexit
  have hne' : (request.settled.map Item.toParticipant).active ≠ [] :=
    mt List.map_eq_nil_iff.mp hne
  have h0' : ActiveSet.total weightOf (request.settled.map Item.toParticipant).active ≠ 0 := by
    show ActiveSet.total weightOf (request.settled.active.map Item.toParticipant) ≠ 0
    rw [ActiveSet.total_map]
    exact h0
  have hactive : InOrder request.settled.active :=
    (inOrder_items request).sublist (ActiveSet.run_active_sublist _ _ _)
  have hr := (settled_spec request).nonneg
  have hrows : (request.settled.active.map Item.toParticipant).map
      (passRow request.settled.remaining request.rounding
        (request.settled.active.map Item.toParticipant))
      = request.settled.active.map (restRow request) := by
    rw [List.map_map]
    rfl
  have hfinal : (allocateProRata idLe _ _ _ _).allocations = _ :=
    allocations_allocateProRata hactive.accepted hr request.rounding
  have hpick := inInputOrder_pick request (g := restRow request) (c := capRow fun _ => 0) (fun _ => rfl)
    fun _ => rfl
  rw [loopExit, if_neg hne', if_neg h0', unconstrained] at hexit
  simp only [ActiveSet.State.map] at hexit
  rw [hfinal, hrows, commitRows_eq, hpick] at hexit
  have hexpected : reconstruct idLe request.policyRequest = _ := reconstruct_redistribute htreatment
  rw [chainExit, if_neg hne, if_neg h0, List.map_map, applyCaps_eq hactive hr] at hexpected
  have hfound := mapM_pick request (g := restRow request) (c := capRow fun _ => 0) (fun _ => rfl)
    fun _ => rfl
  refine ⟨_, _, hexit, hexpected.trans (congrArg (Option.map (totalled request.amount)) hfound), ?_⟩
  have hspent := passRow_spent hactive.accepted hr request.rounding
  have hunmet : 0 ≤ (request.settled.active.map fun it => (restRow request it).unmet).sum :=
    sum_map_nonneg fun it hit =>
      (passRow_nonneg hactive.accepted hr request.rounding (List.mem_map_of_mem hit)).2
  rw [List.map_map, List.map_map] at hspent
  have hspent : (request.settled.active.map fun it => (restRow request it).allocated).sum
      + (request.settled.active.map fun it => (restRow request it).unmet).sum
        ≤ request.settled.remaining := hspent
  have hrest : 0 ≤ request.settled.remaining
      - (request.settled.active.map fun it => (restRow request it).allocated).sum
      - (request.settled.active.map fun it => (restRow request it).unmet).sum := by omega
  have h := rows_active (g := restRow request) (fun _ => rfl)
    (fun it hit => (passRow_nonneg hactive.accepted hr request.rounding (List.mem_map_of_mem hit)).1)
    (fun it hit c hc => passRow_capped request.rounding it.toParticipant hc) rfl hunmet
    (by omega) hrest
  refine (agrees_of_rows h rfl rfl ?_ ?_).mpr fun it _ => rfl
  · show ((allocateProRata idLe _ _ _ _).allocations.map Division.unmet).sum = _
    rw [hfinal, hrows, sum_map_map]
  · show nonNegativeInteger request.settled.remaining
      - ((allocateProRata idLe _ _ _ _).allocations.map Division.allocated).sum
      - ((allocateProRata idLe _ _ _ _).allocations.map Division.unmet).sum = _
    rw [nonNegativeInteger_eq hr, hfinal, hrows, sum_map_map, sum_map_map]

end

/-! ### every cap is reached -/

/-- a claimant of the shortfall -/
def bare (p : Participant ι) : Participant ι := ⟨p.id, p.weight, none⟩

/-- the participants in the order in which their caps are reached -/
def commitOrder (request : CanonicalRequest ι) : List (Participant ι) :=
  (ActiveSet.run weightOf declaredCap request.amount request.participants []).committed

def mapOrder (order : EntryOrder ι) (request : CanonicalRequest ι) : List (Participant ι) :=
  (order.vals ((commitOrder request).map commitRow)).map fun d => ⟨d.id, d.weight, none⟩

def shortfall (request : CanonicalRequest ι) : ℤ :=
  request.amount - ActiveSet.capsOf declaredCap request.participants

/-- who gets a unit of the shortfall, ties by the order of the list -/
def unitsOf (amount : ℤ) (l : List (Participant ι)) : List (Participant ι) :=
  Hamilton.winners (fun _ _ => True) amount (fun p => p.weight) l

/-- where every cap is reached, the units of the shortfall fall on the same participants by the order
of the map of commitments and by the order of the input -/
def TiesByInput (order : EntryOrder ι) (request : CanonicalRequest ι) : Prop :=
  request.capTreatment = .redistribute →
    ActiveSet.AllCapped weightOf declaredCap request.amount request.participants →
      ∀ p ∈ request.participants, (bare p ∈ unitsOf (shortfall request) (mapOrder order request)
        ↔ bare p ∈ unitsOf (shortfall request) (request.participants.map bare))

theorem passShare_eq_iff {amount : ℤ} {l l' : List (Participant ι)} (h : l.Perm l')
    (p : Participant ι) :
    passShare amount l p = passShare amount l' p ↔ (p ∈ unitsOf amount l ↔ p ∈ unitsOf amount l') := by
  have hsum : (l.map fun p => p.weight).sum = (l'.map fun p => p.weight).sum := (h.map _).sum_eq
  unfold passShare Hamilton.share unitsOf
  rw [hsum]
  by_cases h1 : p ∈ Hamilton.winners (fun _ _ => True) amount (fun p => p.weight) l
  · by_cases h2 : p ∈ Hamilton.winners (fun _ _ => True) amount (fun p => p.weight) l'
    · simp [h1, h2]
    · simp [h1, h2]
  · by_cases h2 : p ∈ Hamilton.winners (fun _ _ => True) amount (fun p => p.weight) l'
    · simp [h1, h2]
    · simp [h1, h2]

theorem find_share {amount : ℤ} {l : List (Participant ι)} (h : Accepted l)
    (ht : (l.map fun p => p.weight).sum ≠ 0) {p : Participant ι} (hp : p ∈ l) (hcap : p.cap = none) :
    (((l.map (passRow amount .floorWithLargestRemainder l)).find? fun d => d.id = p.id).map
      Division.allocated).getD 0 = passShare amount l p := by
  have hids : (l.map (passRow amount .floorWithLargestRemainder l)).map (fun d => d.id)
      = l.map fun p => p.id := by
    rw [List.map_map]
    rfl
  have hfind : (l.map (passRow amount .floorWithLargestRemainder l)).find? (fun d => d.id = p.id)
      = some (passRow amount .floorWithLargestRemainder l p) := by
    refine (Keyed.search_eq_some ?_).mpr ⟨List.mem_map_of_mem hp, rfl⟩
    rw [hids]
    exact h.distinct
  rw [hfind]
  show min _ ((p.cap).getD _) = _
  rw [hcap, Option.getD_none, min_self, passRequest, if_neg ht]

section
variable {request : CanonicalRequest ι} (order : EntryOrder ι)

theorem accepted_bare {l : List (Participant ι)} (h : l.Perm (request.participants.map bare)) :
    Accepted l := by
  refine ⟨?_, ?_, ?_⟩
  · have hids := (h.map fun p => p.id).nodup_iff
    rw [List.map_map] at hids
    exact hids.mpr request.distinct
  · intro p hp
    obtain ⟨q, hq, rfl⟩ := List.mem_map.mp (h.mem_iff.mp hp)
    exact request.weights_nonneg q hq
  · intro p hp c hc
    obtain ⟨q, hq, rfl⟩ := List.mem_map.mp (h.mem_iff.mp hp)
    cases hc

theorem total_bare {l : List (Participant ι)} (h : l.Perm (request.participants.map bare)) :
    0 < (l.map fun p => p.weight).sum := by
  rw [(h.map fun p => p.weight).sum_eq, List.map_map]
  obtain ⟨p, hp, hpos⟩ := request.weighted
  refine lt_of_lt_of_le hpos ?_
  exact List.single_le_sum (fun x hx => by
    obtain ⟨q, hq, rfl⟩ := List.mem_map.mp hx
    exact request.weights_nonneg q hq) _ (List.mem_map_of_mem hp)

theorem commitOrder_eq : commitOrder request = request.settled.committed.map Item.toParticipant := by
  rw [commitOrder, run_participants]
  rfl

variable (hempty : request.settled.active = [])
include hempty

theorem committed_perm : request.settled.committed.Perm request.items := by
  have h := (settled_spec request).split
  rwa [hempty, List.append_nil] at h

theorem remaining_eq : request.settled.remaining = shortfall request := by
  have hcaps : ActiveSet.capsOf declaredCap request.participants
      = ActiveSet.capsOf itemCap request.settled.committed := by
    rw [← participants_items, ActiveSet.capsOf_map,
      ← ActiveSet.capsOf_perm (committed_perm hempty)]
    rfl
  rw [shortfall, hcaps]
  exact (settled_spec request).spent

theorem mapOrder_perm : (mapOrder order request).Perm (request.participants.map bare) := by
  have h1 := (order.perm ((commitOrder request).map commitRow)).map
    fun d : Division ι => (⟨d.id, d.weight, none⟩ : Participant ι)
  refine h1.trans ?_
  rw [commitOrder_eq, commitRows_eq, List.map_map, map_participants]
  exact (committed_perm hempty).map _

/-- what each side leaves unmet, item by item -/
def unmetIn (request : CanonicalRequest ι) (l : List (Participant ι)) (it : Item ι) : ℤ :=
  passShare request.settled.remaining l (bare it.toParticipant)

omit hempty in
theorem bare_mem {l : List (Participant ι)} (h : l.Perm (request.participants.map bare)) {it : Item ι}
    (hit : it ∈ request.items) : bare it.toParticipant ∈ l :=
  h.mem_iff.mpr (List.mem_map_of_mem (mem_participants hit))

theorem sum_unmetIn {l : List (Participant ι)} (h : l.Perm (request.participants.map bare)) :
    (request.items.map (unmetIn request l)).sum = request.settled.remaining := by
  have hsum := sum_passShare (accepted_bare h) (settled_spec request).nonneg (total_bare h)
  rw [(h.map (passShare request.settled.remaining l)).sum_eq, List.map_map, map_participants] at hsum
  exact hsum

theorem pick_empty (g c : Item ι → Division ι) : pick request.settled g c = c := by
  funext it
  unfold pick
  rw [hempty]
  exact if_neg List.not_mem_nil

theorem rows_committed {u u' : Item ι → ℤ}
    (hu : (request.items.map u).sum = request.settled.remaining)
    (hu' : (request.items.map u').sum = request.settled.remaining) :
    Rows request.amount request.items (capRow u) (capRow u') request.settled.remaining 0 where
  id := fun it _ => ⟨rfl, rfl⟩
  allocated := fun it _ => rfl
  nonneg := fun it hit => capD_nonneg hit
  capped := fun it _ c hc => capRow_capped u it hc
  sums := ⟨hu, hu'⟩
  unmet_nonneg := (settled_spec request).nonneg
  remainder_nonneg := le_refl 0
  spent := by
    have h : _ + request.settled.remaining = _ := spent_committed u
    have hperm := ((committed_perm hempty).map fun it => (capRow u it).allocated).sum_eq
    omega

theorem sorted_committed : (request.settled.committed.map commit).insertionSort
    (fun a b => a.idx ≤ b.idx) = request.items.map commit := by
  have hperm := (List.perm_insertionSort (fun a b : Commitment ι => a.idx ≤ b.idx)
    (request.settled.committed.map commit)).trans ((committed_perm hempty).map commit)
  have : Std.Total fun a b : Commitment ι => a.idx ≤ b.idx := ⟨fun a b => le_total a.idx b.idx⟩
  have : IsTrans (Commitment ι) fun a b => a.idx ≤ b.idx := ⟨fun _ _ _ => le_trans⟩
  have hsorted : (request.items.map commit).Pairwise fun a b => a.idx ≤ b.idx :=
    List.pairwise_map.mpr ((inOrder_items request).increasing.imp fun hlt => le_of_lt hlt)
  refine hperm.eq_of_pairwise ?_ (List.pairwise_insertionSort _ _) hsorted
  intro a b ha hb hab hba
  obtain ⟨it, hit, rfl⟩ := List.mem_map.mp (hperm.mem_iff.mp ha)
  obtain ⟨it', hit', rfl⟩ := List.mem_map.mp hb
  have heq : it = it' := List.inj_on_of_nodup_map (inOrder_items request).idx_nodup hit hit'
    (le_antisymm hab hba)
  rw [heq]

theorem shareUnmet_rows : (shareUnmet idLe .inputOrder request.settled.remaining
    (request.settled.committed.map commit)).map Commitment.row
      = request.settled.committed.map (capRow (unmetIn request (request.participants.map bare))) := by
  have hrefl := List.Perm.refl (request.participants.map bare)
  have hbare : (request.items.map commit).map (fun c : Commitment ι =>
      (⟨c.row.id, c.row.weight, none⟩ : Participant ι)) = request.participants.map bare := by
    rw [List.map_map, map_participants]
    rfl
  have hshares : applyCaps (singlePassRequested idLe _ _ _ _) _ = _ :=
    reconstructed_pass (accepted_bare hrefl) (settled_spec request).nonneg .floorWithLargestRemainder
  unfold shareUnmet
  simp only [sorted_committed hempty, hbare, hshares]
  rw [List.map_map, List.map_map]
  refine List.map_congr_left fun it hit => ?_
  have hmem := bare_mem hrefl (mem_items_of_committed hit)
  have hfind : _ = passShare request.settled.remaining _ _ :=
    find_share (accepted_bare hrefl) (total_bare hrefl).ne' hmem rfl
  show _ = (⟨it.id, it.weight, it.cap, it.cap.getD 0,
    unmetIn request (request.participants.map bare) it⟩ : Division ι)
  unfold unmetIn
  rw [← hfind]
  rfl

theorem committed_unmet {shares : List (Division ι)}
    (hshares : shares = (mapOrder order request).map (passRow request.settled.remaining
      .floorWithLargestRemainder (mapOrder order request))) :
    (request.settled.committed.map (capRow fun _ => 0)).map (fun d : Division ι => { d with
      unmet := ((shares.find? fun d' => d'.id = d.id).map Division.allocated).getD 0 })
      = request.settled.committed.map (capRow (unmetIn request (mapOrder order request))) := by
  have hperm := mapOrder_perm order hempty
  rw [List.map_map]
  refine List.map_congr_left fun it hit => ?_
  have hmem := bare_mem hperm (mem_items_of_committed hit)
  have hfind : _ = passShare request.settled.remaining _ _ :=
    find_share (accepted_bare hperm) (total_bare hperm).ne' hmem rfl
  show _ = (⟨it.id, it.weight, it.cap, it.cap.getD 0, unmetIn request (mapOrder order request) it⟩ :
    Division ι)
  unfold unmetIn
  rw [← hfind, hshares]
  rfl

/-- **In the exit where every cap is reached, the units of the shortfall decide.** -/
theorem allCapped_agrees (htreatment : request.capTreatment = .redistribute) :
    ∃ r expected, allocateCanonical idLe order request = .ok r
      ∧ reconstruct idLe request.policyRequest = some expected
      ∧ (Agrees request r expected ↔ ∀ it ∈ request.items,
        unmetIn request (mapOrder order request) it
          = unmetIn request (request.participants.map bare) it) := by
  have hexit : ∃ round passes, allocateCanonical idLe order request = _ :=
    allocateCanonical_exit order htreatment
  obtain ⟨round, passes, hexit⟩ := hexit
  have hempty' : (request.settled.map Item.toParticipant).active = [] :=
    List.map_eq_nil_iff.mpr hempty
  have hr := (settled_spec request).nonneg
  have hperm := mapOrder_perm order hempty
  have hshares : (allocateProRata idLe _ _ _ _).allocations = _ :=
    allocations_allocateProRata (accepted_bare hperm) hr .floorWithLargestRemainder
  have hmap : ((order.vals (request.settled.committed.map (capRow fun _ => 0))).map
      fun d : Division ι => (⟨d.id, d.weight, none⟩ : Participant ι)) = mapOrder order request := by
    rw [mapOrder, commitOrder_eq, commitRows_eq]
  have hpick := inInputOrder_pick request (g := zeroRow)
    (c := capRow (unmetIn request (mapOrder order request))) (fun _ => rfl) fun _ => rfl
  rw [pick_empty hempty, hempty] at hpick
  rw [loopExit, if_pos hempty', allCapped] at hexit
  simp only [ActiveSet.State.map] at hexit
  rw [commitRows_eq, hmap, committed_unmet order hempty hshares] at hexit
  have hpick : allocationsInInputOrder request.participants (request.settled.committed.map
      (capRow (unmetIn request (mapOrder order request))))
      = .ok (request.items.map (capRow (unmetIn request (mapOrder order request)))) := hpick
  rw [hpick] at hexit
  have hexpected : reconstruct idLe request.policyRequest = _ := reconstruct_redistribute htreatment
  rw [chainExit, if_pos hempty] at hexpected
  have hfound := mapM_pick request (g := zeroRow)
    (c := capRow (unmetIn request (request.participants.map bare))) (fun _ => rfl) fun _ => rfl
  rw [pick_empty hempty, hempty] at hfound
  simp only [shareUnmet_rows hempty] at hexpected
  refine ⟨_, _, hexit, hexpected.trans (congrArg (Option.map (totalled request.amount)) hfound), ?_⟩
  have h := rows_committed hempty (sum_unmetIn hempty hperm)
    (sum_unmetIn hempty (List.Perm.refl (request.participants.map bare)))
  exact agrees_of_rows h rfl rfl rfl rfl

end

/-! ### the result -/

theorem settled_empty_iff (request : CanonicalRequest ι) : request.settled.active = []
    ↔ ActiveSet.AllCapped weightOf declaredCap request.amount request.participants := by
  have ht : ActiveSet.total weightOf request.participants ≠ 0 := by
    obtain ⟨p, hp, hpos⟩ := request.weighted
    intro h0
    exact hpos.ne' (eq_zero_of_sum_eq_zero request.weights_nonneg h0 p hp)
  have hempty : (ActiveSet.run weightOf declaredCap request.amount request.participants []).active = []
      ↔ ActiveSet.AllCapped weightOf declaredCap request.amount request.participants :=
    ActiveSet.run_emptied_iff ⟨request.weights_nonneg, request.caps_nonneg⟩ request.amount_nonneg ht
  rw [← hempty, run_participants]
  exact List.map_eq_nil_iff.symm

theorem unmetIn_iff {request : CanonicalRequest ι} (order : EntryOrder ι)
    (hempty : request.settled.active = []) :
    (∀ it ∈ request.items, unmetIn request (mapOrder order request) it
        = unmetIn request (request.participants.map bare) it)
      ↔ ∀ p ∈ request.participants, (bare p ∈ unitsOf (shortfall request) (mapOrder order request)
        ↔ bare p ∈ unitsOf (shortfall request) (request.participants.map bare)) := by
  have hperm := mapOrder_perm order hempty
  have hitem : ∀ it : Item ι, unmetIn request (mapOrder order request) it
      = unmetIn request (request.participants.map bare) it ↔ _ := fun it =>
    passShare_eq_iff hperm (bare it.toParticipant)
  rw [← remaining_eq hempty]
  constructor
  · intro h p hp
    rw [← participants_items] at hp
    obtain ⟨it, hit, rfl⟩ := List.mem_map.mp hp
    exact (hitem it).mp (h it hit)
  · intro h it hit
    exact (hitem it).mpr (h _ (mem_participants hit))

/-- **The allocator agrees with its reconstruction just where the units of the shortfall fall alike.** -/
theorem agrees_iff (order : EntryOrder ι) (request : CanonicalRequest ι) :
    (∃ r expected, allocateCanonical idLe order request = .ok r
      ∧ reconstruct idLe request.policyRequest = some expected ∧ Agrees request r expected)
      ↔ TiesByInput order request := by
  cases htreatment : request.capTreatment with
  | unallocated =>
    refine iff_of_true (unallocated_agrees request order htreatment) fun h => ?_
    rw [htreatment] at h
    cases h
  | redistribute =>
    by_cases hempty : request.settled.active = []
    · have hexit : ∃ r expected, allocateCanonical idLe order request = .ok r ∧ _ :=
        allCapped_agrees order hempty htreatment
      obtain ⟨r, expected, hok, hexpected, hiff⟩ := hexit
      rw [unmetIn_iff order hempty] at hiff
      constructor
      · rintro ⟨r', expected', hok', hexpected', hagrees⟩ - -
        obtain rfl := Except.ok.inj (hok.symm.trans hok')
        obtain rfl := Option.some.inj (hexpected.symm.trans hexpected')
        exact hiff.mp hagrees
      · intro hties
        exact ⟨r, expected, hok, hexpected,
          hiff.mpr (hties htreatment ((settled_empty_iff request).mp hempty))⟩
    · refine iff_of_true ?_ fun _ hcapped => absurd ((settled_empty_iff request).mpr hcapped) hempty
      by_cases h0 : itemTotal request.settled.active = 0
      · exact noActiveWeight_agrees order htreatment hempty h0
      · exact unconstrained_agrees order htreatment hempty h0

end

/-! ### at two participants -/

def insertionOrder (ι : Type) : EntryOrder ι := ⟨id, fun rows => List.Perm.refl rows, fun _ _ => rfl⟩

/-- the cap of the second is reached first, and one unit of 5 is left -/
def lateCap : CanonicalRequest String where
  amount := 5
  participants := [⟨"a", 1, some 3⟩, ⟨"b", 1, some 1⟩]
  rounding := .floorWithLargestRemainder
  capTreatment := .redistribute
  amount_nonneg := by decide
  distinct := by decide
  weights_nonneg := by decide
  weighted := by decide
  caps_nonneg := by decide

theorem lateCap_unmet :
    ((allocateCanonical (fun a b : String => a ≤ b) (insertionOrder String) lateCap).toOption.map
      fun r => r.allocations.map Division.unmet) = some [0, 1]
    ∧ ((reconstruct (fun a b : String => a ≤ b) lateCap.policyRequest).map
      fun expected => expected.rows.map Division.unmet) = some [1, 0] := by
  decide +kernel

/-- the allocator leaves the unit to the cap that was reached first, the reconstruction to the first
participant -/
theorem lateCap_disagrees : ¬ ∃ r expected,
    allocateCanonical (fun a b : String => a ≤ b) (insertionOrder String) lateCap = .ok r
      ∧ reconstruct (fun a b : String => a ≤ b) lateCap.policyRequest = some expected
      ∧ Agrees lateCap r expected := by
  rintro ⟨r, expected, hok, hexpected, hagrees⟩
  obtain ⟨hunmet, hunmet'⟩ := lateCap_unmet
  rw [hok] at hunmet
  rw [hexpected] at hunmet'
  have h : r.allocations.map Division.unmet = [0, 1] := Option.some.inj hunmet
  have h' : expected.rows.map Division.unmet = [1, 0] := Option.some.inj hunmet'
  have hrows := congrArg (List.map fun e : String × ℤ × ℤ => e.2.2) hagrees.rows
  rw [List.map_map, List.map_map] at hrows
  have hrows : r.allocations.map Division.unmet = expected.rows.map Division.unmet := hrows
  rw [h, h'] at hrows
  exact absurd hrows (by decide)

end PRF.Economics
