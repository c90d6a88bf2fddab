import ProtocolRobustness.Contract.RowOrder
import ProtocolRobustness.Yield.WithdrawShared

/-!
# Who gets the dust of a shared withdrawal

The owners are sorted by their original priority, the policy of the decision says
`:rounding-tie-break :original-priority-ascending`, and the request to the mechanism says
`:tie-break-policy :canonical-row-id`.  The mechanism is taken to be the allocation of the portable
contract.

* `MechanismRequest.value`   the request as the contract receives it;
* `Realises`                 the mechanism gives each row what the contract gives it;
* `ahead`, `dustUnits`       what the contract ranks before a row, and the units that it hands out;
* `Allocate.mem_awardedRows_iff`   who gets a unit, by counting who is ahead;
* `withdrawShared_divides`   a withdrawal divides its liquidity as the contract does;
* `ties_by_priority_iff`     ties go by original priority exactly when the dust splits them so.
-/

namespace PRF
open Bytes

/-! ## who gets a unit -/

namespace Allocate

/-- the rows that the ranking has before a row: those with a larger remainder, and those with the
same remainder and smaller bytes -/
def ahead (q : Request) (row : Row) : ℕ :=
  (allocationActive q).countP fun other =>
    decide (¬ rankLe (amountForFinal q) (weightTotal (allocationActive q)) row other)

/-- the units that the floors of the rows leave over -/
def dustUnits (q : Request) : ℤ :=
  if weightTotal (allocationActive q) = 0 then 0
  else dustOf (amountForFinal q) (weightTotal (allocationActive q)) (allocationActive q)

/-- the part of its share that a row loses to its floor -/
def remainder (q : Request) (row : Row) : ℤ :=
  Apportion.remainder (amountForFinal q) (weightTotal (allocationActive q)) Row.weight row

section
variable {q : Request} (hp : q.redistributionPolicy = .redistributeCapExcess)
  (hr : q.roundingPolicy = .largestRemainder)
include hp hr

/-- **A row gets a unit when fewer are ahead of it than there are units.** -/
theorem mem_awardedRows_iff
    (hanti : ∀ a ∈ q.rows, ∀ b ∈ q.rows, a.orderKey = b.orderKey → a = b) {row : Row}
    (h : row ∈ allocationActive q) : row ∈ awardedRows q ↔ (ahead q row : ℤ) < dustUnits q := by
  unfold dustUnits
  by_cases hw : weightTotal (allocationActive q) = 0
  · have hzero : allocationWeight q = 0 := (allocationWeight_redistribute hp).trans hw
    rw [awardedRows_zero (units_zero hzero), if_pos hw]
    exact iff_of_false List.not_mem_nil (by omega)
  · have hpos : 0 < allocationWeight q := by
      rw [allocationWeight_redistribute hp]
      exact weightTotal_pos hw
    have hweight := allocationWeight_redistribute hp
    unfold awardedRows
    rw [rankedRows_eq hpos, units_eq hpos hr, floorRows_redistribute hp, hweight, if_neg hw]
    have hperm := ranking_perm (amountForFinal q) (weightTotal (allocationActive q))
      (allocationActive q)
    have hcount := Sorted.mem_take_iff
      (rankLe (amountForFinal q) (weightTotal (allocationActive q)))
      (l := ranking (amountForFinal q) (weightTotal (allocationActive q)) (allocationActive q))
      (List.pairwise_insertionSort _ (allocationActive q))
      (hperm.nodup_iff.mpr ((active_sublist q).nodup q.rows_nodup)) ?_ (hperm.mem_iff.mpr h)
      (dustOf (amountForFinal q) (weightTotal (allocationActive q)) (allocationActive q)).toNat
    · rw [hcount, hperm.countP_eq]
      unfold ahead
      omega
    · intro a ha b hb hab hba
      have ha' := (active_sublist q).subset (hperm.mem_iff.mp ha)
      have hb' := (active_sublist q).subset (hperm.mem_iff.mp hb)
      refine hanti a ha' b hb' ?_
      rcases hab with hab | ⟨_, hab⟩
      · rcases hba with hba | ⟨heq, _⟩
        · exact absurd hab hba.not_gt
        · exact absurd heq hab.ne
      · rcases hba with hba | ⟨_, hba⟩
        · omega
        · exact leBytes_antisymm hab hba

end

end Allocate

namespace Yield.Shared
open Table Fallible

/-! ## the request of the contract -/

def RowId.value (id : RowId) : Value :=
  .vec [(PRF.key "shared-withdrawal-row").value, .str id.obligationId, .str id.sourcePositionId,
    .str id.key]

def MechanismRow.value (row : MechanismRow) : Value :=
  .map [(PRF.nsKey "row" "id", row.rowId.value), (PRF.nsKey "obligation" "id", .str row.obligationId),
    (PRF.key "requested", .int row.requested), (PRF.key "weight", .int row.weight),
    (PRF.key "cap", .int row.cap)]

def MechanismRequest.value (request : MechanismRequest) : Value :=
  .map [(PRF.key "schema-version", .str "pro-rata-allocation-request.v1"),
    (PRF.nsKey "mechanism" "version", .int 1),
    (PRF.nsKey "allocation" "id", .vec [(PRF.key "shared-withdrawal-allocation").value,
      .vec (request.allocationId.map RowId.value)]),
    (PRF.key "available", .int request.available),
    (PRF.key "rows", .vec (request.rows.map MechanismRow.value)),
    (PRF.key "rounding-policy", (PRF.key "largest-remainder").value),
    (PRF.key "tie-break-policy", (PRF.key "canonical-row-id").value),
    (PRF.key "redistribution-policy", (PRF.key "redistribute-cap-excess").value)]

theorem RowId.value_normal (id : RowId) : Normal id.value := by
  refine .vec fun x hx => ?_
  simp only [List.mem_cons, List.not_mem_nil, or_false] at hx
  rcases hx with rfl | rfl | rfl | rfl
  · exact .kw _
  · exact .str _
  · exact .str _
  · exact .str _

section
variable {η : Type}

/-- the mechanism is the allocation of the contract: it gives each row what the contract gives it -/
def Realises (host : Host η) (sha256 : ByteString → String) : Prop :=
  ∀ request result, host.allocate request = .ok result →
    ∃ r, PRF.allocate sha256 request.value = .ok r ∧
      List.Forall₂ (fun out row => row.rowId = out.rowId.value ∧ out.allocated = row.allocated ∧
        out.unmet = row.unmet) result.rows r.rows ∧
      result.allocatedTotal = r.allocatedTotal

theorem vec_map_request (request : MechanismRequest) :
    vecOf (request.value.get (key "rows")) = .ok (request.rows.map MechanismRow.value) := rfl

/-- what the contract makes of a request -/
structure Normalized (request : MechanismRequest) (q : Request) : Prop where
  normalized : normalizeRequest request.value = .ok q
  policy : q.redistributionPolicy = .redistributeCapExcess
  rounding : q.roundingPolicy = .largestRemainder
  distinguished : ∀ a ∈ q.rows, ∀ b ∈ q.rows, a.orderKey = b.orderKey → a = b
  truthy : ∀ a ∈ q.rows, a.rowId.truthy

theorem normalized_of_ok {request : MechanismRequest} {q : Request}
    (h : normalizeRequest request.value = .ok q) : Normalized request q := by
  obtain ⟨rows, normalized, ha⟩ := normalizeRequest_ok_iff.mp h
  obtain rfl : request.rows.map MechanismRow.value = rows :=
    Except.ok.inj ((vec_map_request request).symm.trans ha.supplied)
  have hids : ∀ row ∈ request.rows.map MechanismRow.value,
      ∃ id : RowId, row.get (nsKey "row" "id") = id.value := by
    intro row hrow
    obtain ⟨r, _, rfl⟩ := List.mem_map.mp hrow
    exact ⟨r.rowId, rfl⟩
  have hmem : ∀ a, a ∈ q.rows ↔ a ∈ normalized := by
    intro a
    rw [ha.sorted]
    exact (List.perm_insertionSort _ normalized).mem_iff
  refine ⟨h, ?_, ?_, ?_, ?_⟩
  · exact (Option.some.inj ha.redistribution).symm
  · exact (Option.some.inj ha.rounding).symm
  · intro a hma b hmb
    refine orderKey_injective ha.converted ha.nodup (fun row hrow => ?_) a ((hmem a).mp hma) b
      ((hmem b).mp hmb)
    obtain ⟨id, hid⟩ := hids row hrow
    exact hid ▸ id.value_normal
  · intro a hma
    obtain ⟨row, hrow, hr⟩ := exists_of_mem_right (mapM_ok_iff.mp ha.converted) ((hmem a).mp hma)
    obtain ⟨id, hid⟩ := hids row hrow
    rw [normalizeRow_rowId hr, hid]
    rfl

/-! ## the participants of a withdrawal -/

def Participant.rowId (x : Participant) : RowId := ⟨x.obligationId, x.sourcePositionId, x.participantId⟩

def requestOfParticipants (p : Propagation η) : MechanismRequest where
  allocationId := p.participants.map Participant.rowId
  available := p.summary.available
  rows := p.participants.map fun x =>
    ⟨x.rowId, x.obligationId, x.eligibleObligation, x.eligibleObligation, x.effectiveCap⟩

/-- a row and the participant that it becomes -/
structure Becomes (result : MechanismResult η) (row : Row) (x : Participant) : Prop where
  key : x.participantId = row.key
  obligationId : x.obligationId = row.obligationId
  sourcePositionId : x.sourcePositionId = row.sourcePositionId
  owed : x.eligibleObligation = row.owed
  cap : x.effectiveCap = min row.owed row.cap
  filled : filledOfRow result row = .ok x.fulfilled

theorem rowEvidence_becomes {d : Decision η} {result : MechanismResult η} {row : Row}
    {e : EvidenceRow} (h : rowEvidence result row = .ok e) : Becomes result row (participantOf d e) := by
  unfold rowEvidence at h
  obtain ⟨filled, hfilled, h⟩ := bind_eq_ok.mp h
  obtain ⟨_, h⟩ := refuse_eq_ok.mp h
  obtain ⟨_, _, h⟩ := bind_eq_ok.mp h
  obtain rfl := Except.ok.inj h
  exact ⟨rfl, rfl, rfl, rfl, rfl, hfilled⟩

theorem artifact_participants {canonicalHash : Committed η → η} {idOf : IdOf η} {d : Decision η}
    {policy : PropagationPolicy} {selection : PolicySelection} {c : Core η}
    (h : proRataPropagationArtifact canonicalHash idOf d policy selection = .ok c) :
    c.participants = d.allocationRows.map (participantOf d) ∧
      c.summary.available = d.availableLiquidity := by
  unfold proRataPropagationArtifact at h
  obtain ⟨_, _, h⟩ := bind_eq_ok.mp h
  obtain ⟨_, _, h⟩ := bind_eq_ok.mp h
  obtain ⟨_, _, h⟩ := bind_eq_ok.mp h
  obtain ⟨_, _, h⟩ := bind_eq_ok.mp h
  obtain rfl := Except.ok.inj h
  exact ⟨rfl, rfl⟩

theorem map_eq_map_of_forall₂ {α β γ : Type} {f : α → γ} {g : β → γ} {l : List α} {m : List β}
    (h : List.Forall₂ (fun a b => f a = g b) l m) : l.map f = m.map g := by
  induction h with
  | nil => rfl
  | cons hab _ ih => rw [List.map_cons, List.map_cons, hab, ih]

theorem requestOfParticipants_eq {p : Propagation η} {result : MechanismResult η} {rows : List Row}
    {available : ℤ} (h : List.Forall₂ (Becomes result) rows p.participants)
    (havailable : p.summary.available = available) :
    requestOfParticipants p = mechanismRequest available rows := by
  have hid : ∀ row x, Becomes result row x → row.id = x.rowId := by
    intro row x hx
    unfold Participant.rowId
    rw [hx.key, hx.obligationId, hx.sourcePositionId]
    rfl
  have hids : rows.map Row.id = p.participants.map Participant.rowId :=
    map_eq_map_of_forall₂ (h.imp hid)
  have hrows : (rows.map fun row => (⟨row.id, row.obligationId, row.owed, row.owed,
        min row.owed row.cap⟩ : MechanismRow))
      = p.participants.map fun x => ⟨x.rowId, x.obligationId, x.eligibleObligation,
        x.eligibleObligation, x.effectiveCap⟩ := by
    refine map_eq_map_of_forall₂ (h.imp fun row x hx => ?_)
    rw [hid row x hx, hx.obligationId, hx.owed, hx.cap]
  unfold requestOfParticipants mechanismRequest
  rw [hids, hrows, havailable]

/-! ## ties -/

theorem fulfilled_eq {host : Host η} {sha256 : ByteString → String} (hreal : Realises host sha256)
    {request : MechanismRequest} {result : MechanismResult η} (h : host.allocate request = .ok result)
    {rows : List Row} {xs : List Participant} (hbecomes : List.Forall₂ (Becomes result) rows xs) :
    ∃ q, Normalized request q ∧ ∀ x ∈ xs, ∀ a ∈ q.rows, a.rowId = x.rowId.value →
      x.fulfilled = Allocate.allocatedOf q a := by
  obtain ⟨r, hr, hrows, _⟩ := hreal request result h
  unfold PRF.allocate at hr
  obtain ⟨q, hq, hr⟩ := bind_eq_ok.mp hr
  obtain ⟨_, rfl⟩ := (Allocate.allocateNormalized_ok_iff sha256 q r).mp hr
  refine ⟨q, normalized_of_ok hq, fun x hx a ha hid => ?_⟩
  obtain ⟨row, _, hrow⟩ := exists_of_mem_right hbecomes hx
  have hfilled := hrow.filled
  unfold filledOfRow at hfilled
  cases hfind : result.rows.find? (·.rowId = row.id) with
  | none =>
    rw [hfind] at hfilled
    cases hfilled
  | some out =>
    rw [hfind] at hfilled
    have hout : out.rowId = row.id := by simpa using List.find?_some hfind
    obtain ⟨given, hgiven, hsame, hallocated, _⟩ :=
      exists_of_mem_left hrows (List.mem_of_find?_eq_some hfind)
    rw [Allocate.finalResult_rows] at hgiven
    obtain ⟨b, hb, rfl⟩ := List.mem_map.mp hgiven
    have hrowId : row.id = x.rowId := by
      unfold Participant.rowId
      rw [hrow.key, hrow.obligationId, hrow.sourcePositionId]
      rfl
    have hba : b = a := by
      refine q.row_eq hb ha ?_
      rw [Allocate.finalRow_rowId] at hsame
      rw [hsame, hout, hrowId, hid]
    rw [Allocate.finalRow_allocated, hba] at hallocated
    exact (Except.ok.inj hfilled).symm.trans hallocated

def floorShare (q : Request) (a : PRF.Row) : ℤ :=
  Apportion.floorShare (Allocate.amountForFinal q) (weightTotal (Allocate.allocationActive q))
    PRF.Row.weight a

theorem floorOf_eq_floorShare {request : MechanismRequest} {q : Request}
    (hn : Normalized request q) (a : PRF.Row) : Allocate.floorOf q a = floorShare q a := by
  have hweight := Allocate.allocationWeight_redistribute hn.policy
  rcases (Allocate.allocationWeight_nonneg q).lt_or_eq with hpos | hzero
  · rw [Allocate.floorOf_eq hpos, hweight]
    rfl
  · rw [Allocate.floorOf_zero hzero.symm]
    unfold floorShare Apportion.floorShare
    rw [← hweight, ← hzero, Int.ediv_zero]

theorem allocatedOf_active {request : MechanismRequest} {q : Request} (hn : Normalized request q)
    {a : PRF.Row} (ha : a ∈ Allocate.allocationActive q) :
    Allocate.allocatedOf q a
      = floorShare q a + if (Allocate.ahead q a : ℤ) < Allocate.dustUnits q then 1 else 0 := by
  have hmem := (Allocate.active_sublist q).subset ha
  rw [Allocate.allocated_redistribute hn.policy hmem, if_pos ha, if_pos (hn.truthy a hmem),
    floorOf_eq_floorShare hn]
  congr 1
  exact if_congr (Allocate.mem_awardedRows_iff hn.policy hn.rounding hn.distinguished ha) rfl rfl

/-- the original priority of the owner of a participant -/
def priorityOf (r : Withdrawal η) (x : Participant) : Option ℤ :=
  (r.accrued.position x.participantId).bind fun p => (authoritativeOriginalPriority p).toOption

/-- neither priority is missing, and the first is not the later one -/
def NoLater (r : Withdrawal η) (x y : Participant) : Prop :=
  ∀ i ∈ priorityOf r x, ∀ j ∈ priorityOf r y, i ≤ j

/-- the rows of two participants, with equal exact remainders -/
def Tied (q : Request) (x y : Participant) (a b : PRF.Row) : Prop :=
  a.rowId = x.rowId.value ∧ b.rowId = y.rowId.value ∧
    Allocate.remainder q a = Allocate.remainder q b

/-- a tie of rows that their caps do not limit goes to the lower original priority, where the dust
splits it -/
def TiesByPriority (r : Withdrawal η) (q : Request) : Prop :=
  ∀ x ∈ r.propagation.participants, ∀ y ∈ r.propagation.participants,
    ∀ a ∈ Allocate.allocationActive q, ∀ b ∈ Allocate.allocationActive q, Tied q x y a b →
      x.fulfilled = floorShare q a + 1 → y.fulfilled = floorShare q b → NoLater r x y

/-- of tied rows, those that the bytes of the row ids put within the dust have no later priority than
those that they put behind it -/
def DustByPriority (r : Withdrawal η) (q : Request) : Prop :=
  ∀ x ∈ r.propagation.participants, ∀ y ∈ r.propagation.participants,
    ∀ a ∈ Allocate.allocationActive q, ∀ b ∈ Allocate.allocationActive q, Tied q x y a b →
      (Allocate.ahead q a : ℤ) < Allocate.dustUnits q →
      Allocate.dustUnits q ≤ Allocate.ahead q b → NoLater r x y

instance (q : Request) (x y : Participant) (a b : PRF.Row) : Decidable (Tied q x y a b) :=
  inferInstanceAs (Decidable (_ ∧ _ ∧ _))

instance (r : Withdrawal η) (x y : Participant) : Decidable (NoLater r x y) :=
  inferInstanceAs (Decidable (∀ i ∈ _, ∀ j ∈ _, _ ≤ _))

instance (r : Withdrawal η) (q : Request) : Decidable (TiesByPriority r q) :=
  inferInstanceAs (Decidable (∀ x ∈ _, ∀ y ∈ _, ∀ a ∈ _, ∀ b ∈ _, _ → _ → _ → _))

variable [DecidableEq η]

/-- **A withdrawal divides by one request.** -/
theorem withdrawShared_divides {host : Host η} {w : World η} {moduleId : String} {op : Op}
    {r : Withdrawal η} (h : withdrawShared host w moduleId op = .ok r) :
    ∃ result rows, host.allocate (requestOfParticipants r.propagation) = .ok result ∧
      List.Forall₂ (Becomes result) rows r.propagation.participants := by
  unfold withdrawShared at h
  obtain ⟨_, _, h⟩ := bind_eq_ok.mp h
  obtain ⟨_, _, h⟩ := bind_eq_ok.mp h
  obtain ⟨owners, _, h⟩ := bind_eq_ok.mp h
  obtain ⟨_, _, h⟩ := bind_eq_ok.mp h
  obtain ⟨accrued, _, h⟩ := bind_eq_ok.mp h
  obtain ⟨⟨decision, propagation⟩, hbuild, h⟩ := bind_eq_ok.mp h
  obtain ⟨_, _, h⟩ := bind_eq_ok.mp h
  obtain rfl := Except.ok.inj h
  unfold buildPropagation at hbuild
  obtain ⟨policy, _, hbuild⟩ := bind_eq_ok.mp hbuild
  obtain ⟨requested, _, hbuild⟩ := bind_eq_ok.mp hbuild
  obtain ⟨rows, _, hbuild⟩ := bind_eq_ok.mp hbuild
  obtain ⟨settlement, hsettle, hbuild⟩ := bind_eq_ok.mp hbuild
  obtain ⟨order, _, hbuild⟩ := bind_eq_ok.mp hbuild
  obtain ⟨preconditions, _, hbuild⟩ := bind_eq_ok.mp hbuild
  obtain ⟨core, hcore, hbuild⟩ := bind_eq_ok.mp hbuild
  split at hbuild
  · cases hbuild
  · obtain ⟨rfl, rfl⟩ := Prod.mk.inj (Except.ok.inj hbuild)
    obtain ⟨hparticipants, havailable⟩ := artifact_participants hcore
    unfold calculateFulfillmentProRata at hsettle
    obtain ⟨total, _, hsettle⟩ := bind_eq_ok.mp hsettle
    obtain ⟨short, _, hsettle⟩ := bind_eq_ok.mp hsettle
    obtain ⟨result, hresult, hsettle⟩ := bind_eq_ok.mp hsettle
    obtain ⟨evidence, hevidence, hsettle⟩ := bind_eq_ok.mp hsettle
    obtain ⟨_, _, hsettle⟩ := bind_eq_ok.mp hsettle
    obtain rfl := Except.ok.inj hsettle
    have hbecomes : List.Forall₂ (Becomes result) rows core.participants := by
      rw [hparticipants]
      exact List.forall₂_map_right_iff.mpr
        ((mapM_ok_iff.mp hevidence).imp fun _ _ => rowEvidence_becomes)
    refine ⟨result, rows, ?_, hbecomes⟩
    rw [requestOfParticipants_eq hbecomes havailable]
    exact hresult

/-- **When ties go by original priority.** -/
theorem ties_by_priority_iff (host : Host η) (sha256 : ByteString → String)
    (hreal : Realises host sha256) (w : World η) (moduleId : String) (op : Op) (r : Withdrawal η)
    (h : withdrawShared host w moduleId op = .ok r) :
    ∃ q, normalizeRequest (requestOfParticipants r.propagation).value = .ok q ∧
      (TiesByPriority r q ↔ DustByPriority r q) := by
  obtain ⟨result, rows, hresult, hbecomes⟩ := withdrawShared_divides h
  obtain ⟨q, hn, hfilled⟩ := fulfilled_eq hreal hresult hbecomes
  refine ⟨q, hn.normalized, ?_⟩
  unfold TiesByPriority DustByPriority
  refine forall₂_congr fun x hx => forall₂_congr fun y hy => forall₂_congr fun a ha =>
    forall₂_congr fun b hb => forall_congr' fun ht => ?_
  have hxa := hfilled x hx a ((Allocate.active_sublist q).subset ha) ht.1
  have hyb := hfilled y hy b ((Allocate.active_sublist q).subset hb) ht.2.1
  rw [allocatedOf_active hn ha] at hxa
  rw [allocatedOf_active hn hb] at hyb
  have hunit : x.fulfilled = floorShare q a + 1 ↔
      (Allocate.ahead q a : ℤ) < Allocate.dustUnits q := by
    split at hxa <;> omega
  have hnone : y.fulfilled = floorShare q b ↔ Allocate.dustUnits q ≤ Allocate.ahead q b := by
    split at hyb <;> omega
  rw [hunit, hnone]

end

/-! ## a sample withdrawal -/

/-- the mechanism that is the allocation of the contract -/
def contractAllocate (sha256 : ByteString → String) (request : MechanismRequest) :
    Except Refusal (MechanismResult Unit) := do
  let r ← orThrow (PRF.allocate sha256 request.value).toOption
  let rows ← orThrow <| r.rows.mapM fun row =>
    (request.rows.find? fun m => m.rowId.value = row.rowId).map fun m =>
      (⟨m.rowId, row.allocated, row.unmet⟩ : AllocatedRow)
  .ok
    { hash := ()
      rows
      allocatedTotal := r.allocatedTotal
      newlyCappedIds := (request.rows.map (·.rowId)).filter fun id =>
        r.rounds.any fun round => round.newlyCapConstrainedRowIds.contains id.value }

def sampleHost : Host Unit where
  canonicalHash := fun _ => ()
  hashLE := fun _ _ => true
  decisionIdOf := fun _ => "decision"
  propagationIdOf := fun _ => "propagation"
  double := id
  exceeds := fun previous attempted ratio => decide (ratio * previous < |attempted - previous|)
  rising := fun previous attempted => decide (previous ≤ attempted)
  allocate := contractAllocate fun _ => ""
  evidenceValid := fun _ => true

theorem orThrow_eq_ok {α : Type} {x : Option α} {a : α} : orThrow x = .ok a ↔ x = some a := by
  cases x with
  | none => exact ⟨nofun, nofun⟩
  | some b => exact ⟨fun h => congrArg some (Except.ok.inj h), fun h => congrArg _ (Option.some.inj h)⟩

theorem sampleHost_realises : Realises sampleHost fun _ => "" := by
  intro request result h
  change contractAllocate (fun _ => "") request = .ok result at h
  unfold contractAllocate at h
  obtain ⟨r, hr, h⟩ := bind_eq_ok.mp h
  obtain ⟨rows, hrows, h⟩ := bind_eq_ok.mp h
  obtain rfl := Except.ok.inj h
  have hok : PRF.allocate (fun _ => "") request.value = .ok r := by
    cases hallocate : PRF.allocate (fun _ => "") request.value with
    | error e =>
      rw [hallocate] at hr
      cases hr
    | ok r' =>
      rw [hallocate] at hr
      exact congrArg _ (Option.some.inj (orThrow_eq_ok.mp hr))
  refine ⟨r, hok, ?_, rfl⟩
  refine List.Forall₂.flip ((mapM_eq_some_iff.mp (orThrow_eq_ok.mp hrows)).imp fun row out hout => ?_)
  obtain ⟨m, hm, rfl⟩ := Option.map_eq_some_iff.mp hout
  have hid : m.rowId.value = row.rowId := by simpa using List.find?_some hm
  exact ⟨hid.symm, rfl, rfl⟩

/-- a deposit of one unit -/
def samplePosition (ownerId : String) (priority : ℤ) : Position Unit where
  account :=
    { ownerId, moduleId := "lend", token := "usd", principal := 1, shares := 1
      currentIndex := some 1, currentValue := some 1, realizedYield := 0, unrealizedYield := 0
      deferredYield := 0, haircutYield := 0, accrualDustRemainder := 0, shortfallAffected := false
      oracleStaleAffected := false, capitalEventAffected := false, lastAccrualTime := none
      lastAccrualIndex := none, status := .active, yieldLoss := none }
  positionId := none
  entryIndex := 1
  principalImpairment := 0
  partialFillAffected := false
  originalPriority := some priority
  cumulativeFulfilled := none
  shortfall := none
  deferredPosition := none
  deferredPositionHistory := []

/-- one unit is held for the two of them -/
def sampleWorld (a b : ℤ) : World Unit where
  runId := some "run"
  executionId := some "execution"
  scenarioId := some "scenario"
  step := some 1
  eventSeq := some 1
  now := 10
  moduleAliases := []
  moduleStatus := []
  scheduledState := fun _ _ _ => "normal"
  baseApyBps := fun _ _ => 0
  accrualConfig := []
  risk := []
  oracleStaleSince := []
  recoverable := fun _ _ _ base => base
  positions := [("a", samplePosition "a" a), ("b", samplePosition "b" b)]
  indices := []
  totalHeld := [("usd", 1)]
  heldBalances := []
  totalYieldGenerated := []
  withdrawn := []
  heldAdjustmentsComplete := true
  applied := []
  decisions := []
  propagations := []

def sampleOp : Op := ⟨["a", "b"], "usd", none, [], none, none⟩

/-- the owner whose row id comes first has the lower priority -/
theorem ties_by_priority_iff_sample :
    ∃ r q, withdrawShared sampleHost (sampleWorld 1 2) "lend" sampleOp = .ok r ∧
      normalizeRequest (requestOfParticipants r.propagation).value = .ok q ∧
      (TiesByPriority r q ↔ DustByPriority r q) := by
  obtain ⟨r, hr⟩ := exists_ok
    (x := withdrawShared sampleHost (sampleWorld 1 2) "lend" sampleOp) (by decide +kernel)
  obtain ⟨q, hq⟩ := ties_by_priority_iff sampleHost (fun _ => "") sampleHost_realises
    (sampleWorld 1 2) "lend" sampleOp r hr
  exact ⟨r, q, hr, hq⟩

/-- The one unit goes to `a`, whose row id comes first, and not to `b`, who deposited first. -/
theorem ties_by_row_id : Realises sampleHost (fun _ => "") ∧
    ∃ r q, withdrawShared sampleHost (sampleWorld 2 1) "lend" sampleOp = .ok r ∧
      normalizeRequest (requestOfParticipants r.propagation).value = .ok q ∧
      ¬ TiesByPriority r q := by
  refine ⟨sampleHost_realises, ?_⟩
  have hno : (withdrawShared sampleHost (sampleWorld 2 1) "lend" sampleOp).toOption.any fun r =>
      (normalizeRequest (requestOfParticipants r.propagation).value).toOption.any fun q =>
        decide ¬ TiesByPriority r q := by decide +kernel
  cases hr : withdrawShared sampleHost (sampleWorld 2 1) "lend" sampleOp with
  | error e =>
    rw [hr] at hno
    cases hno
  | ok r =>
    rw [hr] at hno
    change (normalizeRequest (requestOfParticipants r.propagation).value).toOption.any _ = true at hno
    cases hq : normalizeRequest (requestOfParticipants r.propagation).value with
    | error e =>
      rw [hq] at hno
      cases hno
    | ok q =>
      rw [hq] at hno
      exact ⟨r, q, rfl, hq, of_decide_eq_true hno⟩

end Yield.Shared

end PRF
