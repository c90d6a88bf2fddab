import ProtocolRobustness.Contract.Clamp
import ProtocolRobustness.Contract.RowOrder
import ProtocolRobustness.Library.Hamilton

/-!
# Dividing what is available over liabilities

The call of `pro-rata/allocate` in `economics/bounty_shortfall.clj`, as the allocation of the
portable contract: every row requests its liability, weighs as much, and has no cap.

* `divisionRequest`   the request that is sent;
* `divide`            what comes back: the amount of each row, and the root of the result;
* `award`             the amount of a row: its largest-remainder share, ties by the bytes of the id,
                      cut at its liability;
* `divide_eq`         the call succeeds, and gives each row its award.
-/

namespace PRF.Economics.Shortfall
open Bytes Fallible Apportion

abbrev Liability := String × ℤ

def liabilityRow (e : Liability) : Value :=
  .map [(nsKey "row" "id", .str e.1), (nsKey "obligation" "id", .str e.1),
    (key "requested", .int e.2), (key "weight", .int e.2), (key "cap", .null)]

def divisionRequest (policyId : String) (available : ℤ) (rows : List Liability) : Value :=
  .map [(key "schema-version", .str "pro-rata-allocation-request.v1"),
    (nsKey "mechanism" "version", .int 1), (nsKey "allocation" "id", .str policyId),
    (key "available", .int available), (key "rows", .vec (rows.map liabilityRow)),
    (key "rounding-policy", (key "largest-remainder").value),
    (key "tie-break-policy", (key "canonical-row-id").value),
    (key "redistribution-policy", (key "unallocated").value)]

/-- the amount of each row, and the root of the result -/
def divide (sha256 : ByteString → String) (policyId : String) (available : ℤ)
    (rows : List Liability) : Except Thrown (List (String × ℤ) × String) :=
  (allocate sha256 (divisionRequest policyId available rows)).map fun r =>
    (r.rows.filterMap fun row =>
      match row.rowId with
      | .str id => some (id, row.allocated)
      | _ => none, r.allocationHash)

/-! ## what a row is awarded -/

/-- the order of `canonical-row-id`: shorter ids first -/
def bytesLe (a b : Liability) : Prop :=
  leBytes (canonicalBytes (.str a.1)) (canonicalBytes (.str b.1))

instance : DecidableRel bytesLe := fun _ _ => inferInstanceAs (Decidable (leBytes _ _))

instance : Std.Total bytesLe where
  total _ _ := Std.Total.total (r := leBytes) _ _

instance : IsTrans Liability bytesLe where
  trans _ _ _ h h' := IsTrans.trans (r := leBytes) _ _ _ h h'

def liabilityTotal (rows : List Liability) : ℤ := (rows.map Prod.snd).sum

def award (available : ℤ) (rows : List Liability) (e : Liability) : ℤ :=
  if liabilityTotal rows = 0 then 0
  else min e.2 (Hamilton.share bytesLe available Prod.snd rows e)

/-- liabilities as `allocate` has them -/
structure Owed (rows : List Liability) : Prop where
  distinct : (rows.map Prod.fst).Nodup
  nonneg : ∀ e ∈ rows, 0 ≤ e.2

theorem Owed.nodup {rows : List Liability} (h : Owed rows) : rows.Nodup :=
  List.Nodup.of_map _ h.distinct

theorem Owed.total_nonneg {rows : List Liability} (h : Owed rows) : 0 ≤ liabilityTotal rows :=
  sum_map_nonneg h.nonneg

/-! ## the normalized request -/

theorem uncapped : ∀ n ∈ (none : Option ℤ), 0 ≤ n := by
  intro n hn
  cases hn

def rowOfLiability (e : Liability) : Row :=
  ⟨.str e.1, .str e.1, max 0 e.2, max 0 e.2, none, le_max_left _ _, le_max_left _ _, uncapped⟩

section
variable {available : ℤ} {rows : List Liability} (ha : 0 ≤ available) (h : Owed rows)

include h in
theorem ids_nodup : ((rows.map rowOfLiability).map Row.rowId).Nodup := by
  have e : (rows.map rowOfLiability).map Row.rowId = (rows.map Prod.fst).map Value.str := by
    simp [List.map_map, Function.comp_def, rowOfLiability]
  rw [e]
  exact h.distinct.map fun a b => Value.str.inj

def normalizedRequest (policyId : String) : Request where
  allocationId := .str policyId
  available := available
  rows := (rows.map rowOfLiability).insertionSort (byKey Row.orderKey)
  roundingPolicy := .largestRemainder
  redistributionPolicy := .unallocated
  available_nonneg := ha
  ids_nodup := sorted_ids_nodup (ids_nodup h)
  ordered := List.pairwise_insertionSort _ _

theorem checkRow_liabilityRow {e : Liability} (he : 0 ≤ e.2) : checkRow (liabilityRow e) = .ok () := by
  have hkeys : keysOf (liabilityRow e) = .ok rowFields := rfl
  have hsame : sameKeys rowFields rowFields = true := by decide
  have hn : PRF.nonNegativeInteger (.int e.2) = true := decide_eq_true he
  have h1 : (liabilityRow e).get (key "requested") = .int e.2 := rfl
  have h2 : (liabilityRow e).get (key "weight") = .int e.2 := rfl
  have h3 : (liabilityRow e).get (key "cap") = .null := rfl
  unfold checkRow
  rw [bind_eq_ok]
  refine ⟨_, hkeys, bind_eq_ok.mpr ⟨(), whenNot_eq_ok.mpr hsame, forM_ok_iff.mpr ?_⟩⟩
  intro field hfield
  simp only [List.mem_cons, List.not_mem_nil, or_false] at hfield
  rcases hfield with rfl | rfl | rfl
  · exact whenNot_eq_ok.mpr (by rw [h1, hn, Bool.or_true])
  · exact whenNot_eq_ok.mpr (by rw [h2, hn, Bool.or_true])
  · exact whenNot_eq_ok.mpr (by rw [h3]; rfl)

theorem normalizeRow_liabilityRow {e : Liability} (he : 0 ≤ e.2) :
    normalizeRow (liabilityRow e) = .ok (rowOfLiability e) := by
  have h1 : (liabilityRow e).get (key "requested") = .int e.2 := rfl
  have h2 : (liabilityRow e).get (key "weight") = .int e.2 := rfl
  have h3 : (liabilityRow e).get (key "cap") = .null := rfl
  have hb : bigintOf (.int e.2) = .ok ⟨e.2, he⟩ := dif_pos he
  unfold normalizeRow
  rw [h1, h2, h3, hb]
  refine congrArg Except.ok (Row.ext rfl rfl ?_ ?_ rfl) <;> exact (max_eq_right he).symm

theorem normalizeRequest_division (policyId : String) :
    normalizeRequest (divisionRequest policyId available rows)
      = .ok (normalizedRequest ha h policyId) := by
  have hrows : ∀ row ∈ rows.map liabilityRow, checkRow row = .ok () := by
    intro row hrow
    obtain ⟨e, he, rfl⟩ := List.mem_map.mp hrow
    exact checkRow_liabilityRow (h.nonneg e he)
  have hconv : (rows.map liabilityRow).mapM normalizeRow = .ok (rows.map rowOfLiability) := by
    rw [mapM_ok_iff, List.forall₂_map_left_iff, List.forall₂_map_right_iff, List.forall₂_same]
    exact fun e he => normalizeRow_liabilityRow (h.nonneg e he)
  have hids : ((rows.map liabilityRow).map fun row => row.get (nsKey "row" "id")).Nodup := by
    have e : ((rows.map liabilityRow).map fun row => row.get (nsKey "row" "id"))
        = (rows.map Prod.fst).map Value.str := by
      rw [List.map_map, List.map_map]
      exact List.map_congr_left fun e _ => rfl
    rw [e]
    exact h.distinct.map fun a b => Value.str.inj
  exact normalizeRequest_ok_iff.mpr ⟨rows.map liabilityRow, rows.map rowOfLiability,
    { supplied := rfl
      keys := ⟨requiredFields, rfl, by decide⟩
      schema := rfl
      version := rfl
      available := rfl
      tieBreak := rfl
      rounding := rfl
      redistribution := rfl
      checked := forM_ok_iff.mpr hrows
      distinct := hids
      converted := hconv
      nodup := ids_nodup h
      sorted := rfl
      allocationId := rfl }⟩

/-! ## what comes back -/

def orderedRows (rows : List Liability) : List Liability := rows.insertionSort bytesLe

theorem orderedRows_perm (rows : List Liability) : (orderedRows rows).Perm rows :=
  List.perm_insertionSort _ _

theorem rows_normalizedRequest (policyId : String) :
    (normalizedRequest ha h policyId).rows = (orderedRows rows).map rowOfLiability :=
  (List.map_insertionSort bytesLe (byKey Row.orderKey) rowOfLiability rows
    fun _ _ _ _ => Iff.rfl).symm

include h in
theorem weight_rowOfLiability {e : Liability} (he : e ∈ rows) : (rowOfLiability e).weight = e.2 :=
  max_eq_right (h.nonneg e he)

include h in
theorem effectiveCap_rowOfLiability {e : Liability} (he : e ∈ rows) :
    (rowOfLiability e).effectiveCap = e.2 :=
  max_eq_right (h.nonneg e he)

theorem weightTotal_normalizedRequest (policyId : String) :
    weightTotal (normalizedRequest ha h policyId).rows = liabilityTotal rows := by
  rw [rows_normalizedRequest]
  unfold weightTotal liabilityTotal
  rw [List.map_map, ((orderedRows_perm rows).map (Row.weight ∘ rowOfLiability)).sum_eq]
  exact congrArg List.sum (List.map_congr_left fun e he => weight_rowOfLiability h he)

include h in
theorem rowOfLiability_injOn {e e' : Liability} (he : e ∈ rows) (he' : e' ∈ rows)
    (heq : rowOfLiability e = rowOfLiability e') : e = e' := by
  have hid : e.1 = e'.1 := Value.str.inj (congrArg Row.rowId heq)
  exact List.inj_on_of_nodup_map h.distinct he he' hid

include h in
theorem bytesLe_antisymm {e e' : Liability} (he : e ∈ rows) (he' : e' ∈ rows) (h1 : bytesLe e e')
    (h2 : bytesLe e' e) : e = e' := by
  have hb := canonicalBytes_injective (Normal.str e.1) (Normal.str e'.1) (leBytes_antisymm h1 h2)
  exact List.inj_on_of_nodup_map h.distinct he he' (Value.str.inj hb)

include ha h in
theorem share_rowOfLiability {e : Liability} (he : e ∈ rows) :
    share available ((orderedRows rows).map rowOfLiability) (rowOfLiability e)
      = if liabilityTotal rows = 0 then 0
        else Hamilton.share bytesLe available Prod.snd rows e := by
  have hp := orderedRows_perm rows
  have hw : ∀ e ∈ orderedRows rows, (Row.weight ∘ rowOfLiability) e = e.2 := fun e he =>
    weight_rowOfLiability h (hp.mem_iff.mp he)
  have ht : weightTotal ((orderedRows rows).map rowOfLiability) = liabilityTotal rows := by
    rw [← rows_normalizedRequest ha h ""]
    exact weightTotal_normalizedRequest ha h ""
  -- the winners among the rows are the winners among the liabilities
  have hwinners : (Hamilton.winners bytesLe available Prod.snd rows).map rowOfLiability
      = Hamilton.winners (fun a b : Row => leBytes a.orderKey b.orderKey) available Row.weight
        ((orderedRows rows).map rowOfLiability) := by
    rw [Hamilton.winners_eq_of_perm hp.symm fun a ha b hb =>
        bytesLe_antisymm h ha hb, ← Hamilton.winners_congr_weight hw,
      ← Hamilton.winners_map rowOfLiability]
    rfl
  have hmem : rowOfLiability e ∈ (Hamilton.winners bytesLe available Prod.snd rows).map rowOfLiability
      ↔ e ∈ Hamilton.winners bytesLe available Prod.snd rows := by
    constructor
    · intro hm
      obtain ⟨e', he', heq⟩ := List.mem_map.mp hm
      exact rowOfLiability_injOn h (Hamilton.mem_of_mem_winners he') he heq ▸ he'
    · exact fun hm => List.mem_map_of_mem hm
  unfold share
  rw [ht]
  by_cases h0 : liabilityTotal rows = 0
  · rw [if_pos h0, if_pos h0]
  · rw [if_neg h0, if_neg h0]
    have hr : (ranking available (liabilityTotal rows) ((orderedRows rows).map rowOfLiability)).take
        (dustOf available (liabilityTotal rows) ((orderedRows rows).map rowOfLiability)).toNat
        = Hamilton.winners (fun a b : Row => leBytes a.orderKey b.orderKey) available Row.weight
          ((orderedRows rows).map rowOfLiability) := by
      rw [← ht]
      rfl
    rw [hr, ← hwinners]
    unfold Hamilton.share floorShare
    rw [weight_rowOfLiability h he]
    by_cases hm : e ∈ Hamilton.winners bytesLe available Prod.snd rows
    · rw [if_pos hm, if_pos (hmem.mpr hm)]
      rfl
    · rw [if_neg hm, if_neg (mt hmem.mp hm)]
      rfl

theorem mem_rows (policyId : String) {e : Liability} (he : e ∈ rows) :
    rowOfLiability e ∈ (normalizedRequest ha h policyId).rows := by
  rw [rows_normalizedRequest]
  exact List.mem_map_of_mem ((orderedRows_perm rows).mem_iff.mpr he)

/-- below the total, a unit only reaches rows that are not constrained -/
theorem reach_uncapped {policyId : String} (h0 : liabilityTotal rows ≠ 0)
    (hlt : available < liabilityTotal rows) :
    ∀ row ∈ (normalizedRequest ha h policyId).unitsReach,
      row ∈ (normalizedRequest ha h policyId).uncapped := by
  intro row hrow
  have ht := weightTotal_normalizedRequest ha h policyId
  have hpos := remainder_pos_of_mem_take (by rw [ht]; exact h0) hrow
  have hmem : row ∈ (normalizedRequest ha h policyId).rows :=
    (ranking_perm _ _ _).mem_iff.mp (List.mem_of_mem_take hrow)
  obtain ⟨e, he, rfl⟩ := List.mem_map.mp (rows_normalizedRequest ha h policyId ▸ hmem)
  have he' := (orderedRows_perm rows).mem_iff.mp he
  have hw : 0 < (rowOfLiability e).weight := by
    by_contra hle
    have hz : (rowOfLiability e).weight = 0 := le_antisymm (not_lt.mp hle) (rowOfLiability e).weight_nonneg
    unfold remainder at hpos
    rw [hz, mul_zero, Int.zero_emod] at hpos
    exact absurd hpos (lt_irrefl 0)
  refine List.mem_filter.mpr ⟨hmem, decide_eq_true ?_⟩
  show available * (rowOfLiability e).weight < (rowOfLiability e).effectiveCap
    * weightTotal (normalizedRequest ha h policyId).rows
  rw [ht, effectiveCap_rowOfLiability h he']
  rw [weight_rowOfLiability h he'] at hw ⊢
  rw [mul_comm e.2]
  exact mul_lt_mul_of_pos_right hlt hw

open Allocate in
theorem allocatedOf_eq_award (policyId : String) {e : Liability} (he : e ∈ rows) :
    allocatedOf (normalizedRequest ha h policyId) (rowOfLiability e) = award available rows e := by
  have hrow := mem_rows ha h policyId he
  have ht := weightTotal_normalizedRequest ha h policyId
  have he0 := h.nonneg e he
  rw [allocated_unallocated rfl hrow]
  unfold award
  by_cases h0 : liabilityTotal rows = 0
  · have hz : allocationWeight (normalizedRequest ha h policyId) = 0 := by
      rw [allocationWeight_unallocated rfl, ht, h0]
    rw [if_pos h0, constrained_zero_weight (by rw [ht, h0]), floorOf_zero hz,
      awardedRows_zero (units_zero hz)]
    simp
  · have hW : weightTotal (normalizedRequest ha h policyId).rows ≠ 0 := by rw [ht]; exact h0
    have hpos : 0 < (rows.map Prod.snd).sum :=
      lt_of_le_of_ne h.total_nonneg (Ne.symm h0)
    have hcap := effectiveCap_rowOfLiability h he
    rw [if_neg h0]
    by_cases hc : rowOfLiability e ∈ constrained (normalizedRequest ha h policyId)
    · rw [if_pos hc, hcap]
      rw [mem_constrained rfl hW hrow, hcap, ht, weight_rowOfLiability h he] at hc
      -- an id without liability, or enough for all
      rcases he0.eq_or_lt with hzero | hlt
      · have hfloor : floorShare available (rows.map Prod.snd).sum Prod.snd e
            ≤ Hamilton.share bytesLe available Prod.snd rows e := Hamilton.floorShare_le_share e
        have hz : floorShare available (rows.map Prod.snd).sum Prod.snd e = 0 := by
          unfold floorShare
          rw [← hzero, mul_zero, Int.zero_ediv]
        rw [← hzero]
        omega
      · have hle : liabilityTotal rows ≤ available := by
          rw [mul_comm] at hc
          exact le_of_mul_le_mul_right hc hlt
        exact (min_eq_left (Hamilton.weight_le_share hpos hle he0)).symm
    · rw [if_neg hc]
      have hlt : available < liabilityTotal rows := by
        rw [mem_constrained rfl hW hrow, hcap, ht, weight_rowOfLiability h he, not_le] at hc
        by_contra hge
        have hle : e.2 * liabilityTotal rows ≤ e.2 * available :=
          mul_le_mul_of_nonneg_left (not_lt.mp hge) he0
        have hc' : available * e.2 < e.2 * liabilityTotal rows := hc
        rw [mul_comm available] at hc'
        omega
      have hactive : rowOfLiability e ∈ allocationActive (normalizedRequest ha h policyId) :=
        (mem_active_unallocated rfl hrow).mpr hc
      have htruthy : (rowOfLiability e).rowId.truthy = true := rfl
      have hshare := share_unallocated rfl hW (rowOfLiability e)
      rw [if_pos ⟨htruthy, hactive⟩, awardedRows_eq_reach rfl hW rfl (reach_uncapped ha h h0 hlt),
        ← hshare, rows_normalizedRequest]
      show share available _ _ = _
      rw [share_rowOfLiability ha h he, if_neg h0]
      exact (min_eq_right (Hamilton.share_le_weight hpos hlt he0)).symm

include ha h in
open Allocate in
/-- **The call succeeds, and gives each row its award.** -/
theorem divide_eq (sha256 : ByteString → String) (policyId : String) : ∃ root,
    divide sha256 policyId available rows
      = .ok ((orderedRows rows).map fun e => (e.1, award available rows e), root) := by
  have hok := (allocate_ok_iff sha256 (normalizeRequest_division ha h policyId) _).mpr
    ⟨seen_unallocated rfl, rfl⟩
  refine ⟨_, (congrArg (Except.map _) hok).trans (congrArg Except.ok (Prod.ext ?_ rfl))⟩
  show (((normalizedRequest ha h policyId).rows.map
    (finalRow (normalizedRequest ha h policyId))).filterMap _) = _
  rw [rows_normalizedRequest, List.map_map, List.filterMap_map]
  rw [← List.filterMap_eq_map]
  refine List.filterMap_congr fun e he => ?_
  have he' := (orderedRows_perm rows).mem_iff.mp he
  show (match (finalRow (normalizedRequest ha h policyId) (rowOfLiability e)).rowId with
    | .str id => some (id, (finalRow (normalizedRequest ha h policyId) (rowOfLiability e)).allocated)
    | _ => none) = _
  rw [finalRow_rowId, finalRow_allocated, allocatedOf_eq_award ha h policyId he']
  rfl

/-! ## bounds -/

include h in
theorem award_le {e : Liability} (he : e ∈ rows) : award available rows e ≤ e.2 := by
  unfold award
  by_cases h0 : liabilityTotal rows = 0
  · rw [if_pos h0]
    exact h.nonneg e he
  · rw [if_neg h0]
    exact min_le_left _ _

include ha h in
theorem award_nonneg {e : Liability} (he : e ∈ rows) : 0 ≤ award available rows e := by
  unfold award
  by_cases h0 : liabilityTotal rows = 0
  · rw [if_pos h0]
  · rw [if_neg h0]
    have hpos : 0 < (rows.map Prod.snd).sum := lt_of_le_of_ne h.total_nonneg (Ne.symm h0)
    have hfloor : 0 ≤ floorShare available (rows.map Prod.snd).sum Prod.snd e :=
      floorShare_nonneg available Prod.snd ha hpos (h.nonneg e he)
    exact le_min (h.nonneg e he) (hfloor.trans (Hamilton.floorShare_le_share e))

end

end PRF.Economics.Shortfall
