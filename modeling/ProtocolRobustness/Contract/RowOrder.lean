import ProtocolRobustness.Canonical.Injective
import ProtocolRobustness.Contract.Outcome

/-!
# The order in which rows are supplied

Every part of an allocation is computed from the normalized request, and normalization sorts the
rows by the bytes of their ids.

* `Accepted`, `normalizeRequest_ok_iff`   what an accepted request satisfies, and what it becomes;
* `normalizeRequest_perm`                 two orders of the rows of one request normalize alike;
* `allocate_perm`                         so they have one result.
-/

namespace PRF
open Bytes Fallible

/-! ## accepted requests -/

structure Accepted (v : Value) (rows : List Value) (normalized : List Row) (q : Request) : Prop where
  supplied : vecOf (v.get (key "rows")) = .ok rows
  keys : ∃ keys, keysOf v = .ok keys ∧ sameKeys requiredFields keys = true
  schema : v.get (key "schema-version") = .str "pro-rata-allocation-request.v1"
  version : v.get (nsKey "mechanism" "version") = .int 1
  available : v.get (key "available") = .int q.available
  tieBreak : v.get (key "tie-break-policy") = (key "canonical-row-id").value
  rounding : roundingOf (v.get (key "rounding-policy")) = some q.roundingPolicy
  redistribution :
    redistributionOf (v.get (key "redistribution-policy")) = some q.redistributionPolicy
  checked : rows.forM checkRow = .ok ()
  distinct : (rows.map fun row => row.get (nsKey "row" "id")).Nodup
  converted : rows.mapM normalizeRow = .ok normalized
  nodup : (normalized.map Row.rowId).Nodup
  sorted : q.rows = normalized.insertionSort (byKey Row.orderKey)
  allocationId : q.allocationId = v.get (nsKey "allocation" "id")

theorem bigintOf_eq_ok {v : Value} {n : {n : ℤ // 0 ≤ n}} :
    bigintOf v = .ok n ↔ v = .int n.1 := by
  obtain ⟨n, hn⟩ := n
  cases v with
  | int m =>
    by_cases h : 0 ≤ m
    · simp [bigintOf, h]
    · refine iff_of_false (by simp [bigintOf, h]) fun he => h ?_
      rw [Value.int.inj he]
      exact hn
  | null => exact iff_of_false nofun nofun
  | bool => exact iff_of_false nofun nofun
  | str => exact iff_of_false nofun nofun
  | kw => exact iff_of_false nofun nofun
  | vec => exact iff_of_false nofun nofun
  | map => exact iff_of_false nofun nofun

theorem normalizeRequest_ok_iff {v : Value} {q : Request} :
    normalizeRequest v = .ok q ↔ ∃ rows normalized, Accepted v rows normalized q := by
  unfold normalizeRequest
  simp only [bind_eq_ok, whenNot_eq_ok, orError_eq_ok, bigintOf_eq_ok, exists_const,
    decide_eq_true_eq]
  constructor
  · rintro ⟨rows, hrows, keys, hkeys, hk, hs, hv, _, ht, rp, hrp, dp, hdp, ⟨⟩, hc, hd, a, ha, n, hn, h⟩
    split at h
    · next hnd =>
      obtain rfl := Except.ok.inj h
      exact ⟨rows, n, hrows, ⟨keys, hkeys, hk⟩, hs, hv, ha, ht, hrp, hdp, hc, hd, hn, hnd, rfl, rfl⟩
    · cases h
  · rintro ⟨rows, n, h⟩
    obtain ⟨keys, hkeys, hk⟩ := h.keys
    have hnn : nonNegativeInteger (v.get (key "available")) = true := by
      rw [h.available]
      exact decide_eq_true q.available_nonneg
    refine ⟨rows, h.supplied, keys, hkeys, hk, h.schema, h.version, hnn, h.tieBreak, _, h.rounding, _,
      h.redistribution, ⟨⟩, h.checked, h.distinct, ⟨_, q.available_nonneg⟩, h.available, n,
      h.converted, ?_⟩
    rw [dif_pos h.nodup]
    refine congrArg Except.ok (Request.ext ?_ rfl ?_ rfl rfl)
    · exact h.allocationId.symm
    · exact h.sorted.symm

/-! ## replacing the rows of a request -/

theorem keysOf_eq_ok {v : Value} {ks : List Key} (h : keysOf v = .ok ks) (hk : ks ≠ []) :
    ∃ es, v = .map es ∧ ks = es.map Prod.fst := by
  cases v with
  | map es => exact ⟨es, rfl, (Except.ok.inj h).symm⟩
  | null => exact absurd (Except.ok.inj h).symm hk
  | vec xs =>
    cases xs with
    | nil => exact absurd (Except.ok.inj h).symm hk
    | cons x xs => cases h
  | str s =>
    simp only [keysOf] at h
    split at h
    · exact absurd (Except.ok.inj h).symm hk
    · cases h
  | bool b => cases h
  | int n => cases h
  | kw k => cases h

theorem sameKeys_mem {ks ls : List Key} (h : sameKeys ks ls = true) {k : Key} (hk : k ∈ ks) :
    k ∈ ls := by
  unfold sameKeys at h
  rw [Bool.and_eq_true, List.all_eq_true] at h
  exact List.contains_iff_mem.mp (h.1 k hk)

section
variable {es : List (Key × Value)} {k : Key} (hk : k ∈ es.map Prod.fst) (x : Value)
include hk

theorem assoc_present : (Value.map es).assoc k x
    = .map (es.map fun e => if e.1 = k then (k, x) else e) := by
  obtain ⟨e, he, hek⟩ := List.mem_map.mp hk
  show (if _ then _ else _) = _
  exact if_pos (List.any_eq_true.mpr ⟨e, he, by simpa using hek⟩)

theorem keys_assoc : keysOf ((Value.map es).assoc k x) = keysOf (.map es) := by
  rw [assoc_present hk]
  simp only [keysOf, List.map_map]
  refine congrArg Except.ok (List.map_congr_left fun e _ => ?_)
  by_cases he : e.1 = k <;> simp [he]

theorem get_assoc (k' : Key) :
    ((Value.map es).assoc k x).get k' = if k = k' then x else (Value.map es).get k' := by
  have hcomp : ((fun e : Key × Value => decide (e.1 = k')) ∘ fun e => if e.1 = k then (k, x) else e)
      = fun e => decide (e.1 = k') := by
    funext e
    by_cases he : e.1 = k <;> simp [he]
  rw [assoc_present hk]
  simp only [Value.get]
  rw [List.find?_map, hcomp]
  cases hf : es.find? fun e => decide (e.1 = k') with
  | none =>
    have hne : k ≠ k' := by
      rintro rfl
      obtain ⟨e, he, hek⟩ := List.mem_map.mp hk
      exact List.find?_eq_none.mp hf e he (by simpa using hek)
    simp [hne]
  | some e =>
    have hek : e.1 = k' := by simpa using List.find?_some hf
    by_cases hkk : k = k'
    · simp [hek, hkk]
    · simp [hek, hkk, Ne.symm hkk]

end

/-! ## rows in another order -/

theorem normalizeRow_rowId {row : Value} {r : Row} (h : normalizeRow row = .ok r) :
    r.rowId = row.get (nsKey "row" "id") := by
  unfold normalizeRow at h
  simp only [bind_eq_ok] at h
  obtain ⟨_, _, _, _, _, _, hr⟩ := h
  exact (Except.ok.inj hr) ▸ rfl

theorem orderKey_injective {rows : List Value} {normalized : List Row}
    (hm : rows.mapM normalizeRow = .ok normalized) (hnd : (normalized.map Row.rowId).Nodup)
    (hn : ∀ row ∈ rows, Normal (row.get (nsKey "row" "id"))) :
    ∀ a ∈ normalized, ∀ b ∈ normalized, a.orderKey = b.orderKey → a = b := by
  have hnormal : ∀ a ∈ normalized, Normal a.rowId := by
    intro a ha
    obtain ⟨row, hrow, hr⟩ := exists_of_mem_right (mapM_ok_iff.mp hm) ha
    rw [normalizeRow_rowId hr]
    exact hn row hrow
  intro a ha b hb hab
  have hid : a.rowId = b.rowId := canonicalBytes_injective (hnormal a ha) (hnormal b hb) hab
  exact List.inj_on_of_nodup_map hnd ha hb hid

/-- **Two orders of the rows normalize to one request.** -/
theorem normalizeRequest_perm {v : Value} {rows rows' : List Value} {q : Request}
    (h : normalizeRequest v = .ok q) (hrows : vecOf (v.get (key "rows")) = .ok rows)
    (hn : ∀ row ∈ rows, Normal (row.get (nsKey "row" "id"))) (hp : rows.Perm rows') :
    normalizeRequest (v.assoc (key "rows") (.vec rows')) = .ok q := by
  obtain ⟨rows₀, normalized, ha⟩ := normalizeRequest_ok_iff.mp h
  have e : rows₀ = rows := Except.ok.inj (ha.supplied.symm.trans hrows)
  subst e
  obtain ⟨ks, hks, hsame⟩ := ha.keys
  have hmem : key "rows" ∈ ks := sameKeys_mem hsame (by decide)
  obtain ⟨es, rfl, rfl⟩ := keysOf_eq_ok hks (List.ne_nil_of_mem hmem)
  have hget : ∀ k, key "rows" ≠ k →
      ((Value.map es).assoc (key "rows") (.vec rows')).get k = (Value.map es).get k := fun k hk => by
    rw [get_assoc hmem, if_neg hk]
  obtain ⟨normalized', hf, hperm⟩ := List.perm_comp_forall₂ hp.symm (mapM_ok_iff.mp ha.converted)
  refine normalizeRequest_ok_iff.mpr ⟨rows', normalized', ?_⟩
  exact
    { supplied := by rw [get_assoc hmem, if_pos rfl]; rfl
      keys := ⟨_, keys_assoc hmem _, hsame⟩
      schema := (hget _ (by decide)).trans ha.schema
      version := (hget _ (by decide)).trans ha.version
      available := (hget _ (by decide)).trans ha.available
      tieBreak := (hget _ (by decide)).trans ha.tieBreak
      rounding := by rw [hget _ (by decide)]; exact ha.rounding
      redistribution := by rw [hget _ (by decide)]; exact ha.redistribution
      checked := forM_ok_iff.mpr fun row hrow =>
        forM_ok_iff.mp ha.checked row (hp.mem_iff.mpr hrow)
      distinct := (hp.map _).nodup_iff.mp ha.distinct
      converted := mapM_ok_iff.mpr hf
      nodup := (hperm.map _).nodup_iff.mpr ha.nodup
      sorted := by
        rw [ha.sorted]
        exact sort_unique Row.orderKey hperm.symm (orderKey_injective ha.converted ha.nodup hn)
      allocationId := by rw [hget _ (by decide)]; exact ha.allocationId }

/-- **The result does not depend on the order of the rows.** -/
theorem allocate_perm (sha256 : ByteString → String) {v : Value} {rows rows' : List Value}
    {q : Request} (h : normalizeRequest v = .ok q)
    (hrows : vecOf (v.get (key "rows")) = .ok rows)
    (hn : ∀ row ∈ rows, Normal (row.get (nsKey "row" "id"))) (hp : rows.Perm rows') :
    allocate sha256 (v.assoc (key "rows") (.vec rows')) = allocate sha256 v := by
  show (normalizeRequest _ >>= _) = (normalizeRequest _ >>= _)
  rw [normalizeRequest_perm h hrows hn hp, h]

theorem allocate_perm_swap :
    let a := rowOf (.str "a") 4 2
    let b := rowOf (.vec [.int 7, .null]) 9 1
    let v := requestOf 5 [a, b] (key "largest-remainder") (key "unallocated")
    allocate (fun _ => "") (v.assoc (key "rows") (.vec [b, a])) = allocate (fun _ => "") v := by
  intro a b v
  obtain ⟨q, hq⟩ := exists_ok (x := normalizeRequest v) (by decide +kernel)
  refine allocate_perm (fun _ => "") hq rfl ?_ (List.Perm.swap b a [])
  have ha : Normal (.str "a") := .str "a"
  have hb : Normal (.vec [.int 7, .null]) :=
    .vec (List.forall_mem_cons.mpr ⟨.int 7, List.forall_mem_cons.mpr ⟨.null, nofun⟩⟩)
  exact List.forall_mem_cons.mpr ⟨ha, List.forall_mem_cons.mpr ⟨hb, nofun⟩⟩

end PRF
