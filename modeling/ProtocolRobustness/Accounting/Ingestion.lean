import ProtocolRobustness.Accounting.Folds

/-!
# Requests, plans and ingestion

What the accepted artifacts of an accounting reduction are like.

* `buildRequest_spec`         the sources of a request have distinct roots;
* `buildPartitionPlan_spec`   the units of a plan share the source roots of the request out;
* `roots_nodup`               the units of a plan have roots of their own;
* `validPartialResult_spec`   a valid partial holds the values of its unit;
* `buildPartialResult_valid`  what the constructor makes is valid;
* `ingest_spec`               the first partial of each unit is the one that stays.
-/

namespace PRF.Accounting
open LongArith CheckedSum Fallible

theorem whenNot_eq_ok {test : Bool} {failure : Failure} {u : Unit} :
    whenNot test failure = .ok u ↔ test = true := by
  unfold whenNot
  cases test <;> simp

theorem whenNot_bind {α : Type} {test : Bool} (h : test = true) {failure : Failure}
    {k : Unit → Except Failure α} : whenNot test failure >>= k = k () := by
  rw [h]
  rfl

theorem ok_bind {α β : Type} (a : α) (k : α → Except Failure β) : Except.ok a >>= k = k a := rfl

theorem sameSet_iff {xs ys : List String} : sameSet xs ys = true ↔ ∀ x, x ∈ xs ↔ x ∈ ys := by
  unfold sameSet
  rw [Bool.and_eq_true, List.all_eq_true, List.all_eq_true]
  simp only [decide_eq_true_iff]
  exact ⟨fun h x => ⟨h.1 x, h.2 x⟩, fun h => ⟨fun x => (h x).mp, fun x => (h x).mpr⟩⟩

theorem sortedSet_perm {xs : List String} (h : xs.Nodup) : (sortedSet xs).Perm xs := by
  unfold sortedSet
  rw [h.dedup]
  exact List.perm_insertionSort _ xs

section
variable {digest : String → Value → String} {isRef : String → Bool}

/-! ## requests and plans -/

theorem buildRequest_spec {input : RequestInput} {r : Request}
    (h : buildRequest digest isRef input = .ok r) : r.sourceRoots.Nodup ∧
      r.contractRoot = input.reductionContract.root ∧
      validReductionContract digest input.reductionContract = true := by
  obtain ⟨u, htest, h⟩ := bind_eq_ok.mp h
  rw [whenNot_eq_ok] at htest
  simp only [Bool.and_eq_true] at htest
  obtain ⟨⟨⟨⟨⟨_, _⟩, hcontract⟩, _⟩, _⟩, hnodup⟩ := htest
  obtain rfl := Except.ok.inj h
  exact ⟨of_decide_eq_true hnodup, rfl, hcontract⟩

variable {r : Request} {partitions : List (List String)} {q : Requirements} {plan : Plan}

theorem buildPartitionPlan_spec (hr : r.sourceRoots.Nodup)
    (h : buildPartitionPlan digest isRef r partitions q = .ok plan) :
    plan.requestRoot = r.root ∧ plan.contractRoot = r.contractRoot ∧
      plan.root = partitionPlanRoot digest plan ∧
      (plan.workUnits.flatMap WorkUnit.sourceRoots).Perm r.sourceRoots ∧
      (∀ u ∈ plan.workUnits, u.root = workUnitRoot digest u) ∧
      (plan.workUnits.map WorkUnit.index).Nodup := by
  obtain ⟨_, htest, h⟩ := bind_eq_ok.mp h
  rw [whenNot_eq_ok] at htest
  simp only [Bool.and_eq_true] at htest
  obtain ⟨⟨⟨⟨⟨⟨⟨_, hset⟩, hnodup⟩, _⟩, _⟩, _⟩, _⟩, _⟩ := htest
  obtain rfl := Except.ok.inj h
  have hperm : (partitions.map (·.insertionSort notAfter)).flatten.Perm r.sourceRoots := by
    rw [List.perm_ext_iff_of_nodup (of_decide_eq_true hnodup) hr]
    exact fun x => (sameSet_iff.mp hset x).symm
  refine ⟨rfl, rfl, rfl, ?_, ?_, ?_⟩
  · refine List.Perm.trans ?_ hperm
    generalize partitions.map (·.insertionSort notAfter) = parts
    have hunits : (parts.mapIdx fun i p => buildWorkUnit digest r i p q).flatMap
        WorkUnit.sourceRoots = parts.flatMap (·.insertionSort notAfter) := by
      rw [List.mapIdx_eq_zipIdx_map, List.flatMap_map]
      conv_rhs => rw [← List.zipIdx_map_fst 0 parts, List.flatMap_map]
      rfl
    rw [hunits, List.flatten_eq_flatMap]
    exact List.Perm.flatMap (List.Perm.refl _) fun p _ => List.perm_insertionSort _ p
  · intro u hu
    obtain ⟨i, hi, rfl⟩ := List.mem_mapIdx.mp hu
    rfl
  · show (List.map _ (List.mapIdx _ _)).Nodup
    rw [List.mapIdx_eq_zipIdx_map, List.map_map]
    show (List.map Prod.snd _).Nodup
    rw [List.zipIdx_map_snd]
    exact List.nodup_range'

theorem roots_nodup (hindex : (plan.workUnits.map WorkUnit.index).Nodup)
    (hroot : ∀ u ∈ plan.workUnits, u.root = workUnitRoot digest u)
    (hdigest : ∀ u ∈ plan.workUnits, ∀ v ∈ plan.workUnits,
      workUnitRoot digest u = workUnitRoot digest v → u.body = v.body) :
    (plan.workUnits.map WorkUnit.root).Nodup := by
  refine hindex.of_map.map_on (fun u hu v hv huv => ?_)
  rw [hroot u hu, hroot v hv] at huv
  have hbody := hdigest u hu v hv huv
  have hi : u.index = v.index := by
    simp only [WorkUnit.body, List.cons.injEq, Prod.mk.injEq, Value.int.injEq] at hbody
    exact Int.ofNat_inj.mp hbody.2.2.2.1.2
  exact List.inj_on_of_nodup_map hindex hu hv hi

/-! ## partials -/

variable {u : WorkUnit} {p : PartialResult}

theorem validPartialResult_spec (hr : r.sourceRoots.Nodup)
    (hu : ∀ root ∈ u.sourceRoots, root ∈ r.sourceRoots)
    (h : validPartialResult digest isRef r u p = .ok true) :
    u.root = p.workUnitRoot ∧ u.sourceRoots = p.sourceRoots ∧
      Agree p.values.entries (entriesOf r p.sourceRoots) := by
  unfold validPartialResult at h
  split at h
  · next htest =>
    obtain ⟨_, _, _, hroot, _, hsources, _⟩ := htest
    obtain ⟨m, hm, h⟩ := bind_eq_ok.mp h
    have hsame := Except.ok.inj h
    simp only [Bool.and_eq_true] at hsame
    rw [partialValues_eq hr hu] at hm
    have hagree := update_follows.agree hm
    have hvalues := Totals.same_iff.mp hsame.1.1.1
    refine ⟨hroot, hsources, hsources ▸ ?_⟩
    exact agree_iff.mpr fun k =>
      (agree_iff.mp hvalues k).symm.trans (agree_iff.mp hagree k)
  · cases h

/-- what `buildPartialResult` makes under the constraints of the unit is valid for it -/
theorem buildPartialResult_valid {values : Totals} {x : Execution}
    (h : buildPartialResult digest isRef r u values x = .ok p)
    (himplementation : x.implementationRoot ∈ u.allowedImplementationRoots)
    (hdependencies : u.dependencySetRoot = x.dependencySetRoot)
    (henvironment : u.executionEnvironmentRoot = x.executionEnvironmentRoot) :
    validPartialResult digest isRef r u p = .ok true ∧ u.root = p.workUnitRoot := by
  obtain ⟨expected, hexpected, h⟩ := bind_eq_ok.mp h
  obtain ⟨_, htest, h⟩ := bind_eq_ok.mp h
  rw [whenNot_eq_ok] at htest
  simp only [Bool.and_eq_true, decide_eq_true_iff] at htest
  obtain ⟨⟨⟨hroot, hsame⟩, hkeys⟩, hrefs⟩ := htest
  obtain rfl := Except.ok.inj h
  have hsame' : expected.same values = true :=
    decide_eq_true (of_decide_eq_true hsame).symm
  unfold validPartialResult
  rw [if_pos ⟨rfl, hroot, hroot.symm, rfl, rfl, rfl, himplementation, hdependencies, henvironment⟩,
    hexpected, ok_bind, hsame', hkeys]
  refine ⟨?_, rfl⟩
  show Except.ok (_ && _) = _
  rw [Bool.true_and, Bool.true_and, hrefs]
  exact congrArg Except.ok (decide_eq_true rfl)

/-! ## ingestion -/

/-- the partial that stays for a unit -/
def firstOf (ps : List PartialResult) (unitRoot : String) : Option PartialResult :=
  ps.find? fun p => p.workUnitRoot = unitRoot

theorem ingestPartial_ok {i : Ingestion} {ps : List PartialResult}
    (hi : ∀ root, i.find root = firstOf ps root)
    (hrep : ∀ q ∈ ps, q.workUnitRoot = p.workUnitRoot → q.root = p.root) :
    ∃ j, ingestPartial i p = .ok j ∧ ∀ root, j.find root = firstOf (ps ++ [p]) root := by
  have happ : ∀ root, firstOf (ps ++ [p]) root = (firstOf ps root).or (firstOf [p] root) :=
    fun root => List.find?_append
  unfold ingestPartial
  cases hf : i.find p.workUnitRoot with
  | none =>
    refine ⟨i.assoc p.workUnitRoot p, rfl, fun root => ?_⟩
    show Table.find (Table.put i.entries p.workUnitRoot p) root = _
    rw [Table.find_put, happ, ← hi]
    by_cases hroot : p.workUnitRoot = root
    · subst hroot
      rw [if_pos rfl, hf]
      simp [firstOf]
    · rw [if_neg hroot]
      have hnone : firstOf [p] root = none := by simp [firstOf, hroot]
      rw [hnone, Option.or_none]
      rfl
  | some existing =>
    have hfirst : firstOf ps p.workUnitRoot = some existing := (hi _).symm.trans hf
    have hmem : existing ∈ ps := List.mem_of_find?_eq_some hfirst
    have hunit : existing.workUnitRoot = p.workUnitRoot := by
      simpa using List.find?_some hfirst
    refine ⟨i, if_pos (hrep existing hmem hunit), fun root => ?_⟩
    rw [happ, hi]
    by_cases hroot : p.workUnitRoot = root
    · subst hroot
      rw [hfirst]
      rfl
    · have hnone : firstOf [p] root = none := by simp [firstOf, hroot]
      rw [hnone, Option.or_none]

/-- **Ingestion keeps the first partial of each unit**, when no two of them differ. -/
theorem ingest_spec {ps : List PartialResult}
    (hrep : ∀ p ∈ ps, ∀ q ∈ ps, p.workUnitRoot = q.workUnitRoot → p.root = q.root) :
    ∃ i, ingest ps = .ok i ∧ ∀ root, i.find root = firstOf ps root := by
  induction ps using List.reverseRecOn with
  | nil => exact ⟨.empty, rfl, fun root => rfl⟩
  | append_singleton ps p ih =>
    obtain ⟨i, hi, hfind⟩ := ih fun a ha b hb =>
      hrep a (List.mem_append_left _ ha) b (List.mem_append_left _ hb)
    obtain ⟨j, hj, hfind'⟩ := ingestPartial_ok hfind fun a ha =>
      hrep a (List.mem_append_left _ ha) p (List.mem_append_right _ (List.mem_singleton_self p))
    refine ⟨j, ?_, hfind'⟩
    show List.foldlM ingestPartial .empty (ps ++ [p]) = _
    rw [List.foldlM_append]
    show (ingest ps >>= _) = _
    rw [hi]
    show (ingestPartial i p >>= _) = _
    rw [hj]
    rfl

theorem mem_keys_iff {i : Ingestion} {root : String} : root ∈ i.keys ↔ ∃ p, i.find root = some p := by
  rw [← Option.ne_none_iff_exists', Ne, Ingestion.find, Table.find_eq_none_iff, not_not]
  rfl

end

end PRF.Accounting
