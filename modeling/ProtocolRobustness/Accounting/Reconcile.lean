import ProtocolRobustness.Accounting.Ingestion
import ProtocolRobustness.Effects.Transition

/-!
# Reconciliation and the serial fold

When the merged partials of a plan give what the serial fold of the request gives.

* `reconcile_eq`           with one valid partial for each unit, reconciliation comes down to the
                           merge, the serial fold and their comparison;
* `Reconciles`             it succeeds with the serial values, every source once and a result root
                           that the request alone determines;
* `reconcile_serial_iff`   it does exactly when neither sum overflows on its way.
-/

namespace PRF.Accounting
open LongArith CheckedSum Fallible

/-- the partials of a plan in the order of their merge -/
def partialsOf (plan : Plan) (ps : List PartialResult) : List PartialResult :=
  (sortedSet (plan.workUnits.map WorkUnit.root)).filterMap (firstOf ps)

def mergedEntries (plan : Plan) (ps : List PartialResult) : List (Keyword × HostInt) :=
  (partialsOf plan ps).flatMap fun p => p.values.entries

/-- the partials are ingested and reconciled with the serial values, every source is counted once,
and the root of the result is that of the serial values -/
def Reconciles (digest : String → Value → String) (isRef : String → Bool) (r : Request)
    (contract : ReductionContract) (plan : Plan) (ps : List PartialResult) : Prop :=
  ∃ ingestion artifact serial, ingest ps = .ok ingestion ∧
    reconcile digest isRef r contract plan ingestion = .ok artifact ∧
    serialValues r = .ok serial ∧ serial.same artifact.values = true ∧
    artifact.sourceRoots.Nodup ∧ (∀ root, root ∈ artifact.sourceRoots ↔ root ∈ r.sourceRoots) ∧
    artifact.canonicalResultRoot = canonicalResultRoot digest r.root serial

/-- one valid partial after the other for the units of a plan, none of them left out -/
structure Supplied (digest : String → Value → String) (isRef : String → Bool) (r : Request)
    (plan : Plan) (ps : List PartialResult) : Prop where
  valid : ∀ p ∈ ps, ∃ u ∈ plan.workUnits, validPartialResult digest isRef r u p = .ok true
  complete : ∀ u ∈ plan.workUnits, ∃ p ∈ ps, p.workUnitRoot = u.root
  repetitions : ∀ p ∈ ps, ∀ q ∈ ps, p.workUnitRoot = q.workUnitRoot → p.root = q.root

section
variable {digest : String → Value → String} {isRef : String → Bool} {r : Request} {plan : Plan}
  {ps : List PartialResult}

theorem covered (hcover : (plan.workUnits.flatMap WorkUnit.sourceRoots).Perm r.sourceRoots)
    {u : WorkUnit} (hu : u ∈ plan.workUnits) :
    ∀ root ∈ u.sourceRoots, root ∈ r.sourceRoots := fun _ h =>
  hcover.mem_iff.mp (List.mem_flatMap.mpr ⟨u, hu, h⟩)

section
variable (hr : r.sourceRoots.Nodup)
  (hcover : (plan.workUnits.flatMap WorkUnit.sourceRoots).Perm r.sourceRoots)
  (hroots : (plan.workUnits.map WorkUnit.root).Nodup)
  (hs : Supplied digest isRef r plan ps)
include hr hcover hroots hs

theorem first_of_unit {u : WorkUnit} (hu : u ∈ plan.workUnits) :
    ∃ p ∈ ps, firstOf ps u.root = some p ∧ p.workUnitRoot = u.root ∧
      validPartialResult digest isRef r u p = .ok true := by
  obtain ⟨q, hq, hqu⟩ := hs.complete u hu
  have hsome : (firstOf ps u.root).isSome := by
    unfold firstOf
    rw [List.find?_isSome]
    exact ⟨q, hq, by simpa using hqu⟩
  obtain ⟨p, hp⟩ := Option.isSome_iff_exists.mp hsome
  have hmem : p ∈ ps := List.mem_of_find?_eq_some hp
  have hroot : p.workUnitRoot = u.root := by simpa using List.find?_some hp
  obtain ⟨v, hv, hvalid⟩ := hs.valid p hmem
  have hvp := (validPartialResult_spec hr (covered hcover hv) hvalid).1
  obtain rfl : v = u := List.inj_on_of_nodup_map hroots hv hu (hvp.trans hroot)
  exact ⟨p, hmem, hp, hroot, hvalid⟩

theorem mem_partialsOf {p : PartialResult} (hp : p ∈ partialsOf plan ps) :
    ∃ u ∈ plan.workUnits, p.workUnitRoot = u.root ∧
      validPartialResult digest isRef r u p = .ok true := by
  obtain ⟨root, hroot, hp⟩ := List.mem_filterMap.mp hp
  rw [(sortedSet_perm hroots).mem_iff] at hroot
  obtain ⟨u, hu, rfl⟩ := List.mem_map.mp hroot
  obtain ⟨q, _, hq, hqu, hvalid⟩ := first_of_unit hr hcover hroots hs hu
  obtain rfl := Option.some.inj (hp.symm.trans hq)
  exact ⟨u, hu, hqu, hvalid⟩

theorem sourceRoots_perm :
    ((partialsOf plan ps).flatMap PartialResult.sourceRoots).Perm r.sourceRoots := by
  refine List.Perm.trans ?_ hcover
  have hmerge : (partialsOf plan ps).Perm
      ((plan.workUnits.map WorkUnit.root).filterMap (firstOf ps)) :=
    (sortedSet_perm hroots).filterMap _
  refine (hmerge.flatMap_right _).trans (List.Perm.of_eq ?_)
  rw [List.flatMap, List.flatMap, List.map_filterMap, List.filterMap_map]
  congr 1
  refine (List.filterMap_congr fun u hu => ?_).trans (congrFun List.filterMap_eq_map plan.workUnits)
  obtain ⟨p, _, hp, _, hvalid⟩ := first_of_unit hr hcover hroots hs hu
  have hsources := (validPartialResult_spec hr (covered hcover hu) hvalid).2.1
  show (firstOf ps u.root).map PartialResult.sourceRoots = some u.sourceRoots
  rw [hp, Option.map_some, hsources]

/-- **The merged entries agree with those of the serial fold.** -/
theorem mergedEntries_agree : Agree (mergedEntries plan ps) (serialEntries r) := by
  have hpartials : Agree (mergedEntries plan ps)
      ((partialsOf plan ps).flatMap fun p => entriesOf r p.sourceRoots) := by
    refine Agree.flatMap fun p hp => ?_
    obtain ⟨u, hu, _, hvalid⟩ := mem_partialsOf hr hcover hroots hs hp
    exact (validPartialResult_spec hr (covered hcover hu) hvalid).2.2
  refine hpartials.trans ?_
  have hflat : ((partialsOf plan ps).flatMap fun p => entriesOf r p.sourceRoots)
      = entriesOf r ((partialsOf plan ps).flatMap PartialResult.sourceRoots) := by
    unfold entriesOf
    rw [List.filterMap_flatMap]
  rw [hflat]
  exact entriesOf_agree hr (sourceRoots_perm hr hcover hroots hs)

/-! ## the run -/

variable {contract : ReductionContract} {i : Ingestion}
  (hcontract : validReductionContract digest contract = true)
  (hrequest : plan.requestRoot = r.root) (hcr : r.contractRoot = contract.root)
  (hcp : plan.contractRoot = r.contractRoot) (hplan : plan.root = partitionPlanRoot digest plan)
  (hi : ∀ root, i.find root = firstOf ps root)

theorem keys_iff (hi : ∀ root, i.find root = firstOf ps root) (root : String) :
    root ∈ plan.workUnits.map WorkUnit.root ↔ root ∈ i.keys := by
  rw [mem_keys_iff, hi]
  constructor
  · intro h
    obtain ⟨u, hu, rfl⟩ := List.mem_map.mp h
    obtain ⟨p, _, hp, _⟩ := first_of_unit hr hcover hroots hs hu
    exact ⟨p, hp⟩
  · rintro ⟨p, hp⟩
    have hroot : p.workUnitRoot = root := by simpa using List.find?_some hp
    obtain ⟨u, hu, hvalid⟩ := hs.valid p (List.mem_of_find?_eq_some hp)
    have hvp := (validPartialResult_spec hr (covered hcover hu) hvalid).1
    exact List.mem_map.mpr ⟨u, hu, hvp.trans hroot⟩

theorem no_invalid : (partialsOf plan ps).mapM (invalidPartial digest isRef r
    (Table.into [] (plan.workUnits.map fun u => (u.root, u))))
      = .ok ((partialsOf plan ps).map fun _ => none) := by
  have hkeys : ((plan.workUnits.map fun u => (u.root, u)).map Prod.fst).Nodup := by
    rw [List.map_map]
    exact hroots
  rw [Table.into_fresh [] _ hkeys, List.nil_append]
  refine mapM_ok fun p hp => ?_
  obtain ⟨u, hu, hpu, hvalid⟩ := mem_partialsOf hr hcover hroots hs hp
  have hunit : Table.find (plan.workUnits.map fun u => (u.root, u)) p.workUnitRoot = some u :=
    hpu ▸ Table.find_of_mem hkeys (List.mem_map_of_mem hu)
  unfold invalidPartial
  rw [hunit]
  show (validPartialResult digest isRef r u p >>= _) = _
  rw [hvalid]
  rfl

include hcontract hrequest hcr hcp hplan hi

theorem reconcile_eq : reconcile digest isRef r contract plan i = do
    let values ← (mergedEntries plan ps).foldlM Totals.mergeEntry .empty
    let serial ← serialValues r
    whenNot (serial.same values) (.differs serial.listing values.listing)
    return reconciliation digest r contract plan (partialsOf plan ps) values := by
  have hkeys := keys_iff hr hcover hroots hs hi
  have hmissing : difference (plan.workUnits.map WorkUnit.root) i.keys = [] :=
    List.filter_eq_nil_iff.mpr fun root h => by simp [(hkeys root).mp h]
  have hextra : difference i.keys (plan.workUnits.map WorkUnit.root) = [] :=
    List.filter_eq_nil_iff.mpr fun root h => by simpa using (hkeys root).mpr h
  have hperm := sourceRoots_perm hr hcover hroots hs
  have hduplicates : repeated ((partialsOf plan ps).flatMap PartialResult.sourceRoots) = [] := by
    refine List.filter_eq_nil_iff.mpr fun root h => ?_
    have hcount := List.nodup_iff_count_le_one.mp (hperm.nodup_iff.mpr hr) root
    simpa using hcount
  have homitted : difference r.sourceRoots
      ((partialsOf plan ps).flatMap PartialResult.sourceRoots) = [] :=
    List.filter_eq_nil_iff.mpr fun root h => by
      have := hperm.mem_iff.mpr h
      simpa using this
  have hunexpected : difference ((partialsOf plan ps).flatMap PartialResult.sourceRoots)
      r.sourceRoots = [] :=
    List.filter_eq_nil_iff.mpr fun root h => by
      have := hperm.mem_iff.mp h
      simpa using this
  have hfind : i.find = firstOf ps := funext hi
  have hnone : ((partialsOf plan ps).map fun _ => (none : Option String)).reduceOption = [] := by
    induction partialsOf plan ps with
    | nil => rfl
    | cons p l ih => exact ih
  have hinvalid := no_invalid hr hcover hroots hs
  have hheader : (decide (r.root = plan.requestRoot) && decide (contract.root = r.contractRoot)
      && decide (r.contractRoot = plan.contractRoot)
      && decide (plan.root = partitionPlanRoot digest plan)) = true := by
    rw [hrequest, hcr, hcp, hcr, ← hplan]
    simp
  have hinvalid' : ((partialsOf plan ps).map fun _ => (none : Option String)).reduceOption.isEmpty
      = true := by rw [hnone]; rfl
  unfold reconcile
  dsimp only
  rw [whenNot_bind hcontract, whenNot_bind hheader, whenNot_bind (by rw [hmissing, hextra]; rfl),
    hfind]
  show ((partialsOf plan ps).mapM _ >>= _) = _
  rw [hinvalid, ok_bind, whenNot_bind hinvalid']
  show (whenNot ((repeated ((partialsOf plan ps).flatMap PartialResult.sourceRoots)).isEmpty
    && (difference r.sourceRoots ((partialsOf plan ps).flatMap PartialResult.sourceRoots)).isEmpty
    && (difference ((partialsOf plan ps).flatMap PartialResult.sourceRoots) r.sourceRoots).isEmpty)
      _ >>= _) = _
  rw [whenNot_bind (by rw [hduplicates, homitted, hunexpected]; rfl)]
  show ((partialsOf plan ps).foldlM (fun (m : Totals) p => m.mergeWith p.values) Totals.empty
    >>= _) = _
  rw [merge_eq]
  rfl

end

/-- **Reconciliation gives the serial values exactly when no running total of the serial fold or of
the merge overflows.** -/
theorem reconcile_serial_iff {input : RequestInput} {partitions : List (List String)}
    {q : Requirements} (hrequest : buildRequest digest isRef input = .ok r)
    (hplan : buildPartitionPlan digest isRef r partitions q = .ok plan)
    (hdigest : ∀ u ∈ plan.workUnits, ∀ v ∈ plan.workUnits,
      workUnitRoot digest u = workUnitRoot digest v → u.body = v.body)
    (hs : Supplied digest isRef r plan ps) :
    Reconciles digest isRef r input.reductionContract plan ps ↔
      NeverOverflows (serialEntries r) ∧ NeverOverflows (mergedEntries plan ps) := by
  obtain ⟨hr, hcr, hcontract⟩ := buildRequest_spec hrequest
  obtain ⟨hpr, hpc, hproot, hcover, hunits, hindex⟩ := buildPartitionPlan_spec hr hplan
  have hroots := roots_nodup hindex hunits hdigest
  obtain ⟨i, hi, hfind⟩ := ingest_spec hs.repetitions
  have hrun := reconcile_eq hr hcover hroots hs hcontract hpr hcr hpc hproot hfind
  rw [← update_follows.exists_iff, ← mergeEntry_follows.exists_iff]
  constructor
  · rintro ⟨j, artifact, serial, hj, hartifact, hserial, _⟩
    obtain rfl := Except.ok.inj (hi.symm.trans hj)
    rw [hrun] at hartifact
    obtain ⟨values, hvalues, _⟩ := bind_eq_ok.mp hartifact
    exact ⟨⟨serial, serialValues_eq r ▸ hserial⟩, ⟨values, hvalues⟩⟩
  · rintro ⟨⟨serial, hserial⟩, ⟨values, hvalues⟩⟩
    have hmerged := mergedEntries_agree hr hcover hroots hs
    have hsame : serial.same values = true := by
      rw [Totals.same_iff, agree_iff]
      intro k
      rw [agree_iff.mp (update_follows.agree hserial),
        agree_iff.mp (mergeEntry_follows.agree hvalues), agree_iff.mp hmerged]
    have hperm : (reconciliation digest r input.reductionContract plan (partialsOf plan ps)
        values).sourceRoots.Perm r.sourceRoots :=
      (List.perm_insertionSort _ _).trans (sourceRoots_perm hr hcover hroots hs)
    rw [← serialValues_eq] at hserial
    refine ⟨i, _, serial, hi, ?_, hserial, hsame, hperm.nodup_iff.mpr hr,
      fun root => hperm.mem_iff, ?_⟩
    · rw [hrun, hvalues, ok_bind, hserial, ok_bind, whenNot_bind hsame]
      rfl
    · show canonicalResultRoot digest r.root values = _
      unfold canonicalResultRoot
      rw [Totals.value_eq hsame]

/-! ## executed plans -/

/-- one execution of a unit -/
def executed (digest : String → Value → String) (isRef : String → Bool) (r : Request)
    (x : Execution) (u : WorkUnit) : Except Failure PartialResult := do
  let values ← partialValues r u
  buildPartialResult digest isRef r u values x

theorem Supplied.of_executed {x : Execution} (hroots : (plan.workUnits.map WorkUnit.root).Nodup)
    (hx : ∀ u ∈ plan.workUnits, x.implementationRoot ∈ u.allowedImplementationRoots ∧
      u.dependencySetRoot = x.dependencySetRoot ∧
      u.executionEnvironmentRoot = x.executionEnvironmentRoot)
    (h : plan.workUnits.mapM (executed digest isRef r x) = .ok ps) :
    Supplied digest isRef r plan ps := by
  have hall := mapM_ok_iff.mp h
  have hvalid : ∀ u ∈ plan.workUnits, ∀ p, executed digest isRef r x u = .ok p →
      validPartialResult digest isRef r u p = .ok true ∧ u.root = p.workUnitRoot := by
    intro u hu p hp
    obtain ⟨values, _, hp⟩ := bind_eq_ok.mp hp
    obtain ⟨himplementation, hdependencies, henvironment⟩ := hx u hu
    exact buildPartialResult_valid hp himplementation hdependencies henvironment
  constructor
  · intro p hp
    obtain ⟨u, hu, hup⟩ := exists_of_mem_right hall hp
    exact ⟨u, hu, (hvalid u hu p hup).1⟩
  · intro u hu
    obtain ⟨p, hp, hup⟩ := exists_of_mem_left hall hu
    exact ⟨p, hp, (hvalid u hu p hup).2.symm⟩
  · intro p hp p' hp' hroot
    obtain ⟨u, hu, hup⟩ := exists_of_mem_right hall hp
    obtain ⟨v, hv, hvp⟩ := exists_of_mem_right hall hp'
    have huv : u.root = v.root :=
      (hvalid u hu p hup).2.trans (hroot.trans (hvalid v hv p' hvp).2.symm)
    obtain rfl := List.inj_on_of_nodup_map hroots hu hv huv
    rw [Except.ok.inj (hup.symm.trans hvp)]

end

/-! ## two requests -/

def printed : String → Value → String := domainHash fingerprint

/-- a reference with one digit -/
def rooted (digit : Char) : String := "sha256:" ++ String.ofList (List.replicate 64 digit)

def isSha256Ref (s : String) : Bool :=
  "sha256:".toList.isPrefixOf s.toList && CanonicalEffects.hex64 (s.toList.drop 7)

def debit : Keyword := qualified "accounting" "debit"
def credit : Keyword := qualified "accounting" "credit"

def source (digit : Char) (category : Keyword) (amount : ℤ) : Source :=
  ⟨rooted digit, category, HostInt.ofInt amount, rooted '8', rooted '9'⟩

def input (sources : List Source) : RequestInput := {
  accountingDomain := qualified "accounting-domain" "claim-basis"
  cutpointRoot := rooted '5'
  accountingDefinitionRoot := rooted '6'
  accountingPolicyRoot := rooted '7'
  reductionContract := buildReductionContract printed
  sources := sources }

def requirements : Requirements := {
  dependencySetRoot := rooted 'a'
  allowedImplementationRoots := [rooted 'c', rooted 'd']
  requiredCapabilities := [qualified "capability" "accounting"]
  privacyRequirement := plain "public"
  executionEnvironmentRoot := rooted 'b' }

def execution : Execution := ⟨rooted '0', rooted 'c', rooted 'e', rooted 'a', rooted 'b'⟩

/-- debits and a credit in two units -/
def booked : List Source := [source '6' debit 11, source '7' debit (-3), source '8' credit 8]

/-- two sources that add up to 2^63 -/
def brimming : List Source := [source '6' debit (2 ^ 63 - 1), source '7' debit 1]

/-- the units are told apart and executed within their constraints -/
def sound (plan : Plan) : Bool :=
  decide (plan.workUnits.map (workUnitRoot printed)).Nodup
    && plan.workUnits.all fun u => decide (execution.implementationRoot ∈ u.allowedImplementationRoots)
      && u.dependencySetRoot = execution.dependencySetRoot
      && u.executionEnvironmentRoot = execution.executionEnvironmentRoot

/-- the artifacts of a request that is executed as planned -/
structure Executed (sources : List Source) (partitions : List (List String)) (r : Request)
    (plan : Plan) (ps : List PartialResult) : Prop where
  requested : buildRequest printed isSha256Ref (input sources) = .ok r
  planned : buildPartitionPlan printed isSha256Ref r partitions requirements = .ok plan
  distinct : ∀ u ∈ plan.workUnits, ∀ v ∈ plan.workUnits,
    workUnitRoot printed u = workUnitRoot printed v → u.body = v.body
  supplied : Supplied printed isSha256Ref r plan ps

/-- `isSha256Ref` on the letters of the bytes, which are quicker to read than the string -/
def sha256Ref (s : String) : Bool :=
  let cs := (utf8 s).map fun b => Char.ofNat b.toNat
  if s = String.ofList cs then "sha256:".toList.isPrefixOf cs && CanonicalEffects.hex64 (cs.drop 7)
  else isSha256Ref s

theorem sha256Ref_eq : sha256Ref = isSha256Ref := by
  funext s
  rw [sha256Ref]
  split
  · next h =>
    have hs : s.toList = (utf8 s).map fun b => Char.ofNat b.toNat :=
      (congrArg String.toList h).trans String.toList_ofList
    rw [isSha256Ref, hs]
  · rfl

def run (sources : List Source) (partitions : List (List String)) :
    Except Failure (Request × Plan × List PartialResult) := do
  let r ← buildRequest printed sha256Ref (input sources)
  let plan ← buildPartitionPlan printed sha256Ref r partitions requirements
  let ps ← plan.workUnits.mapM (executed printed sha256Ref r execution)
  return (r, plan, ps)

theorem exists_executed (sources : List Source) (partitions : List (List String))
    (test : Request → Plan → List PartialResult → Bool)
    (h : ((run sources partitions).toOption.map fun x => sound x.2.1 && test x.1 x.2.1 x.2.2)
      = some true) :
    ∃ r plan ps, Executed sources partitions r plan ps ∧ test r plan ps = true := by
  cases hrun : run sources partitions with
  | error e =>
    rw [hrun] at h
    cases h
  | ok x =>
    obtain ⟨r, plan, ps⟩ := x
    obtain ⟨r', hr, hrest⟩ := bind_eq_ok.mp hrun
    obtain ⟨plan', hplan, hrest⟩ := bind_eq_ok.mp hrest
    obtain ⟨ps', hps, hrest⟩ := bind_eq_ok.mp hrest
    obtain ⟨rfl, rfl, rfl⟩ : r' = r ∧ plan' = plan ∧ ps' = ps := by
      simpa using Except.ok.inj hrest
    rw [sha256Ref_eq] at hr hplan hps
    rw [hrun] at h
    obtain ⟨hsound, htest⟩ := Bool.and_eq_true_iff.mp (Option.some.inj h)
    obtain ⟨hnodup, hwithin⟩ := Bool.and_eq_true_iff.mp hsound
    have hnodup := of_decide_eq_true hnodup
    obtain ⟨_, _, _, _, hunits, hindex⟩ := buildPartitionPlan_spec (buildRequest_spec hr).1 hplan
    have hdistinct : ∀ u ∈ plan'.workUnits, ∀ v ∈ plan'.workUnits,
        workUnitRoot printed u = workUnitRoot printed v → u.body = v.body := by
      intro u hu v hv huv
      rw [List.inj_on_of_nodup_map hnodup hu hv huv]
    refine ⟨r', plan', ps', ⟨hr, hplan, hdistinct, ?_⟩, htest⟩
    · have hroots := roots_nodup hindex hunits hdistinct
      refine Supplied.of_executed hroots (fun u hu => ?_) hps
      have hu' := List.all_eq_true.mp hwithin u hu
      simpa [and_assoc] using hu'

/-- with small amounts, units of any sources are merged to the serial values -/
theorem reconcile_serial_iff_booked : ∃ r plan ps,
    Executed booked [[rooted '6', rooted '8'], [rooted '7']] r plan ps ∧
      (Reconciles printed isSha256Ref r (input booked).reductionContract plan ps ↔
        NeverOverflows (serialEntries r) ∧ NeverOverflows (mergedEntries plan ps)) := by
  obtain ⟨r, plan, ps, h, _⟩ := exists_executed booked
    [[rooted '6', rooted '8'], [rooted '7']] (fun _ _ _ => true) (by decide +kernel)
  exact ⟨r, plan, ps, h, reconcile_serial_iff h.requested h.planned h.distinct h.supplied⟩

/-- two units of 64-bit amounts are executed and cannot be added up -/
theorem reconcile_serial_counterexample : ∃ r plan ps,
    Executed brimming [[rooted '6'], [rooted '7']] r plan ps ∧
      ¬ Reconciles printed isSha256Ref r (input brimming).reductionContract plan ps := by
  obtain ⟨r, plan, ps, h, hserial⟩ := exists_executed brimming
    [[rooted '6'], [rooted '7']] (fun r _ _ => !(serialValues r).isOk) (by decide +kernel)
  refine ⟨r, plan, ps, h, ?_⟩
  intro hrun
  obtain ⟨_, _, serial, _, _, hok, _⟩ := hrun
  rw [hok] at hserial
  cases hserial

end PRF.Accounting
