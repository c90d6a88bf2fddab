import ProtocolRobustness.Evidence.Lifecycle
import ProtocolRobustness.Library.Fallible
import ProtocolRobustness.Library.Links
import ProtocolRobustness.Library.Runs

/-!
# Supersession as a forest

Three writers keep two directions of one link in two records, and none of them looks at what it
overwrites.  `Forest` is what the traversals and the record keys rely on; `Sound` is what a call has
to meet for the registry to stay one.

* `Forest`        links end both ways, a record is superseded exactly when it names what supersedes
                  it, and what supersedes an id lists it;
* `Sound`         a call that revives nothing, covers no link and closes no circle;
* `supersession_iff`   a run is a run of forests, without a revival, iff each of its calls is sound.
-/

namespace PRF.Evidence
open Table Links Runs

section
variable {ι : Type*} [DecidableEq ι]

/-! ## calls -/

inductive Call (ι : Type*)
  | activate (id : ι) (supersedes : Option (List ι)) (reason : Option String) (now : String)
  | supersede (oldId newId : ι) (reason : Option String) (now : String)
  | revoke (id : ι) (reason : Option String) (now : String)
deriving DecidableEq

def apply (reg : Registry ι) : Call ι → Registry ι
  | .activate id supersedes reason now => activateAttestation reg id supersedes reason now
  | .supersede oldId newId reason now => supersedeAttestation reg oldId newId reason now
  | .revoke id reason now => revokeAttestation reg id reason now

def registryAfter (calls : List (Call ι)) : Registry ι := calls.foldl apply []

/-! ## forests -/

/-- following `:superseded-by` so many times, or to the end -/
def follow (reg : Registry ι) : ℕ → ι → ι
  | 0, id => id
  | n + 1, id =>
    match supersededBy reg id with
    | none => id
    | some nextId => follow reg n nextId

structure Forest (reg : Registry ι) : Prop where
  reaches : ∀ id, ∃ n, supersededBy reg (follow reg n id) = none
  returns : ∀ id, ∃ fuel, (supersessionChain reg fuel id).isSome
  named : ∀ id r, find reg id = some r → (r.state = .superseded ↔ r.supersededBy.isSome)
  listed : ∀ id nextId, supersededBy reg id = some nextId → id ∈ findSupersededBy reg nextId

def Next (reg : Registry ι) (id nextId : ι) : Prop := supersededBy reg id = some nextId

def Previous (reg : Registry ι) (id prevId : ι) : Prop := prevId ∈ findSupersededBy reg id

instance (reg : Registry ι) (id prevId : ι) : Decidable (Previous reg id prevId) :=
  inferInstanceAs (Decidable (prevId ∈ findSupersededBy reg id))

theorem reaches_iff (reg : Registry ι) (id : ι) :
    (∃ n, supersededBy reg (follow reg n id) = none) ↔ Ends (Next reg) id := by
  constructor
  · rintro ⟨n, hn⟩
    induction n generalizing id with
    | zero =>
      refine ends_of_next fun nextId hnext => ?_
      rw [Next, show supersededBy reg id = none from hn] at hnext
      cases hnext
    | succ n ih =>
      refine ends_of_next fun nextId hnext => ih nextId ?_
      rw [Next] at hnext
      rwa [follow, hnext] at hn
  · intro h
    induction h with
    | intro id _ ih =>
      cases hnext : supersededBy reg id with
      | none => exact ⟨0, hnext⟩
      | some nextId =>
        obtain ⟨n, hn⟩ := ih nextId hnext
        refine ⟨n + 1, ?_⟩
        rw [follow, hnext]
        exact hn

theorem predecessors_succ (reg : Registry ι) (fuel : ℕ) (id : ι) :
    (tracePredecessors reg (fuel + 1) id).isSome
      ↔ ∀ prevId ∈ findSupersededBy reg id, (tracePredecessors reg fuel prevId).isSome := by
  rw [tracePredecessors]
  simp only [Option.bind_eq_bind, Option.pure_def, Option.isSome_bind, Option.isSome_some,
    Option.any_true, Fallible.mapM_isSome]

theorem successors_succ (reg : Registry ι) (fuel : ℕ) (id : ι) :
    (traceSuccessors reg (fuel + 1) id).isSome
      ↔ ∀ nextId ∈ (supersededBy reg id).toList, (traceSuccessors reg fuel nextId).isSome := by
  rw [traceSuccessors]
  cases supersededBy reg id with
  | none => simp
  | some nextId =>
    simp only [Option.bind_eq_bind, Option.pure_def, Option.isSome_bind, Option.isSome_some,
      Option.any_true, Option.toList_some, List.forall_mem_singleton]

theorem chain_returns (reg : Registry ι) (id : ι) :
    (∃ fuel, (supersessionChain reg fuel id).isSome)
      ↔ Ends (Previous reg) id ∧ Ends (Next reg) id := by
  have hprevious : (∃ fuel, (tracePredecessors reg fuel id).isSome) ↔ Ends (Previous reg) id :=
    returns_iff_ends (fun id prevId => Iff.rfl) (fun id => rfl) (predecessors_succ reg) id
  have hnext : (∃ fuel, (traceSuccessors reg fuel id).isSome) ↔ Ends (Next reg) id :=
    returns_iff_ends (fun id nextId => Option.mem_toList.symm) (fun id => rfl)
      (successors_succ reg) id
  rw [← hprevious, ← hnext]
  have hparts : ∀ fuel, (supersessionChain reg fuel id).isSome ↔
      (tracePredecessors reg fuel id).isSome ∧ (traceSuccessors reg fuel id).isSome := by
    intro fuel
    unfold supersessionChain
    cases tracePredecessors reg fuel id <;> cases traceSuccessors reg fuel id <;> simp
  constructor
  · rintro ⟨fuel, h⟩
    exact ⟨⟨fuel, ((hparts fuel).mp h).1⟩, ⟨fuel, ((hparts fuel).mp h).2⟩⟩
  · rintro ⟨⟨m, hm⟩, ⟨n, hn⟩⟩
    refine ⟨max m n, (hparts _).mpr ⟨?_, ?_⟩⟩
    · exact visit_mono (fun id => rfl) (predecessors_succ reg) (le_max_left m n) hm
    · exact visit_mono (fun id => rfl) (successors_succ reg) (le_max_right m n) hn

theorem named_iff (reg : Registry ι) :
    (∀ id r, find reg id = some r → (r.state = .superseded ↔ r.supersededBy.isSome))
      ↔ ∀ id, stateOf reg id = .superseded ↔ (supersededBy reg id).isSome := by
  refine forall_congr' fun id => ?_
  unfold stateOf supersededBy
  cases find reg id with
  | none => simp
  | some r => simp

theorem forest_iff (reg : Registry ι) :
    Forest reg ↔ (∀ id, Ends (Next reg) id) ∧ (∀ id, Ends (Previous reg) id) ∧
      (∀ id, stateOf reg id = .superseded ↔ (supersededBy reg id).isSome) ∧
      ∀ id nextId, supersededBy reg id = some nextId → id ∈ findSupersededBy reg nextId := by
  constructor
  · intro h
    refine ⟨fun id => (reaches_iff reg id).mp (h.reaches id), fun id => ?_,
      (named_iff reg).mp h.named, h.listed⟩
    exact ((chain_returns reg id).mp (h.returns id)).1
  · rintro ⟨hnext, hprevious, hnamed, hlisted⟩
    exact ⟨fun id => (reaches_iff reg id).mpr (hnext id),
      fun id => (chain_returns reg id).mpr ⟨hprevious id, hnext id⟩, (named_iff reg).mpr hnamed,
      hlisted⟩

/-! ## what a call writes -/

@[simp] theorem stateOf_put (reg : Registry ι) (id x : ι) (r : Record ι) :
    stateOf (put reg id r) x = if id = x then r.state else stateOf reg x := by
  unfold stateOf
  rw [find_put]
  split <;> rfl

@[simp] theorem supersededBy_put (reg : Registry ι) (id x : ι) (r : Record ι) :
    supersededBy (put reg id r) x = if id = x then r.supersededBy else supersededBy reg x := by
  unfold supersededBy
  rw [find_put]
  split <;> rfl

@[simp] theorem findSupersededBy_put (reg : Registry ι) (id x : ι) (r : Record ι) :
    findSupersededBy (put reg id r) x
      = if id = x then r.supersedes.getD [] else findSupersededBy reg x := by
  unfold findSupersededBy
  rw [find_put]
  split <;> rfl

theorem mem_listing (existing : Option (List ι)) (oldId x : ι) :
    x ∈ listing existing oldId ↔ x ∈ existing.getD [] ∨ x = oldId := by
  show x ∈ (if oldId ∈ existing.getD [] then existing.getD [] else existing.getD [] ++ [oldId]) ↔ _
  split
  · next h =>
    constructor
    · exact Or.inl
    · rintro (hx | rfl)
      · exact hx
      · exact h
  · simp

section
variable (reg : Registry ι) (oldId newId x : ι) (reason : Option String) (now : String)

@[simp] theorem stateOf_supersede :
    stateOf (supersedeAttestation reg oldId newId reason now) x
      = if newId = x then .active else if oldId = x then .superseded else stateOf reg x := by
  simp [supersedeAttestation, newRecord, oldRecord]

@[simp] theorem supersededBy_supersede :
    supersededBy (supersedeAttestation reg oldId newId reason now) x
      = if oldId = x then some newId else supersededBy reg x := by
  have hput : (find (put reg oldId (oldRecord (find reg oldId) newId reason now)) newId).bind
      (·.supersededBy) = if oldId = newId then some newId else supersededBy reg newId :=
    supersededBy_put reg oldId newId _
  simp only [supersedeAttestation, newRecord, supersededBy_put, hput]
  by_cases hnew : newId = x
  · rw [if_pos hnew, hnew]
  · rw [if_neg hnew]
    rfl

@[simp] theorem mem_findSupersededBy_supersede (y : ι) :
    y ∈ findSupersededBy (supersedeAttestation reg oldId newId reason now) x
      ↔ y ∈ findSupersededBy reg x ∨ newId = x ∧ y = oldId := by
  have hput : ((find (put reg oldId (oldRecord (find reg oldId) newId reason now)) newId).bind
      (·.supersedes)).getD [] = findSupersededBy reg newId := by
    refine (findSupersededBy_put reg oldId newId _).trans ?_
    split
    · next h => rw [← h, findSupersededBy, oldRecord]
    · rfl
  have hold : findSupersededBy (put reg oldId (oldRecord (find reg oldId) newId reason now)) x
      = findSupersededBy reg x := by
    rw [findSupersededBy_put]
    split
    · next h => rw [← h, findSupersededBy, oldRecord]
    · rfl
  simp only [supersedeAttestation, newRecord]
  by_cases hnew : newId = x
  · subst hnew
    simp [findSupersededBy_put, mem_listing, hput]
  · simp [findSupersededBy_put, hnew, hold]

variable (id : ι)

@[simp] theorem stateOf_revoke : stateOf (revokeAttestation reg id reason now) x
    = if id = x then .revoked else stateOf reg x := by
  simp [revokeAttestation]

@[simp] theorem supersededBy_revoke :
    supersededBy (revokeAttestation reg id reason now) x = supersededBy reg x := by
  simp only [revokeAttestation, supersededBy_put]
  split
  · next h => rw [← h, supersededBy]
  · rfl

@[simp] theorem findSupersededBy_revoke :
    findSupersededBy (revokeAttestation reg id reason now) x = findSupersededBy reg x := by
  simp only [revokeAttestation, findSupersededBy_put]
  split
  · next h => rw [← h, findSupersededBy]
  · rfl

end

/-! ## what a call keeps -/

theorem Forest.next_ne {reg : Registry ι} (h : Forest reg) {id nextId : ι}
    (hnext : supersededBy reg id = some nextId) : id ≠ nextId := by
  rintro rfl
  exact (((forest_iff reg).mp h).1 id).not_back hnext .refl

theorem activate_forest {reg : Registry ι} (h : Forest reg) (id : ι) (supersedes : Option (List ι))
    (reason : Option String) (now : String) :
    Forest (activateAttestation reg id supersedes reason now)
      ↔ (∀ x, supersededBy reg x = some id → x ∈ supersedes.getD []) ∧
        ∀ x ∈ supersedes.getD [], ¬ Leads (Previous reg) x id := by
  obtain ⟨hnext, hprevious, hnamed, hlisted⟩ := (forest_iff reg).mp h
  have hends : (∀ x, Ends (Next (activateAttestation reg id supersedes reason now)) x) := by
    refine (ends_relinked id hnext fun x hx y => ?_).mpr fun y hy => ?_
    · simp [Next, activateAttestation, Ne.symm hx]
    · simp [Next, activateAttestation] at hy
  have hback : (∀ x, Ends (Previous (activateAttestation reg id supersedes reason now)) x)
      ↔ ∀ x ∈ supersedes.getD [], ¬ Leads (Previous reg) x id := by
    refine (ends_relinked id hprevious fun x hx y => ?_).trans ?_
    · simp [Previous, activateAttestation, Ne.symm hx]
    · simp [Previous, activateAttestation]
  rw [forest_iff, hback]
  constructor
  · rintro ⟨-, hclear, -, hlisted'⟩
    refine ⟨fun x hx => ?_, hclear⟩
    have hxid := h.next_ne hx
    have hmem := hlisted' x id (by simp [activateAttestation, Ne.symm hxid, hx])
    simpa [activateAttestation] using hmem
  · rintro ⟨hkept, hclear⟩
    refine ⟨hends, hclear, fun x => ?_, fun x y hx => ?_⟩
    · by_cases hid : id = x
      · simp [activateAttestation, hid]
      · simp [activateAttestation, hid, hnamed x]
    · by_cases hid : id = x
      · simp [activateAttestation, hid] at hx
      · simp only [activateAttestation, supersededBy_put, if_neg hid] at hx
        by_cases hy : id = y
        · subst hy
          simpa [activateAttestation] using hkept x hx
        · simpa [activateAttestation, hy] using hlisted x y hx

theorem supersede_forest {reg : Registry ι} (h : Forest reg) (oldId newId : ι)
    (reason : Option String) (now : String) :
    Forest (supersedeAttestation reg oldId newId reason now)
      ↔ supersededBy reg newId = none ∧ ¬ Leads (Previous reg) oldId newId := by
  obtain ⟨hnext, hprevious, hnamed, hlisted⟩ := (forest_iff reg).mp h
  have hback : (∀ x, Ends (Previous (supersedeAttestation reg oldId newId reason now)) x)
      ↔ ¬ Leads (Previous reg) oldId newId := by
    refine (ends_relinked newId hprevious fun x hx y => ?_).trans ?_
    · simp [Previous, Ne.symm hx]
    · constructor
      · exact fun hclear => hclear oldId (by simp [Previous])
      · intro hclear y hy
        rcases (mem_findSupersededBy_supersede reg oldId newId newId reason now y).mp hy with hy | hy
        · exact (hprevious newId).not_back hy
        · exact hy.2 ▸ hclear
  rw [forest_iff, hback]
  constructor
  · rintro ⟨-, hclear, hnamed', -⟩
    have hne : oldId ≠ newId := by
      rintro rfl
      exact hclear .refl
    have hnew := hnamed' newId
    simp [hne] at hnew
    exact ⟨hnew, hclear⟩
  · rintro ⟨hroot, hclear⟩
    have hne : oldId ≠ newId := by
      rintro rfl
      exact hclear .refl
    refine ⟨?_, hclear, fun x => ?_, fun x y hx => ?_⟩
    · refine (ends_relinked oldId hnext fun x hx y => ?_).mpr fun y hy hreach => ?_
      · simp [Next, Ne.symm hx]
      · obtain rfl : newId = y := by simpa [Next] using hy
        rcases Relation.ReflTransGen.cases_head hreach with heq | ⟨z, hz, -⟩
        · exact hne heq.symm
        · rw [Next, hroot] at hz
          cases hz
    · by_cases hnew : newId = x
      · subst hnew
        simp [hne, hroot]
      · by_cases hold : oldId = x
        · simp [hnew, hold]
        · simp [hnew, hold, hnamed x]
    · rw [mem_findSupersededBy_supersede]
      rw [supersededBy_supersede] at hx
      split at hx
      · next hold => exact Or.inr ⟨Option.some.inj hx, hold.symm⟩
      · exact Or.inl (hlisted x y hx)

theorem revoke_forest {reg : Registry ι} (h : Forest reg) (id : ι) (reason : Option String)
    (now : String) :
    Forest (revokeAttestation reg id reason now) ↔ supersededBy reg id = none := by
  obtain ⟨hnext, hprevious, hnamed, hlisted⟩ := (forest_iff reg).mp h
  have hlinks : Next (revokeAttestation reg id reason now) = Next reg := by
    funext x y
    simp [Next]
  have hlists : Previous (revokeAttestation reg id reason now) = Previous reg := by
    funext x y
    simp [Previous]
  rw [forest_iff, hlinks, hlists]
  constructor
  · rintro ⟨-, -, hnamed', -⟩
    simpa using hnamed' id
  · intro hroot
    refine ⟨hnext, hprevious, fun x => ?_, fun x y hx => ?_⟩
    · by_cases hid : id = x
      · subst hid
        simp [hroot]
      · simp [hid, hnamed x]
    · rw [supersededBy_revoke] at hx
      rw [findSupersededBy_revoke]
      exact hlisted x y hx

/-! ## runs -/

/-- a registry with the ids that were revoked on the way to it -/
structure Chronicle (ι : Type*) where
  registry : Registry ι
  revoked : List ι

def Call.revokes : Call ι → List ι
  | .activate .. => []
  | .supersede .. => []
  | .revoke id _ _ => [id]

/-- no call is refused -/
def step (c : Chronicle ι) (call : Call ι) : Except Empty (Chronicle ι) :=
  .ok ⟨apply c.registry call, call.revokes ++ c.revoked⟩

/-- * an activation is not of a revoked id, lists every id that names it, and none that lists it;
* a supersession revives no revoked id, ends at an id that is not superseded, and does not lead back;
* a revocation is not of a superseded id -/
def Sound (c : Chronicle ι) : Call ι → Prop
  | .activate id supersedes _ _ => id ∉ c.revoked ∧
      (∀ x, supersededBy c.registry x = some id → x ∈ supersedes.getD []) ∧
      ∀ x ∈ supersedes.getD [], ¬ Leads (Previous c.registry) x id
  | .supersede oldId newId _ _ => newId ∉ c.revoked ∧ supersededBy c.registry newId = none ∧
      ¬ Leads (Previous c.registry) oldId newId
  | .revoke id _ _ => supersededBy c.registry id = none

def attestationActive (reg : Registry ι) (id : ι) : Prop :=
  (attestationState reg id none .active).state = .active

/-- every registry on the way is a forest, and what was revoked is never active again -/
def StaysForest (calls : List (Call ι)) : Prop :=
  (∀ n, Forest (registryAfter (calls.take n))) ∧
  ∀ m n id, m ≤ n →
    (attestationState (registryAfter (calls.take m)) id none .active).state = .revoked →
      ¬ attestationActive (registryAfter (calls.take n)) id

/-- a forest in which nothing that was revoked is active -/
structure Kept (c : Chronicle ι) : Prop where
  forest : Forest c.registry
  dead : ∀ id ∈ c.revoked, stateOf c.registry id ≠ .active

theorem forest_empty : Forest ([] : Registry ι) := by
  rw [forest_iff]
  have hend : ∀ {link : ι → ι → Prop}, (∀ x y, ¬ link x y) → ∀ x, Ends link x :=
    fun h x => ends_of_next fun y hy => absurd hy (h x y)
  refine ⟨hend fun x y => ?_, hend fun x y => ?_, fun x => ?_, fun x y hx => ?_⟩
  · simp [Next, supersededBy, find_nil]
  · simp [Previous, findSupersededBy, find_nil]
  · simp [stateOf, supersededBy, find_nil]
  · simp [supersededBy, find_nil] at hx

/-- **One call keeps a forest without revivals iff it is sound.** -/
theorem kept_step_iff (c : Chronicle ι) (call : Call ι) (h : Kept c) :
    Kept (after step c call) ↔ Sound c call := by
  have hsplit : Kept (after step c call) ↔ Forest (apply c.registry call) ∧
      ∀ id ∈ call.revokes ++ c.revoked, stateOf (apply c.registry call) id ≠ .active :=
    ⟨fun h => ⟨h.forest, h.dead⟩, fun h => ⟨h.1, h.2⟩⟩
  rw [hsplit]
  cases call with
  | activate id supersedes reason now =>
    rw [apply, activate_forest h.forest, Sound, and_comm (a := id ∉ c.revoked)]
    refine and_congr_right fun _ => ⟨fun hdead hid => ?_, fun hid x hx => ?_⟩
    · exact hdead id (List.mem_append_right _ hid) (by simp [activateAttestation])
    · have hne : id ≠ x := fun heq => hid (heq ▸ hx)
      simpa [activateAttestation, hne] using h.dead x hx
  | supersede oldId newId reason now =>
    rw [apply, supersede_forest h.forest, Sound, and_comm (a := newId ∉ c.revoked)]
    refine and_congr_right fun _ => ⟨fun hdead hnew => ?_, fun hnew x hx => ?_⟩
    · exact hdead newId (List.mem_append_right _ hnew) (by simp)
    · have hne : newId ≠ x := fun heq => hnew (heq ▸ hx)
      rw [stateOf_supersede, if_neg hne]
      split
      · simp
      · exact h.dead x hx
  | revoke id reason now =>
    rw [apply, revoke_forest h.forest, Sound]
    refine and_iff_left_of_imp fun _ x hx => ?_
    rw [stateOf_revoke]
    split
    · simp
    · next hne =>
      rcases List.mem_append.mp hx with hx | hx
      · exact absurd (List.mem_singleton.mp hx).symm hne
      · exact h.dead x hx

theorem run_registry (c : Chronicle ι) (calls : List (Call ι)) :
    (run step c calls).registry = calls.foldl apply c.registry := by
  induction calls generalizing c with
  | nil => rfl
  | cons call calls ih =>
    rw [run_cons, ih]
    rfl

theorem revoked_mono (c : Chronicle ι) (calls : List (Call ι)) {id : ι} (h : id ∈ c.revoked) :
    id ∈ (run step c calls).revoked := by
  have hkeeps : ∀ (c : Chronicle ι) call c', id ∈ c.revoked → step c call = .ok c' →
      id ∈ c'.revoked := by
    intro c call c' hc hstep
    obtain rfl := Except.ok.inj hstep
    exact List.mem_append_right _ hc
  exact run_induction hkeeps h calls

/-- every revoked id is noted -/
def Noted (c : Chronicle ι) : Prop := ∀ id, stateOf c.registry id = .revoked → id ∈ c.revoked

theorem noted_step (c : Chronicle ι) (call : Call ι) (c' : Chronicle ι) (h : Noted c)
    (hstep : step c call = .ok c') : Noted c' := by
  obtain rfl := Except.ok.inj hstep
  intro x hx
  cases call with
  | activate id supersedes reason now =>
    simp only [apply, activateAttestation, stateOf_put] at hx
    split at hx
    · cases hx
    · exact h x hx
  | supersede oldId newId reason now =>
    simp only [apply, stateOf_supersede] at hx
    split at hx
    · cases hx
    · split at hx
      · cases hx
      · exact h x hx
  | revoke id reason now =>
    simp only [apply, stateOf_revoke] at hx
    split at hx
    · next heq => simp [Call.revokes, heq]
    · exact List.mem_append_right _ (h x hx)

theorem noted_run (calls : List (Call ι)) : Noted (run step ⟨[], []⟩ calls) :=
  run_induction noted_step (fun id hid => by simp [stateOf, find_nil] at hid) calls

theorem exists_revoked (calls : List (Call ι)) {id : ι}
    (h : id ∈ (run step ⟨[], []⟩ calls).revoked) :
    ∃ m ≤ calls.length, stateOf (registryAfter (calls.take m)) id = .revoked := by
  induction calls using List.reverseRecOn with
  | nil => cases h
  | append_singleton calls call ih =>
    rw [run_append] at h
    rcases List.mem_append.mp h with h | h
    · refine ⟨calls.length + 1, by simp, ?_⟩
      rw [List.take_of_length_le (by simp), registryAfter, List.foldl_append]
      cases call with
      | activate | supersede => cases h
      | revoke x reason now =>
        obtain rfl := List.mem_singleton.mp h
        simp [apply]
    · obtain ⟨m, hm, hstate⟩ := ih h
      refine ⟨m, by simp; omega, ?_⟩
      rwa [List.take_append_of_le_length hm]

theorem attestationState_eq (reg : Registry ι) (id : ι) :
    (attestationState reg id none .active).state = stateOf reg id := by
  simp [attestationState, stateOf]

theorem staysForest_iff (calls : List (Call ι)) :
    StaysForest calls ↔ ∀ n, Kept (run step ⟨[], []⟩ (calls.take n)) := by
  have hregistry : ∀ n, (run step (⟨[], []⟩ : Chronicle ι) (calls.take n)).registry
      = registryAfter (calls.take n) := fun n => run_registry _ _
  constructor
  · rintro ⟨hforest, hdead⟩ n
    refine ⟨hregistry n ▸ hforest n, fun id hid => ?_⟩
    obtain ⟨m, -, hstate⟩ := exists_revoked _ hid
    rw [List.take_take] at hstate
    have hnever := hdead (min m n) n id (min_le_right m n) (by rwa [attestationState_eq])
    rwa [attestationActive, attestationState_eq, ← hregistry n] at hnever
  · intro hkept
    refine ⟨fun n => hregistry n ▸ (hkept n).forest, fun m n id hmn hstate => ?_⟩
    rw [attestationState_eq] at hstate
    obtain ⟨k, rfl⟩ := Nat.exists_eq_add_of_le hmn
    have hthen := noted_run (calls.take m) id (hregistry m ▸ hstate)
    have hnow := revoked_mono _ ((calls.drop m).take k) hthen
    rw [← run_append, ← List.take_add] at hnow
    rw [attestationActive, attestationState_eq, ← hregistry (m + k)]
    exact (hkept (m + k)).dead id hnow

/-- **A run stays a forest without revivals iff each of its calls is sound.** -/
theorem supersession_iff (calls : List (Call ι)) :
    StaysForest calls ↔ Each step Sound ⟨[], []⟩ calls := by
  rw [staysForest_iff]
  exact each_iff_kept kept_step_iff ⟨forest_empty, fun id hid => absurd hid List.not_mem_nil⟩ calls

end

/-- an attestation superseded by itself -/
def selfSuperseded : List (Call String) := [.supersede "a" "a" none "2026-01-01T00:00:00Z"]

/-- it is active and names what supersedes it, and its chain is never returned -/
theorem supersession_counterexample :
    ¬ StaysForest selfSuperseded ∧
    ∀ fuel, supersessionChain (registryAfter selfSuperseded) fuel "a" = none := by
  constructor
  · intro h
    have hnamed := (named_iff _).mp (h.1 1).named "a"
    revert hnamed
    decide
  · intro fuel
    rw [← Option.not_isSome_iff_eq_none]
    intro hreturns
    have hends := ((chain_returns _ "a").mp ⟨fuel, hreturns⟩).1
    have hlink : Previous (registryAfter selfSuperseded) "a" "a" := by decide
    exact hends.not_back hlink .refl

end PRF.Evidence
