import ProtocolRobustness.Allocation.Context
import ProtocolRobustness.Canonical.Compare
import ProtocolRobustness.Library.Datum
import ProtocolRobustness.Library.Fallible

/-!
# The registration of a distributed execution run

`register-run!` of `benchmark/distributed/coordination.clj`.  It canonicalizes the chunks of a request
and hands the result to `chunk-set-root`, which canonicalizes what it is given once more.  A canonical
chunk has `:chunk/id` where a requested one has `:chunk-id`.

* `Env.canonicalChunks`, `Env.chunkSetRoot`, `Env.registerRun`   the source's own;
* `chunkSetRoot_perm`        the root of a chunk set does not depend on the order of the request;
* `chunkSetRoot_canonical`   canonical chunks have no root;
* `registerRun_refused`      what every registration is refused for.

The transaction of a registration is a parameter: nothing is assumed of it, for none is begun.
-/

namespace PRF.Coordination
open Datum

/-- a canonical chunk -/
structure Descriptor where
  id : String
  expectedInputRoot : String
  expectedExecutionRoot : String
deriving DecidableEq

/-- `{:chunk/id :chunk/expected-input-root :chunk/expected-execution-root}` -/
def Descriptor.datum (d : Descriptor) : Datum :=
  .map [(kw "chunk/expected-execution-root", str d.expectedExecutionRoot),
    (kw "chunk/expected-input-root", str d.expectedInputRoot), (kw "chunk/id", str d.id)]

/-- the arguments of `register-run!`; a chunk is a map -/
structure Registration where
  runId : Datum
  runPlanRoot : Datum
  executionPlanRoot : Datum
  chunks : List Datum
deriving DecidableEq

inductive Thrown
  | invalidCoordinationRequest (field : String) (value : Datum)
  | invalidCoordinationRoot (field : String) (value : Datum)
  | emptyDistributedExecutionPlan
  | duplicateDistributedChunkId (chunkIds : List String)
  | database (reason : String)
deriving DecidableEq

/-- `{:run-id :execution-plan-root :chunk-set-root :chunk-count}` -/
structure Answer where
  runId : Datum
  executionPlanRoot : Datum
  chunkSetRoot : String
  chunkCount : Option ℕ
deriving DecidableEq

/-- `valid-sha256-ref?` and the domain hash of a chunk set -/
structure Env where
  validSha256Ref : String → Bool
  domainHash : List Descriptor → String

/-! ## checks -/

def nonblank (name : String) : Datum → Except Thrown String
  | .atom (.str s) =>
    if Allocation.blank s then .error (.invalidCoordinationRequest name (str s)) else .ok s
  | value => .error (.invalidCoordinationRequest name value)

def Env.root (env : Env) (name : String) (value : Datum) : Except Thrown String := do
  let s ← nonblank name value
  if env.validSha256Ref s then return s else throw (.invalidCoordinationRoot name value)

/-- a chunk of a request, as it is read -/
def Env.descriptor (env : Env) (chunk : Datum) : Except Thrown Descriptor := do
  let id ← nonblank "chunk-id" (chunk.get "chunk-id")
  let input ← env.root "expected-input-root" (chunk.get "expected-input-root")
  let work ← env.root "expected-work-root" (chunk.get "expected-work-root")
  return ⟨id, input, work⟩

/-- `(sort-by :chunk/id descriptors)` -/
def byId (chunks : List Descriptor) : List Descriptor :=
  chunks.insertionSort fun a b => notAfter a.id b.id

def Env.canonicalChunks (env : Env) (chunks : List Datum) : Except Thrown (List Descriptor) := do
  if chunks = [] then throw .emptyDistributedExecutionPlan
  let descriptors ← chunks.mapM env.descriptor
  let ids := descriptors.map Descriptor.id
  if ids.Nodup then return byId descriptors else throw (.duplicateDistributedChunkId ids)

def Env.chunkSetRoot (env : Env) (chunks : List Datum) : Except Thrown String := do
  let canonical ← env.canonicalChunks chunks
  return env.domainHash canonical

/-! ## registration -/

variable {DB : Type}

/-- the checks of `register-run!` before it asks for a root -/
def Env.checked (env : Env) (r : Registration) : Except Thrown (List Descriptor) := do
  let _ ← nonblank "run-id" r.runId
  let _ ← env.root "run-plan-root" r.runPlanRoot
  let _ ← env.root "execution-plan-root" r.executionPlanRoot
  env.canonicalChunks r.chunks

/-- `register-run!`, over what its transaction does with the canonical chunks and their root -/
def Env.registerRun (env : Env)
    (transaction : Registration → List Descriptor → String → DB → Except Thrown Answer × DB)
    (r : Registration) (db : DB) : Except Thrown Answer × DB :=
  match env.checked r with
  | .error e => (.error e, db)
  | .ok chunks =>
    match env.chunkSetRoot (chunks.map Descriptor.datum) with
    | .error e => (.error e, db)
    | .ok root => transaction r chunks root db

/-! ## the order of a request -/

section
variable {env : Env}

theorem byId_perm (chunks : List Descriptor) : (byId chunks).Perm chunks :=
  List.perm_insertionSort _ chunks

theorem byId_eq_of_perm {chunks chunks' : List Descriptor} (hp : chunks.Perm chunks')
    (hids : (chunks.map Descriptor.id).Nodup) : byId chunks = byId chunks' := by
  have htotal : Std.Total fun a b : Descriptor => notAfter a.id b.id :=
    ⟨fun a b => total_of notAfter a.id b.id⟩
  have htrans : IsTrans Descriptor fun a b => notAfter a.id b.id :=
    ⟨fun a b c => trans_of notAfter⟩
  have hperm : (byId chunks).Perm (byId chunks') :=
    (byId_perm chunks).trans (hp.trans (byId_perm chunks').symm)
  refine hperm.eq_of_pairwise ?_ (List.pairwise_insertionSort _ _)
    (List.pairwise_insertionSort _ _)
  intro a b ha hb hab hba
  have hid : a.id = b.id := utf16_injective (le_antisymm hab hba)
  have ha' : a ∈ chunks := (byId_perm chunks).mem_iff.mp ha
  have hb' : b ∈ chunks := hp.mem_iff.mpr ((byId_perm chunks').mem_iff.mp hb)
  exact List.inj_on_of_nodup_map hids ha' hb' hid

theorem canonicalChunks_eq_ok {chunks : List Datum} {canonical : List Descriptor} :
    env.canonicalChunks chunks = .ok canonical ↔
      chunks ≠ [] ∧ ∃ descriptors,
        List.Forall₂ (fun c d => env.descriptor c = .ok d) chunks descriptors
          ∧ (descriptors.map Descriptor.id).Nodup ∧ byId descriptors = canonical := by
  unfold Env.canonicalChunks
  by_cases hempty : chunks = []
  · rw [if_pos hempty]
    exact ⟨nofun, fun h => absurd hempty h.1⟩
  rw [if_neg hempty]
  show chunks.mapM env.descriptor >>= _ = _ ↔ _
  rw [Fallible.bind_eq_ok]
  refine ⟨fun h => ⟨hempty, ?_⟩, fun h => ?_⟩
  · obtain ⟨ds, hds, h⟩ := h
    obtain ⟨hids, h⟩ := Fallible.require_eq_ok.mp h
    exact ⟨ds, Fallible.mapM_ok_iff.mp hds, hids, Except.ok.inj h⟩
  · obtain ⟨-, ds, hds, hids, h⟩ := h
    exact ⟨ds, Fallible.mapM_ok_iff.mpr hds,
      Fallible.require_eq_ok.mpr ⟨hids, congrArg Except.ok h⟩⟩

theorem chunkSetRoot_perm {chunks chunks' : List Datum} {root : String} (hp : chunks.Perm chunks')
    (h : env.chunkSetRoot chunks = .ok root) : env.chunkSetRoot chunks' = .ok root := by
  obtain ⟨canonical, hc, hroot⟩ := Fallible.bind_eq_ok.mp h
  obtain ⟨hne, ds, hds, hids, hby⟩ := canonicalChunks_eq_ok.mp hc
  obtain ⟨ds', hds', hperm⟩ := List.perm_comp_forall₂ hp.symm hds
  have hids' : (ds'.map Descriptor.id).Nodup := (hperm.symm.map _).nodup_iff.mp hids
  have hne' : chunks' ≠ [] := fun h' => hne (h' ▸ hp).eq_nil
  refine Fallible.bind_eq_ok.mpr ⟨canonical, canonicalChunks_eq_ok.mpr ⟨hne', ds', hds', hids', ?_⟩,
    hroot⟩
  rw [← hby]
  exact byId_eq_of_perm hperm hids'

/-! ## canonical chunks -/

theorem canonicalChunks_ne_nil {chunks : List Datum} {canonical : List Descriptor}
    (h : env.canonicalChunks chunks = .ok canonical) : canonical ≠ [] := by
  obtain ⟨hne, ds, hds, -, rfl⟩ := canonicalChunks_eq_ok.mp h
  intro hnil
  have hlen : ds.length = 0 := by
    rw [← (byId_perm ds).length_eq, hnil]
    rfl
  exact hne (List.eq_nil_of_length_eq_zero (hds.length_eq.trans hlen))

/-- a canonical chunk has no `:chunk-id` -/
theorem descriptor_datum (d : Descriptor) :
    env.descriptor d.datum = .error (.invalidCoordinationRequest "chunk-id" null) := by
  have hid : d.datum.get "chunk-id" = null := by simp [Descriptor.datum, Datum.get, kw]
  unfold Env.descriptor
  rw [hid]
  rfl

theorem chunkSetRoot_canonical {chunks : List Descriptor} (hne : chunks ≠ []) :
    env.chunkSetRoot (chunks.map Descriptor.datum)
      = .error (.invalidCoordinationRequest "chunk-id" null) := by
  obtain ⟨d, rest, rfl⟩ := List.exists_cons_of_ne_nil hne
  unfold Env.chunkSetRoot Env.canonicalChunks
  rw [List.map_cons, if_neg (List.cons_ne_nil _ _), List.mapM_cons, descriptor_datum]
  rfl

/-! ## every registration -/

/-- what a registration is refused for: the first check that it fails, or the missing `:chunk-id` of
its canonical chunks -/
def Env.refusal (env : Env) (r : Registration) : Thrown :=
  match env.checked r with
  | .error e => e
  | .ok _ => .invalidCoordinationRequest "chunk-id" null

theorem checked_ne_nil {r : Registration} {chunks : List Descriptor}
    (h : env.checked r = .ok chunks) : chunks ≠ [] := by
  unfold Env.checked at h
  obtain ⟨_, -, h⟩ := Fallible.bind_eq_ok.mp h
  obtain ⟨_, -, h⟩ := Fallible.bind_eq_ok.mp h
  obtain ⟨_, -, h⟩ := Fallible.bind_eq_ok.mp h
  exact canonicalChunks_ne_nil h

/-- no registration reaches its transaction -/
theorem registerRun_refused (env : Env)
    (transaction : Registration → List Descriptor → String → DB → Except Thrown Answer × DB)
    (r : Registration) (db : DB) : env.registerRun transaction r db = (.error (env.refusal r), db) := by
  unfold Env.registerRun Env.refusal
  cases h : env.checked r with
  | error e => rfl
  | ok chunks =>
    simp only [chunkSetRoot_canonical (checked_ne_nil h)]

end

/-- the chunks of a request that passes every check -/
example : (Env.mk (fun _ => true) fun _ => "root").refusal ⟨str "run", str "plan", str "execution",
    [.map [(kw "chunk-id", str "chunk-0001"), (kw "expected-input-root", str "input"),
      (kw "expected-work-root", str "work")]]⟩ = .invalidCoordinationRequest "chunk-id" null := by
  decide

end PRF.Coordination
