import Mathlib.Data.List.DropRight
import ProtocolRobustness.Allocation.Context
import ProtocolRobustness.Library.Runs
import ProtocolRobustness.Sew.Protocol
import ProtocolRobustness.Sew.Settlement

/-!
# Related claims

`sew/related_claims.clj` over `workflow_group.clj`: a relationship names workflows, by integers or by
strings that spell them, and is archived once all of them are terminal.  Two normalizations of a
name are at work: `normalize-workflow-id` of `types.clj`, by which members are looked up and stored,
and the one of `workflow_group.clj`, by which the members of a group are compared.  The comparison
with other relationships takes the names as they are written.  Hashes are left out.

* `WorkflowRef`, `normalize`, `groupNormalize`   names of workflows;
* `Relationship`, `ClaimsWorld`        the registry beside the world;
* `createRelatedClaims`, `archiveStaleRelationships`, `ClaimsWorld.step`      what is done to it;
* `Exclusive`, `ExclusiveRun`          what the registry promises;
* `Unmistaken`                         the creations whose names cannot be mistaken;
* `relationships_exclusive`            then every run keeps the promise.
-/

namespace PRF.Sew
open Table Fallible Runs

/-! ## names of workflows -/

/-- a workflow id, as a caller writes it -/
inductive WorkflowRef
  | int (n : ℤ)
  | text (s : String)
deriving DecidableEq

inductive ClaimsFailure
  | invalidRelatedClaims
  /-- an exception without a type of its own -/
  | relatedClaimsInvalid
  | finalize (failure : Failure)
deriving DecidableEq

/-- `str/trim` -/
def trim (cs : List Char) : List Char :=
  (cs.dropWhile Allocation.whitespace).rdropWhile Allocation.whitespace

def dropColon : List Char → List Char
  | ':' :: cs => cs
  | cs => cs

/-- what is spelled by digits alone; `Long/parseLong` throws on what is too large -/
def parseDigits (cs : List Char) : Except ClaimsFailure (Option ℕ) :=
  match Allocation.digits cs with
  | none => .ok none
  | some n => if n < 2 ^ 63 then .ok (some n) else .error .relatedClaimsInvalid

namespace WorkflowRef

/-- the workflow that the digits name; other names stay as they are -/
def parsed (ref : WorkflowRef) (cs : List Char) : Except ClaimsFailure WorkflowRef :=
  (parseDigits cs).map fun n => (n.map fun n : ℕ => .int n).getD ref

/-- `normalize-workflow-id` of `types.clj` -/
def normalize : WorkflowRef → Except ClaimsFailure WorkflowRef
  | .int n => .ok (.int n)
  | .text s => (WorkflowRef.text s).parsed (dropColon (trim s.toList))

/-- `normalize-workflow-id` of `workflow_group.clj` -/
def groupNormalize : WorkflowRef → Except ClaimsFailure WorkflowRef
  | .int n => .ok (.int n)
  | .text s =>
    (WorkflowRef.text s).parsed
      (if s.toList.head? = some ':' then s.toList.tail else trim s.toList)

end WorkflowRef

section
variable (w : World) (ref : WorkflowRef)

/-- the escrow of a normalized name -/
def WorkflowRef.transfer : WorkflowRef → Option Transfer
  | .int n => if 0 ≤ n then w.getTransfer n.toNat else none
  | .text _ => none

/-- `get-transfer` -/
def World.namedTransfer : Except ClaimsFailure (Option Transfer) :=
  ref.normalize.map (WorkflowRef.transfer w)

/-- `terminal-state?` -/
def World.namedTerminal : Except ClaimsFailure Bool :=
  (w.namedTransfer ref).map fun et => et.any fun et => et.escrowState.terminal

end

/-! ## the registry -/

structure RelatedMember where
  kind : String
  workflowId : WorkflowRef
deriving DecidableEq

inductive RelationshipStatus
  | active | archived
deriving DecidableEq

/-- the creator of a relationship, as far as it is given -/
structure Creator where
  type : Option String := none
  address : Option String := none
deriving DecidableEq

structure Relationship where
  relationshipId : ℕ
  type : String
  status : RelationshipStatus
  members : List RelatedMember
  semantics : Finset String
  reason : String
  createdBy : Option Creator
  createdAtStep : ℤ
  incidentRoot : Option String
  sharedEvidenceRoot : Option String
  resolutionPolicyRoot : Option String
deriving DecidableEq

def Relationship.workflows (rel : Relationship) : List WorkflowRef := rel.members.map RelatedMember.workflowId

structure ClaimsWorld where
  world : World
  relatedClaims : List (ℕ × Relationship) := []
  nextRelatedClaimId : ℕ := 0

/-- the options of a creation, with the defaults of those that are left out -/
structure ClaimsOptions where
  type : String
  members : List RelatedMember
  semantics : Finset String := {"audit-only"}
  reason : String := "unspecified"
  createdBy : Option Creator
  createdAtStep : ℤ := 0
  incidentRoot : Option String := none
  sharedEvidenceRoot : Option String := none
  resolutionPolicyRoot : Option String := none
  /-- `:authenticated?` or `:assurance` is given -/
  authOverride : Bool := false

def allowedRelationshipTypes : List String :=
  ["same-incident", "same-counterparty", "same-evidence", "governance-batch",
    "force-authorisation-batch", "resolver-batch", "appeal-batch"]

def workflowKind : String := "sew/workflow"

def allowedClaimKinds : List String := [workflowKind]

/-! ## validation -/

def claimsRequire (c : Prop) [Decidable c] : Except ClaimsFailure Unit :=
  if c then .ok () else .error .invalidRelatedClaims

namespace ClaimsOptions
variable (opts : ClaimsOptions)

/-- `validate-semantics!` -/
def semanticsSupported : Bool :=
  opts.semantics = {"audit-only"}
    || (opts.semantics = {"shared-resolution"} && opts.incidentRoot.isSome
      && opts.sharedEvidenceRoot.isSome && opts.resolutionPolicyRoot.isSome)

/-- `validate-creator-provenance!` -/
def creatorWellFormed : Bool :=
  opts.createdBy.any fun creator =>
    creator.type.isSome && creator.address.any fun address => address ≠ ""

end ClaimsOptions

namespace ClaimsWorld
variable (s : ClaimsWorld) (members : List RelatedMember)

def validateMembersExist : Except ClaimsFailure Unit :=
  members.forM fun m => do
    let et ← s.world.namedTransfer m.workflowId
    claimsRequire et.isSome

/-- the members of a group, as they are compared -/
def groupMembers : Except ClaimsFailure (List RelatedMember) :=
  members.mapM fun m => m.workflowId.groupNormalize.map fun ref => { m with workflowId := ref }

/-- the names, as they are written, of the members that are not terminal -/
def openNames : List RelatedMember → Except ClaimsFailure (List WorkflowRef)
  | [] => .ok []
  | m :: members => do
    let terminal ← s.world.namedTerminal m.workflowId
    let names ← openNames members
    .ok (if terminal then names else m.workflowId :: names)

def validateNoDuplicateMembers : Except ClaimsFailure Unit := do
  let group ← groupMembers members
  claimsRequire (group ≠ [] ∧ group.Nodup)
  let names ← s.openNames members
  claimsRequire (∀ e ∈ s.relatedClaims, e.2.status = .active → ∀ name ∈ names, name ∉ e.2.workflows)

def storedMembers : Except ClaimsFailure (List RelatedMember) :=
  members.mapM fun m => m.workflowId.normalize.map fun ref => { m with workflowId := ref }

def buildRelatedClaimsRecord (opts : ClaimsOptions) : Except ClaimsFailure Relationship := do
  let stored ← storedMembers opts.members
  .ok
    { relationshipId := s.nextRelatedClaimId
      type := opts.type
      status := .active
      members := stored
      semantics := opts.semantics
      reason := opts.reason
      createdBy := opts.createdBy
      createdAtStep := opts.createdAtStep
      incidentRoot := opts.incidentRoot
      sharedEvidenceRoot := opts.sharedEvidenceRoot
      resolutionPolicyRoot := opts.resolutionPolicyRoot }

def createRelatedClaims (opts : ClaimsOptions) : Except ClaimsFailure ClaimsWorld := do
  claimsRequire (opts.authOverride = false)
  claimsRequire (opts.type ∈ allowedRelationshipTypes)
  claimsRequire (opts.members ≠ [])
  claimsRequire opts.semanticsSupported
  claimsRequire (∀ m ∈ opts.members, m.kind ∈ allowedClaimKinds)
  s.validateMembersExist opts.members
  s.validateNoDuplicateMembers opts.members
  claimsRequire opts.creatorWellFormed
  let record ← s.buildRelatedClaimsRecord opts
  .ok
    { s with
      relatedClaims := put s.relatedClaims record.relationshipId record
      nextRelatedClaimId := s.nextRelatedClaimId + 1 }

/-! ## the archive -/

def allMembersTerminal (w : World) : List RelatedMember → Except ClaimsFailure Bool
  | [] => .ok true
  | m :: members => do
    let terminal ← w.namedTerminal m.workflowId
    if terminal then allMembersTerminal w members else .ok false

def archiveRelationshipIfComplete (relationshipId : ℕ) : Except ClaimsFailure ClaimsWorld :=
  match find s.relatedClaims relationshipId with
  | none => .ok s
  | some rel =>
    if rel.status = .active then do
      let complete ← allMembersTerminal s.world rel.members
      if complete then
        .ok
          { s with
            relatedClaims := put s.relatedClaims relationshipId { rel with status := .archived } }
      else .ok s
    else .ok s

def archiveStaleRelationships : Except ClaimsFailure ClaimsWorld :=
  s.relatedClaims.foldlM (fun s e => s.archiveRelationshipIfComplete e.1) s

end ClaimsWorld

/-! ## runs -/

inductive ClaimsOp
  | create (opts : ClaimsOptions)
  | finalize (workflowId : ℕ) (direction : Direction)
  | archiveStale

section
variable (runtime : YieldRuntime)

/-- an escrow is finalized by `finalize-escrow-accounting`, which archives what is complete -/
def ClaimsWorld.step (s : ClaimsWorld) : ClaimsOp → Except ClaimsFailure ClaimsWorld
  | .create opts => s.createRelatedClaims opts
  | .finalize workflowId direction =>
    match s.world.finalize runtime workflowId direction with
    | .error e => .error (.finalize e)
    | .ok w => { s with world := w }.archiveStaleRelationships
  | .archiveStale => s.archiveStaleRelationships

/-! ## exclusivity -/

/-- a workflow that is not terminal is in one active relationship at most -/
structure Exclusive (s : ClaimsWorld) : Prop where
  /-- names are integers, so that different names are different workflows -/
  normalized : ∀ e ∈ s.relatedClaims, ∀ name ∈ e.2.workflows, ∃ n : ℕ, name = .int n
  distinct : ∀ e ∈ s.relatedClaims, e.2.workflows.Nodup
  exclusive : ∀ n : ℕ, s.world.terminalState n = false →
    ∀ e ∈ s.relatedClaims, e.2.status = .active → .int n ∈ e.2.workflows →
    ∀ e' ∈ s.relatedClaims, e'.2.status = .active → .int n ∈ e'.2.workflows → e = e'

structure ExclusiveRun (s : ClaimsWorld) (ops : List ClaimsOp) : Prop where
  exclusive : ∀ n, Exclusive (run (ClaimsWorld.step runtime) s (ops.take n))
  archived : ∀ n m relationshipId rel, n ≤ m →
    find (run (ClaimsWorld.step runtime) s (ops.take n)).relatedClaims relationshipId = some rel →
    rel.status = .archived →
    find (run (ClaimsWorld.step runtime) s (ops.take m)).relatedClaims relationshipId = some rel
  rejected : ∀ n opts, ¬ ((run (ClaimsWorld.step runtime) s (ops.take n)).createRelatedClaims opts).isOk →
    after (ClaimsWorld.step runtime) (run (ClaimsWorld.step runtime) s (ops.take n)) (.create opts)
      = run (ClaimsWorld.step runtime) s (ops.take n)

end

/-- members that are stored under one name are compared under one name -/
def unmistakenMembers (members : List RelatedMember) : Bool :=
  members.all fun m => members.all fun m' =>
    m.workflowId.normalize ≠ m'.workflowId.normalize
      || m.workflowId.groupNormalize = m'.workflowId.groupNormalize

/-- a member that is not terminal is written as it is stored, or is in no active relationship -/
def ClaimsWorld.unmistakenMember (s : ClaimsWorld) (m : RelatedMember) : Bool :=
  s.world.namedTerminal m.workflowId = .ok true || m.workflowId.normalize = .ok m.workflowId
    || s.relatedClaims.all fun e => e.2.status ≠ .active
      || e.2.workflows.all fun name => m.workflowId.normalize ≠ .ok name

/-- **The names of a creation cannot be mistaken.** -/
def Unmistaken (s : ClaimsWorld) : ClaimsOp → Bool
  | .create opts => unmistakenMembers opts.members && opts.members.all s.unmistakenMember
  | _ => true

section
variable {runtime : YieldRuntime} {w w' : World} {s s' s₁ : ClaimsWorld} {members : List RelatedMember}
  {ref : WorkflowRef} {opts : ClaimsOptions}

theorem claimsRequire_ok {c : Prop} [Decidable c] {u : Unit} :
    claimsRequire c = .ok u ↔ c := by
  unfold claimsRequire
  by_cases h : c <;> simp [h]

/-! ## names -/

theorem namedTransfer_some {et : Transfer} (h : w.namedTransfer ref = .ok (some et)) :
    ∃ n : ℕ, ref.normalize = .ok (.int n) ∧ w.getTransfer n = some et := by
  obtain ⟨name, hname, het⟩ := map_eq_ok.mp h
  cases name with
  | text s => cases het
  | int n =>
    have hn : 0 ≤ n := by
      by_contra hn
      rw [WorkflowRef.transfer, if_neg hn] at het
      cases het
    refine ⟨n.toNat, ?_, ?_⟩
    · rw [Int.toNat_of_nonneg hn]
      exact hname
    · rw [WorkflowRef.transfer, if_pos hn] at het
      exact het

theorem namedTerminal_of_normalize {n : ℕ} (h : ref.normalize = .ok (.int n)) :
    w.namedTerminal ref = .ok (w.terminalState n) := by
  unfold World.namedTerminal World.namedTransfer World.terminalState World.escrowState
  rw [h]
  show Except.ok _ = _
  rw [WorkflowRef.transfer, if_pos (Int.natCast_nonneg n), Int.toNat_natCast, Option.any_map]

/-! ## creations -/

theorem openNames_ok {names : List WorkflowRef} (h : s.openNames members = .ok names) :
    ∀ m ∈ members, s.world.namedTerminal m.workflowId = .ok false → m.workflowId ∈ names := by
  induction members generalizing names with
  | nil => exact fun m hm => nomatch hm
  | cons m members ih =>
    rw [ClaimsWorld.openNames] at h
    simp only [bind_eq_ok, Except.ok.injEq] at h
    obtain ⟨terminal, hterminal, rest, hrest, rfl⟩ := h
    intro m' hm' hopen
    rcases List.mem_cons.mp hm' with rfl | hm'
    · rw [hterminal, Except.ok.injEq] at hopen
      rw [hopen]
      exact List.mem_cons_self
    · have hmem := ih hrest m' hm' hopen
      split
      · exact hmem
      · exact List.mem_cons_of_mem _ hmem

/-- what an accepted creation has checked, and what it stores -/
structure ClaimsCreated (s : ClaimsWorld) (opts : ClaimsOptions) (s' : ClaimsWorld) (stored : List RelatedMember) :
    Prop where
  exist : ∀ m ∈ opts.members, ∃ n : ℕ, m.workflowId.normalize = .ok (.int n)
  compared : (opts.members.map fun m => (m.kind, m.workflowId.groupNormalize)).Nodup
  kinds : ∀ m ∈ opts.members, m.kind = workflowKind
  unshared : ∀ e ∈ s.relatedClaims, e.2.status = .active → ∀ m ∈ opts.members,
    s.world.namedTerminal m.workflowId = .ok false → m.workflowId ∉ e.2.workflows
  normalized : opts.members.map (fun m => m.workflowId.normalize)
    = stored.map fun m => .ok m.workflowId
  world : s'.world = s.world
  next : s'.nextRelatedClaimId = s.nextRelatedClaimId + 1
  entries : ∃ rel : Relationship, rel.status = .active ∧ rel.members = stored ∧
    s'.relatedClaims = put s.relatedClaims s.nextRelatedClaimId rel

theorem mapM_names {f : WorkflowRef → Except ClaimsFailure WorkflowRef} {bs : List RelatedMember}
    (h : (members.mapM fun m => (f m.workflowId).map fun ref => { m with workflowId := ref }) = .ok bs) :
    members.map (fun m => (m.kind, f m.workflowId)) = bs.map fun m => (m.kind, .ok m.workflowId) := by
  rw [mapM_ok_iff] at h
  induction h with
  | nil => rfl
  | cons hm _ ih =>
    obtain ⟨name, hname, rfl⟩ := map_eq_ok.mp hm
    rw [List.map_cons, List.map_cons, ih, hname]

theorem validateMembersExist_ok (h : s.validateMembersExist members = .ok ()) :
    ∀ m ∈ members, ∃ n : ℕ, m.workflowId.normalize = .ok (.int n) := by
  intro m hm
  have hturn := forM_ok_iff.mp h m hm
  rw [bind_eq_ok] at hturn
  obtain ⟨found, hfound, hsome⟩ := hturn
  obtain ⟨et, rfl⟩ := Option.isSome_iff_exists.mp (claimsRequire_ok.mp hsome)
  obtain ⟨n, hn, _⟩ := namedTransfer_some hfound
  exact ⟨n, hn⟩

theorem createRelatedClaims_ok (h : s.createRelatedClaims opts = .ok s') :
    ∃ stored, ClaimsCreated s opts s' stored := by
  unfold ClaimsWorld.createRelatedClaims ClaimsWorld.validateNoDuplicateMembers
    ClaimsWorld.buildRelatedClaimsRecord at h
  simp only [bind_eq_ok, claimsRequire_ok, Except.ok.injEq, exists_const] at h
  obtain ⟨_, _, _, _, hkinds, _, hexist, ⟨group, hgroup, ⟨_, hnodup⟩, names, hnames, hunshared⟩, _,
    record, ⟨stored, hstored, rfl⟩, rfl⟩ := h
  have hcompared := mapM_names hgroup
  have hnormalized := congrArg (List.map Prod.snd) (mapM_names hstored)
  refine ⟨stored, ?_⟩
  exact
    { exist := validateMembersExist_ok hexist
      compared := by
        rw [hcompared]
        refine hnodup.map fun m m' heq => ?_
        cases m
        cases m'
        cases heq
        rfl
      kinds := fun m hm => List.mem_singleton.mp (hkinds m hm)
      unshared := fun e he hactive m hm hopen =>
        hunshared e he hactive _ (openNames_ok hnames m hm hopen)
      normalized := by
        rw [List.map_map, List.map_map] at hnormalized
        exact hnormalized
      world := rfl
      next := rfl
      entries := ⟨_, rfl, rfl, rfl⟩ }

theorem ClaimsCreated.nodup {stored : List RelatedMember} (h : ClaimsCreated s opts s' stored)
    (hnames : unmistakenMembers opts.members = true) :
    (stored.map RelatedMember.workflowId).Nodup := by
  have hnormal : (opts.members.map fun m => m.workflowId.normalize).Nodup := by
    have hpairs := List.pairwise_map.mp h.compared
    refine List.pairwise_map.mpr (hpairs.imp_of_mem fun {m m'} hm hm' hne heq => ?_)
    have hsafe := List.all_eq_true.mp (List.all_eq_true.mp hnames m hm) m' hm'
    have hgroup : m.workflowId.groupNormalize = m'.workflowId.groupNormalize := by
      simpa [heq] using hsafe
    exact hne (Prod.ext ((h.kinds m hm).trans (h.kinds m' hm').symm) hgroup)
  rw [h.normalized] at hnormal
  exact List.Nodup.of_map (Except.ok (ε := ClaimsFailure)) (by rwa [List.map_map])

theorem ClaimsCreated.mem_stored {stored : List RelatedMember} (h : ClaimsCreated s opts s' stored)
    {name : WorkflowRef} (hname : name ∈ stored.map RelatedMember.workflowId) :
    ∃ m ∈ opts.members, m.workflowId.normalize = .ok name := by
  obtain ⟨m, hm, rfl⟩ := List.mem_map.mp hname
  have hmem : Except.ok m.workflowId ∈ stored.map fun m => Except.ok (ε := ClaimsFailure) m.workflowId :=
    List.mem_map_of_mem hm
  rw [← h.normalized] at hmem
  exact List.mem_map.mp hmem

/-! ## the registry -/

/-- numbers are given in order -/
def ClaimsWorld.Numbered (s : ClaimsWorld) : Prop :=
  ∀ e ∈ s.relatedClaims, e.1 < s.nextRelatedClaimId

theorem ClaimsCreated.numbered {stored : List RelatedMember} (h : ClaimsCreated s opts s' stored)
    (hs : s.Numbered) : s'.Numbered := by
  obtain ⟨rel, _, _, hrel⟩ := h.entries
  intro e he
  rw [hrel] at he
  rw [h.next]
  rcases mem_put he with rfl | ⟨he, _⟩
  · exact Nat.lt_succ_self _
  · exact (hs e he).trans (Nat.lt_succ_self _)

/-- **A creation whose names cannot be mistaken** keeps workflows to one active relationship. -/
theorem ClaimsCreated.exclusive {stored : List RelatedMember} (h : ClaimsCreated s opts s' stored)
    (hs : Exclusive s) (hnames : Unmistaken s (.create opts) = true) : Exclusive s' := by
  obtain ⟨hgroup, hmembers⟩ := (Bool.and_eq_true _ _).mp hnames
  obtain ⟨rel, hactive, hstored, hrel⟩ := h.entries
  have hworkflows : rel.workflows = stored.map RelatedMember.workflowId := by
    rw [Relationship.workflows, hstored]
  -- a workflow of the new relationship that is not terminal is in no active one before it
  have hfresh : ∀ n : ℕ, s.world.terminalState n = false → .int n ∈ rel.workflows →
      ∀ e ∈ s.relatedClaims, e.2.status = .active → .int n ∉ e.2.workflows := by
    intro n hopen hn e he hstatus hmem
    rw [hworkflows] at hn
    obtain ⟨m, hm, hnormal⟩ := h.mem_stored hn
    have hterminal : s.world.namedTerminal m.workflowId = .ok false := by
      rw [namedTerminal_of_normalize hnormal, hopen]
    have hsafe := List.all_eq_true.mp hmembers m hm
    unfold ClaimsWorld.unmistakenMember at hsafe
    simp only [hterminal, hnormal, Except.ok.injEq, Bool.false_eq_true, Bool.or_eq_true,
      decide_eq_true_eq, List.all_eq_true, false_or] at hsafe
    rcases hsafe with hwritten | hnone
    · exact h.unshared e he hstatus m hm hterminal (hwritten ▸ hmem)
    · rcases hnone e he with hstatus' | hnot
      · exact hstatus' hstatus
      · exact hnot _ hmem rfl
  have hworld : ∀ n, s'.world.terminalState n = s.world.terminalState n := by
    intro n
    rw [h.world]
  refine ⟨fun e he => ?_, fun e he => ?_, fun n hopen e he hstatus hmem e' he' hstatus' hmem' => ?_⟩
  · rw [hrel] at he
    rcases mem_put he with rfl | ⟨he, _⟩
    · intro name hname
      rw [hworkflows] at hname
      obtain ⟨m, hm, hnormal⟩ := h.mem_stored hname
      obtain ⟨n, hn⟩ := h.exist m hm
      exact ⟨n, Except.ok.inj (hnormal.symm.trans hn)⟩
    · exact hs.normalized e he
  · rw [hrel] at he
    rcases mem_put he with rfl | ⟨he, _⟩
    · show rel.workflows.Nodup
      rw [hworkflows]
      exact h.nodup hgroup
    · exact hs.distinct e he
  · rw [hrel] at he he'
    rw [hworld] at hopen
    rcases mem_put he with rfl | ⟨he, _⟩
    · rcases mem_put he' with rfl | ⟨he', _⟩
      · rfl
      · exact absurd hmem' (hfresh n hopen hmem e' he' hstatus')
    · rcases mem_put he' with rfl | ⟨he', _⟩
      · exact absurd hmem (hfresh n hopen hmem' e he hstatus)
      · exact hs.exclusive n hopen e he hstatus hmem e' he' hstatus' hmem'

/-! ## archives -/

/-- some active relationships may be archived, and nothing else changes -/
structure Archives (s s' : ClaimsWorld) : Prop where
  world : s'.world = s.world
  next : s'.nextRelatedClaimId = s.nextRelatedClaimId
  entries : ∀ e' ∈ s'.relatedClaims, ∃ e ∈ s.relatedClaims,
    e.1 = e'.1 ∧ e.2.members = e'.2.members ∧ (e'.2.status = .active → e = e')
  archived : ∀ relationshipId rel, find s.relatedClaims relationshipId = some rel →
    rel.status = .archived → find s'.relatedClaims relationshipId = some rel

namespace Archives

theorem refl (s : ClaimsWorld) : Archives s s where
  world := rfl
  next := rfl
  entries e he := ⟨e, he, rfl, rfl, fun _ => rfl⟩
  archived _ _ h _ := h

theorem trans (h₁ : Archives s s₁) (h₂ : Archives s₁ s') : Archives s s' where
  world := h₂.world.trans h₁.world
  next := h₂.next.trans h₁.next
  entries e' he' := by
    obtain ⟨e₁, he₁, hid₁, hmembers₁, hactive₁⟩ := h₂.entries e' he'
    obtain ⟨e, he, hid, hmembers, hactive⟩ := h₁.entries e₁ he₁
    refine ⟨e, he, hid.trans hid₁, hmembers.trans hmembers₁, fun h => ?_⟩
    have heq := hactive₁ h
    rw [← heq]
    exact hactive (heq ▸ h)
  archived relationshipId rel h harchived :=
    h₂.archived _ _ (h₁.archived _ _ h harchived) harchived

theorem numbered (h : Archives s s') (hs : s.Numbered) : s'.Numbered := by
  intro e' he'
  obtain ⟨e, he, hid, _⟩ := h.entries e' he'
  rw [h.next, ← hid]
  exact hs e he

theorem exclusive (h : Archives s s') (hs : Exclusive s) : Exclusive s' := by
  have hworkflows : ∀ e' ∈ s'.relatedClaims, ∃ e ∈ s.relatedClaims, e.2.workflows = e'.2.workflows := by
    intro e' he'
    obtain ⟨e, he, _, hmembers, _⟩ := h.entries e' he'
    exact ⟨e, he, congrArg (List.map RelatedMember.workflowId) hmembers⟩
  have hactive : ∀ e' ∈ s'.relatedClaims, e'.2.status = .active → e' ∈ s.relatedClaims := by
    intro e' he' hstatus
    obtain ⟨e, he, _, _, heq⟩ := h.entries e' he'
    exact heq hstatus ▸ he
  constructor
  · intro e' he'
    obtain ⟨e, he, heq⟩ := hworkflows e' he'
    rw [← heq]
    exact hs.normalized e he
  · intro e' he'
    obtain ⟨e, he, heq⟩ := hworkflows e' he'
    rw [← heq]
    exact hs.distinct e he
  · intro n hopen e he hstatus hmem e' he' hstatus' hmem'
    rw [h.world] at hopen
    exact hs.exclusive n hopen e (hactive e he hstatus) hstatus hmem e' (hactive e' he' hstatus')
      hstatus' hmem'

end Archives

theorem archiveRelationshipIfComplete_ok {relationshipId : ℕ}
    (h : s.archiveRelationshipIfComplete relationshipId = .ok s') : Archives s s' := by
  unfold ClaimsWorld.archiveRelationshipIfComplete at h
  split at h
  · rw [← Except.ok.inj h]
    exact .refl s
  · next rel hrel =>
    split at h
    · next hactive =>
      simp only [bind_eq_ok] at h
      obtain ⟨complete, _, h⟩ := h
      split at h
      · rw [← Except.ok.inj h]
        refine ⟨rfl, rfl, fun e' he' => ?_, fun relationshipId' rel' hrel' harchived => ?_⟩
        · rcases mem_put he' with rfl | ⟨he', _⟩
          · exact ⟨(relationshipId, rel), mem_of_find hrel, rfl, rfl, fun hstatus => nomatch hstatus⟩
          · exact ⟨e', he', rfl, rfl, fun _ => rfl⟩
        · show find (put _ _ _) relationshipId' = some rel'
          rw [find_put]
          split
          · next hid =>
            subst hid
            rw [hrel, Option.some.injEq] at hrel'
            rw [hrel', harchived] at hactive
            cases hactive
          · exact hrel'
      · rw [← Except.ok.inj h]
        exact .refl s
    · rw [← Except.ok.inj h]
      exact .refl s

theorem archiveStaleRelationships_ok (h : s.archiveStaleRelationships = .ok s') : Archives s s' :=
  foldlM_invariant (I := Archives s)
    (fun _ _ _ _ hs₁ hok => hs₁.trans (archiveRelationshipIfComplete_ok hok)) (Archives.refl s) h

theorem finalize_open {direction : Direction} {workflowId n : ℕ}
    (h : w.finalize runtime workflowId direction = .ok w') (hopen : w'.terminalState n = false) :
    w.terminalState n = false := by
  obtain ⟨et, hended⟩ := finalize_core h
  unfold World.terminalState World.escrowState at hopen ⊢
  rw [hended.getTransfer] at hopen
  split at hopen
  · have hterminal : (et.ended direction).escrowState.terminal = true := Finalized.terminal
    rw [Option.map_some, Option.any_some, hterminal] at hopen
    cases hopen
  · exact hopen

/-! ## runs -/

theorem claims_step {op : ClaimsOp} (h : s.step runtime op = .ok s') :
    (∃ opts stored, op = .create opts ∧ ClaimsCreated s opts s' stored) ∨
    ∃ w', Archives { s with world := w' } s' ∧
      ∀ n, w'.terminalState n = false → s.world.terminalState n = false := by
  cases op with
  | create opts =>
    obtain ⟨stored, hcreated⟩ := createRelatedClaims_ok h
    exact Or.inl ⟨opts, stored, rfl, hcreated⟩
  | finalize workflowId direction =>
    unfold ClaimsWorld.step at h
    dsimp only at h
    split at h
    · cases h
    · next w' hfinal =>
      exact Or.inr ⟨w', archiveStaleRelationships_ok h, fun n => finalize_open hfinal⟩
  | archiveStale => exact Or.inr ⟨s.world, archiveStaleRelationships_ok h, fun _ hopen => hopen⟩

theorem numbered_step {op : ClaimsOp} (hs : s.Numbered) (h : s.step runtime op = .ok s') :
    s'.Numbered := by
  rcases claims_step h with ⟨opts, stored, _, hcreated⟩ | ⟨w', harchives, _⟩
  · exact hcreated.numbered hs
  · exact harchives.numbered hs

theorem exclusive_step {op : ClaimsOp} (hs : Exclusive s) (hnames : Unmistaken s op = true)
    (h : s.step runtime op = .ok s') : Exclusive s' := by
  rcases claims_step h with ⟨opts, stored, rfl, hcreated⟩ | ⟨w', harchives, hopen⟩
  · exact hcreated.exclusive hs hnames
  · refine harchives.exclusive ?_
    exact ⟨hs.normalized, hs.distinct, fun n hn => hs.exclusive n (hopen n hn)⟩

theorem archived_step {op : ClaimsOp} {relationshipId : ℕ} {rel : Relationship} (hs : s.Numbered)
    (hrel : find s.relatedClaims relationshipId = some rel) (harchived : rel.status = .archived)
    (h : s.step runtime op = .ok s') : find s'.relatedClaims relationshipId = some rel := by
  rcases claims_step h with ⟨opts, stored, _, hcreated⟩ | ⟨w', harchives, _⟩
  · obtain ⟨new, _, _, hnew⟩ := hcreated.entries
    have hold : relationshipId < s.nextRelatedClaimId := hs _ (mem_of_find hrel)
    rw [hnew, find_put, if_neg hold.ne']
    exact hrel
  · exact harchives.archived relationshipId rel hrel harchived

theorem archived_run {relationshipId : ℕ} {rel : Relationship} (hs : s.Numbered)
    (hrel : find s.relatedClaims relationshipId = some rel) (harchived : rel.status = .archived)
    (ops : List ClaimsOp) :
    find (run (ClaimsWorld.step runtime) s ops).relatedClaims relationshipId = some rel :=
  (run_induction (I := fun s => s.Numbered ∧ find s.relatedClaims relationshipId = some rel)
    (fun _ _ _ hs hok => ⟨numbered_step hs.1 hok, archived_step hs.1 hs.2 harchived hok⟩)
    ⟨hs, hrel⟩ ops).2

/-- **When the names of creations cannot be mistaken, relationships are exclusive**, at every point
of every run. -/
theorem relationships_exclusive (runtime : YieldRuntime) (hs : s.relatedClaims = [])
    {ops : List ClaimsOp}
    (hnames : Along (ClaimsWorld.step runtime) (fun s op => Unmistaken s op = true) s ops) :
    ExclusiveRun runtime s ops := by
  have hnone : ∀ e, e ∉ s.relatedClaims := by
    intro e
    rw [hs]
    exact List.not_mem_nil
  have hstart : Exclusive s :=
    ⟨fun e he => absurd he (hnone e), fun e he => absurd he (hnone e),
      fun _ _ e he => absurd he (hnone e)⟩
  have hnumbered : s.Numbered := fun e he => absurd he (hnone e)
  constructor
  · intro n
    exact run_induction_along (fun _ _ _ => exclusive_step) hstart (hnames.take n)
  · intro n m relationshipId rel hnm hrel harchived
    have hsplit : ops.take m = ops.take n ++ (ops.take m).drop n := by
      conv_lhs => rw [← List.take_append_drop n (ops.take m), List.take_take, min_eq_left hnm]
    rw [hsplit, run_append]
    refine archived_run ?_ hrel harchived _
    exact run_induction (fun _ _ _ => numbered_step) hnumbered _
  · intro n opts hrejected
    exact after_refused hrejected

end

/-- two escrows, and none has a yield module -/
def twoEscrows : ClaimsWorld where
  world :=
    { emptyWorld {} 0 with
      escrows :=
        { transfers :=
            [(0, { token := "T", sender := "a", recipient := "b", amountAfterFee := 100 }),
              (1, { token := "T", sender := "a", recipient := "b", amountAfterFee := 100 })] } }

/-- the same incident, of workflows by their names -/
def sameIncident (names : List WorkflowRef) : ClaimsOp :=
  .create
    { type := "same-incident"
      members := names.map fun name => ⟨workflowKind, name⟩
      createdBy := some { type := some "governance", address := some "gov" } }

theorem relationships_exclusive_archived :
    ExclusiveRun bareEnvironment.runtime twoEscrows
      [sameIncident [.text " :0 ", .int 1], .finalize 0 .released, .finalize 1 .refunded,
        sameIncident [.text "1"], .archiveStale] :=
  relationships_exclusive bareEnvironment.runtime rfl (by decide +kernel)

/-- Workflow 0 is in an active relationship, and its name "0" is put in another one. -/
theorem relationships_exclusive_counterexample :
    ¬ ExclusiveRun bareEnvironment.runtime twoEscrows [sameIncident [.int 0], sameIncident [.text "0"]] := by
  intro h
  have hlast := (h.exclusive 2).exclusive 0
  revert hlast
  decide +kernel

end PRF.Sew
