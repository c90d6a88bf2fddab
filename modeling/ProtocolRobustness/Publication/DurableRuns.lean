import ProtocolRobustness.Publication.DurableStore

/-!
# The history of a partition

* `Extends`, `Chained`      what a publication adds to the history of its conflict key;
* `history`                 the publications of a run that were committed, by conflict key;
* `Holds`                   the store is what these histories make of it;
* `Holds.publish`           one publication extends one history by one entry, or none;
* `published_chain`         the history of every run is one chain, and the store holds it;
* `resolved_is_published`   three reads while others publish give one publication.
-/

set_option linter.unusedSectionVars false

namespace PRF.Publication
open Table Fallible

section
variable {κ ι ε : Type} [DecidableEq κ] [DecidableEq ι] {R : Roots κ ι} {V : Validation κ ι ε}

/-! ## histories -/

/-- the head that commits a history -/
def lastHead (R : Roots κ ι) (h : List (Resolution κ ι)) : Head ι :=
  (h.getLast?.map Resolution.head).getD (initialHead R .v2)

structure Extends (R : Roots κ ι) (k : κ) (h : List (Resolution κ ι)) (e : Resolution κ ι) : Prop where
  head : e.head = successorHead R .v2 (lastHead R h) e.ordering.hash (some e.binding.root)
  eligible : Eligible R e.binding e.ordering
  key : e.ordering.conflictKey = k
  index : e.ordering.commitIndex = h.length + 1
  previous : e.ordering.previousTransactionHash = h.getLast?.map fun p => p.ordering.hash
  state : ∀ p ∈ h.getLast?, p.ordering.stateAfterRoot = e.ordering.stateBeforeRoot

inductive Chained (R : Roots κ ι) (k : κ) : List (Resolution κ ι) → Prop
  | nil : Chained R k []
  | snoc {h : List (Resolution κ ι)} {e : Resolution κ ι} (hchained : Chained R k h)
      (hextends : Extends R k h e) : Chained R k (h ++ [e])

variable {k : κ} {h : List (Resolution κ ι)} {e : Resolution κ ι}

theorem lastHead_concat (h : List (Resolution κ ι)) (e : Resolution κ ι) :
    lastHead R (h ++ [e]) = e.head := by
  rw [lastHead, List.getLast?_concat]
  rfl

/-- the last head says how long the history is, and what it committed last -/
structure Tip (R : Roots κ ι) (h : List (Resolution κ ι)) : Prop where
  valid : (lastHead R h).valid R = true
  sequence : (lastHead R h).sequence = h.length
  ordering : (lastHead R h).lastOrderingRoot = h.getLast?.map fun p => p.ordering.hash
  binding : (lastHead R h).applicationBindingRoot = h.getLast?.map fun p => p.binding.root

theorem Chained.tip (hh : Chained R k h) : Tip R h := by
  induction hh with
  | nil =>
    refine ⟨?_, rfl, rfl, rfl⟩
    show (decide _ && decide _) = true
    simp [lastHead, initialHead]
  | @snoc h e hchained hextends ih =>
    have hhead := hextends.head
    rw [successorHead] at hhead
    refine ⟨?_, ?_, ?_, ?_⟩ <;> rw [lastHead_concat, hhead]
    · simp [Head.valid]
    · simp [ih.sequence]
    · simp
    · simp

theorem Chained.mem (hh : Chained R k h) (he : e ∈ h) : ∃ h', Extends R k h' e := by
  induction hh with
  | nil => cases he
  | @snoc h e' hchained hextends ih =>
    rcases List.mem_append.mp he with he | he
    · exact ih he
    · obtain rfl := List.mem_singleton.mp he
      exact ⟨h, hextends⟩

theorem Chained.last_index (hh : Chained R k h) (he : e ∈ h.getLast?) :
    e.ordering.commitIndex = h.length := by
  cases hh with
  | nil => cases he
  | @snoc h e' hchained hextends =>
    rw [List.getLast?_concat] at he
    cases he
    rw [hextends.index]
    simp

theorem Chained.follows (hh : Chained R k h) :
    List.IsChain Follows (h.map fun e => e.ordering)
      ∧ ∀ o ∈ (h.map fun e => e.ordering).head?, o.previousTransactionHash = none := by
  induction hh with
  | nil => exact ⟨List.isChain_nil, nofun⟩
  | @snoc h e hchained hextends ih =>
    rw [List.map_append, List.map_singleton]
    constructor
    · refine List.isChain_append.mpr ⟨ih.1, List.isChain_singleton _, fun o ho o' ho' => ?_⟩
      cases ho'
      rw [List.getLast?_map, Option.mem_def, Option.map_eq_some_iff] at ho
      obtain ⟨p, hp, rfl⟩ := ho
      obtain ⟨h', hp'⟩ := hchained.mem (List.mem_of_getLast? hp)
      refine ⟨?_, hextends.state p hp, ?_, hextends.key.trans hp'.key.symm⟩
      · rw [hextends.previous, hp]
        rfl
      · rw [hchained.last_index hp, hextends.index]
        omega
    · intro o ho
      cases hnil : h with
      | nil =>
        rw [hnil] at ho
        cases ho
        rw [hextends.previous, hnil]
        rfl
      | cons e' h' =>
        apply ih.2 o
        rw [hnil] at ho ⊢
        exact ho

/-- **The orderings of a history pass `verify-ordering-chain`.** -/
theorem Chained.verified (hh : Chained R k h) :
    verifyOrderingChain R (h.map fun e => e.ordering) none = [] := by
  refine verifyOrderingChain_eq_nil (fun o ho => ?_) hh.follows.1 hh.follows.2
  obtain ⟨e, he, rfl⟩ := List.mem_map.mp ho
  obtain ⟨h', hextends⟩ := hh.mem he
  exact hextends.eligible.verified

/-- the heads of a history name each other by their roots -/
theorem Chained.linked (hh : Chained R k h) :
    HashChain.LinkedFrom Head.headRoot (fun head => head.predecessorRoot)
      (some (initialHead R .v2).headRoot) (h.map Resolution.head) := by
  induction hh with
  | nil => exact trivial
  | @snoc h e hchained hextends ih =>
    rw [List.map_append, List.map_singleton, HashChain.linkedFrom_concat]
    refine ⟨ih, ?_⟩
    rw [hextends.head, HashChain.tip, List.getLast?_map]
    show some (lastHead R h).headRoot = _
    rw [lastHead]
    cases h.getLast? with
    | none => rfl
    | some p => rfl

/-! ## the store of a history -/

structure Holds (R : Roots κ ι) (s : Store κ ι) (H : κ → List (Resolution κ ι)) : Prop where
  chained : ∀ k, Chained R k (H k)
  row : ∀ k row, find s.partitions (R.partitionId k) = some row →
    row = ⟨k, lastHead R (H k), (lastHead R (H k)).headRoot, (H k).length⟩
  absent : ∀ k, find s.partitions (R.partitionId k) = none → H k = []
  ordering : ∀ k, ∀ e ∈ H k, find s.orderings e.ordering.hash = some e.ordering
  binding : ∀ k, ∀ e ∈ H k, find s.bindings e.binding.root = some (e.ordering.hash, e.binding)

variable {s s₁ s' : Store κ ι} {H : κ → List (Resolution κ ι)} {q : Submission κ ι ε}
  {row : PartitionRow κ ι}

theorem holds_empty : Holds R (Store.empty : Store κ ι) fun _ => [] where
  chained := fun _ => .nil
  row := nofun
  absent := fun _ _ => rfl
  ordering := nofun
  binding := nofun

theorem Holds.head (h : Holds R s H) (k : κ) :
    currentHeadAndVersion R s k
      = if (find s.partitions (R.partitionId k)).isSome then some (lastHead R (H k), (H k).length)
        else none := by
  rw [currentHeadAndVersion]
  cases hrow : find s.partitions (R.partitionId k) with
  | none => rfl
  | some row =>
    obtain rfl := h.row k row hrow
    show (if _ then _ else _) = _
    rw [if_pos ⟨(h.chained k).tip.valid, rfl⟩]
    rfl

theorem Holds.resolveOrdering (h : Holds R s H) (he : e ∈ H k) :
    resolveOrdering R s e.ordering.hash = some e.ordering := by
  obtain ⟨h', hextends⟩ := (h.chained k).mem he
  rw [Publication.resolveOrdering, h.ordering k e he]
  exact if_pos ⟨rfl, hextends.eligible.verified⟩

theorem Holds.resolveBinding (h : Holds R s H) (he : e ∈ H k) :
    resolveBinding R s e.binding.root = some e.binding := by
  obtain ⟨h', hextends⟩ := (h.chained k).mem he
  rw [Publication.resolveBinding, h.binding k e he]
  exact if_pos ⟨rfl, hextends.eligible.root⟩

/-- a partition is locked as its history left it -/
theorem Holds.locked (hR : Function.Injective R.partitionId) (h : Holds R s H) (k : κ) :
    ∃ s₁, lockedPartition R s k
        = .ok (s₁, ⟨k, lastHead R (H k), (lastHead R (H k)).headRoot, (H k).length⟩)
      ∧ Holds R s₁ H
      ∧ (find s₁.partitions (R.partitionId k)).isSome := by
  unfold lockedPartition
  dsimp only
  cases hrow : find s.partitions (R.partitionId k) with
  | some row =>
    obtain rfl := h.row k row hrow
    refine ⟨s, ?_, h, by rw [hrow]; rfl⟩
    exact if_neg (not_not.mpr rfl)
  | none =>
    have hnil := h.absent k hrow
    have hlast : lastHead R (H k) = initialHead R .v2 := by
      rw [hnil]
      rfl
    rw [hlast, hnil]
    refine ⟨_, rfl, ⟨h.chained, fun k' row' hrow' => ?_, fun k' hrow' => ?_, h.ordering, h.binding⟩,
      ?_⟩
    · dsimp only at hrow'
      rw [find_put] at hrow'
      split at hrow'
      · next hid =>
        obtain rfl := hR hid
        cases hrow'
        rw [hlast, hnil]
        rfl
      · exact h.row k' row' hrow'
    · dsimp only at hrow'
      rw [find_put] at hrow'
      split at hrow'
      · cases hrow'
      · exact h.absent k' hrow'
    · dsimp only
      rw [find_put, if_pos rfl]
      rfl

/-- the predecessor that a transaction locks is the last entry of the history -/
theorem Holds.predecessor (h : Holds R s H) (k : κ) :
    lockedPredecessorOrdering R s (lastHead R (H k))
      = .ok ((H k).getLast?.map fun p => p.ordering) := by
  rw [lockedPredecessorOrdering, (h.chained k).tip.ordering]
  cases hlast : (H k).getLast? with
  | none => rfl
  | some p =>
    have hp := List.mem_of_getLast? hlast
    obtain ⟨h', hextends⟩ := (h.chained k).mem hp
    dsimp only [Option.map_some]
    rw [h.ordering k p hp]
    exact if_pos ⟨rfl, hextends.eligible.verified⟩

theorem Holds.extends (h : Holds R s H) {ordering : Ordering κ ι} {binding : Binding ι}
    (heligible : Eligible R binding ordering)
    (hviolation : semanticSuccessorViolation (lastHead R (H ordering.conflictKey))
      ((H ordering.conflictKey).getLast?.map fun p => p.ordering) ordering = none) :
    Extends R ordering.conflictKey (H ordering.conflictKey)
      ⟨successorHead R .v2 (lastHead R (H ordering.conflictKey)) ordering.hash (some binding.root),
        binding, ordering⟩ := by
  have htip := (h.chained ordering.conflictKey).tip
  unfold semanticSuccessorViolation at hviolation
  split at hviolation
  · cases hviolation
  · next hprevious =>
    split at hviolation
    · cases hviolation
    · next hstate =>
      split at hviolation
      · cases hviolation
      · split at hviolation
        · cases hviolation
        · next hindex =>
          refine ⟨rfl, heligible, rfl, ?_, ?_, fun p hp => ?_⟩
          · rw [← not_not.mp hindex, htip.sequence]
          · rw [← not_not.mp hprevious, htip.ordering]
          · rw [Option.mem_def.mp hp] at hstate
            simpa using hstate

theorem retainedOrdering_ok {ordering : Ordering κ ι} (h : retainedOrdering s ordering = .ok s') :
    s'.partitions = s.partitions ∧ s'.bindings = s.bindings
      ∧ find s'.orderings ordering.hash = some ordering
      ∧ ∀ root o, find s.orderings root = some o → find s'.orderings root = some o := by
  unfold retainedOrdering at h
  cases hold : find s.orderings ordering.hash with
  | none =>
    rw [hold] at h
    cases h
    refine ⟨rfl, rfl, ?_, fun root o ho => ?_⟩
    · dsimp only
      rw [find_put, if_pos rfl]
    · dsimp only
      rw [find_put]
      split
      · next heq =>
        rw [heq, ho] at hold
        cases hold
      · exact ho
  | some existing =>
    rw [hold] at h
    obtain ⟨heq, hs⟩ := require_eq_ok.mp h
    cases hs
    exact ⟨rfl, rfl, heq ▸ hold, fun _ _ ho => ho⟩

theorem retainedBinding_ok {binding : Binding ι} (h : retainedBinding s binding = .ok s') :
    s'.partitions = s.partitions ∧ s'.orderings = s.orderings
      ∧ find s'.bindings binding.root = some (binding.publicationOrderingRoot, binding)
      ∧ ∀ root b, find s.bindings root = some b → find s'.bindings root = some b := by
  unfold retainedBinding at h
  cases hold : find s.bindings binding.root with
  | none =>
    rw [hold] at h
    obtain ⟨-, hs⟩ := refuse_eq_ok.mp h
    cases hs
    refine ⟨rfl, rfl, ?_, fun root b hb => ?_⟩
    · dsimp only
      rw [find_put, if_pos rfl]
    · dsimp only
      rw [find_put]
      split
      · next heq =>
        rw [heq, hb] at hold
        cases hold
      · exact hb
  | some existing =>
    rw [hold] at h
    obtain ⟨heq, hs⟩ := require_eq_ok.mp h
    cases hs
    exact ⟨rfl, rfl, heq ▸ hold, fun _ _ hb => hb⟩

/-- **The head moves to an entry that extends the history.** -/
theorem Holds.advance (hR : Function.Injective R.partitionId) (h : Holds R s H)
    {ordering : Ordering κ ι} {binding : Binding ι} {reply : Reply ι}
    (hextends : Extends R ordering.conflictKey (H ordering.conflictKey)
      ⟨successorHead R .v2 (lastHead R (H ordering.conflictKey)) ordering.hash (some binding.root),
        binding, ordering⟩)
    (hok : advance R s ordering.conflictKey ⟨ordering.conflictKey,
      lastHead R (H ordering.conflictKey), (lastHead R (H ordering.conflictKey)).headRoot,
      (H ordering.conflictKey).length⟩ ordering binding = .ok (s', reply)) :
    let e : Resolution κ ι := ⟨successorHead R .v2 (lastHead R (H ordering.conflictKey))
      ordering.hash (some binding.root), binding, ordering⟩
    reply = .committed e.head ordering.hash binding.root
      ∧ Holds R s' (Function.update H ordering.conflictKey (H ordering.conflictKey ++ [e])) := by
  intro e
  unfold Publication.advance at hok
  obtain ⟨s₁, h₁, hok⟩ := bind_eq_ok.mp hok
  obtain ⟨s₂, h₂, hok⟩ := bind_eq_ok.mp hok
  obtain ⟨hpart₁, hbind₁, hnew₁, hold₁⟩ := retainedOrdering_ok h₁
  obtain ⟨hpart₂, hord₂, hnew₂, hold₂⟩ := retainedBinding_ok h₂
  cases hok
  refine ⟨rfl, ?_, fun k row hrow => ?_, fun k hrow => ?_, fun k e' he' => ?_, fun k e' he' => ?_⟩
  · intro k
    by_cases hk : k = ordering.conflictKey
    · subst hk
      rw [Function.update_self]
      exact (h.chained _).snoc hextends
    · rw [Function.update_of_ne hk]
      exact h.chained k
  · dsimp only at hrow
    rw [find_put] at hrow
    split at hrow
    · next hid =>
      obtain rfl := hR hid
      cases hrow
      rw [Function.update_self, lastHead_concat, List.length_append]
      rfl
    · next hid =>
      rw [Function.update_of_ne fun hk => hid (congrArg R.partitionId hk.symm)]
      rw [hpart₂, hpart₁] at hrow
      exact h.row k row hrow
  · dsimp only at hrow
    rw [find_put] at hrow
    split at hrow
    · cases hrow
    · next hid =>
      rw [Function.update_of_ne fun hk => hid (congrArg R.partitionId hk.symm)]
      rw [hpart₂, hpart₁] at hrow
      exact h.absent k hrow
  · have hkept : ∀ k', ∀ e' ∈ H k', find s₂.orderings e'.ordering.hash = some e'.ordering := by
      intro k' e' he'
      rw [hord₂]
      exact hold₁ _ _ (h.ordering k' e' he')
    by_cases hk : k = ordering.conflictKey
    · subst hk
      rw [Function.update_self] at he'
      rcases List.mem_append.mp he' with he' | he'
      · exact hkept _ e' he'
      · obtain rfl := List.mem_singleton.mp he'
        show find s₂.orderings ordering.hash = some ordering
        rw [hord₂]
        exact hnew₁
    · rw [Function.update_of_ne hk] at he'
      exact hkept k e' he'
  · have hkept : ∀ k', ∀ e' ∈ H k', find s₂.bindings e'.binding.root
        = some (e'.ordering.hash, e'.binding) := by
      intro k' e' he'
      refine hold₂ _ _ ?_
      rw [hbind₁]
      exact h.binding k' e' he'
    by_cases hk : k = ordering.conflictKey
    · subst hk
      rw [Function.update_self] at he'
      rcases List.mem_append.mp he' with he' | he'
      · exact hkept _ e' he'
      · obtain rfl := List.mem_singleton.mp he'
        show find s₂.bindings binding.root = some (ordering.hash, binding)
        rw [hnew₂, hextends.eligible.committed]
    · rw [Function.update_of_ne hk] at he'
      exact hkept k e' he'

/-! ## publications -/

/-- failures that a store of histories never raises -/
def Failure.unexpected : Failure → Bool
  | .partitionConflictKeyMismatch | .lockedPredecessorOrderingInvalid | .foreignKeyViolation => true
  | _ => false

/-- the publication that a reply acknowledges -/
def committedOf (k : κ) : Submission κ ι ε × Except Failure (Reply ι) → Option (Resolution κ ι)
  | (q, .ok (.committed head _ _)) =>
    if q.ordering.conflictKey = k then some ⟨head, q.binding, q.ordering⟩ else none
  | _ => none

/-- what a publication did to a store of histories -/
inductive Published (R : Roots κ ι) (q : Submission κ ι ε) (H : κ → List (Resolution κ ι))
    (s' : Store κ ι) : Except Failure (Reply ι) → Prop
  | kept (told : Except Failure (Reply ι)) (hstore : Holds R s' H)
      (hnone : ∀ k, committedOf k (q, told) = none) (hfailure : ∀ f, told = .error f → ¬ f.unexpected) :
      Published R q H s' told
  | committed (e : Resolution κ ι) (hbinding : e.binding = q.binding)
      (hordering : e.ordering = q.ordering)
      (hparent : e.head.predecessorRoot = q.expectedParentRoot)
      (hversion : q.expectedStoreVersion = some (H q.ordering.conflictKey).length)
      (hstore : Holds R s' (Function.update H q.ordering.conflictKey
        (H q.ordering.conflictKey ++ [e]))) :
      Published R q H s' (.ok (.committed e.head q.ordering.hash q.binding.root))

theorem retainedOrdering_error {ordering : Ordering κ ι} {f : Failure}
    (h : retainedOrdering s ordering = .error f) : f = .publicationImmutableConflict := by
  unfold retainedOrdering at h
  split at h
  · cases h
  · split at h <;> cases h
    rfl

theorem retainedBinding_error {binding : Binding ι} {f : Failure}
    (h : retainedBinding s binding = .error f)
    (hordering : (find s.orderings binding.publicationOrderingRoot).isSome) :
    f = .publicationImmutableConflict := by
  unfold retainedBinding at h
  split at h
  · split at h
    · next hnone =>
      rw [Option.isNone_iff_eq_none] at hnone
      rw [hnone] at hordering
      cases hordering
    · cases h
  · split at h <;> cases h
    rfl

/-- a head does not move because a record under its root is another one, and for no other reason -/
theorem advance_error {ordering : Ordering κ ι} {binding : Binding ι} {f : Failure}
    (hcommitted : binding.publicationOrderingRoot = ordering.hash)
    (h : Publication.advance R s ordering.conflictKey row ordering binding = .error f) :
    f = .publicationImmutableConflict := by
  unfold Publication.advance at h
  cases h₁ : retainedOrdering s ordering with
  | error f' =>
    rw [h₁] at h
    cases h
    exact retainedOrdering_error h₁
  | ok s₁ =>
    rw [h₁] at h
    cases h₂ : retainedBinding s₁ binding with
    | error f' =>
      have hfound : (find s₁.orderings binding.publicationOrderingRoot).isSome := by
        rw [hcommitted, (retainedOrdering_ok h₁).2.2.1]
        rfl
      obtain rfl : f' = f := by
        have h' : (retainedBinding s₁ binding >>= fun _ => _) = Except.error f := h
        rw [h₂] at h'
        exact Except.error.inj h'
      exact retainedBinding_error h₂ hfound
    | ok s₂ =>
      have h' : (retainedBinding s₁ binding >>= fun _ => _) = Except.error f := h
      rw [h₂] at h'
      cases h'

/-- **One publication extends the history of its conflict key by one entry, at the head and the
version it expected, or leaves every history as it was.** -/
theorem Holds.publish (hR : Function.Injective R.partitionId) (h : Holds R s H)
    (q : Submission κ ι ε) :
    Published R q H (s.publish R V q).1 (s.publish R V q).2 := by
  have hrefused : ∀ f : Failure, ¬ f.unexpected → publishApplicationBound R V s q = .error f →
      Published R q H (s.publish R V q).1 (s.publish R V q).2 := by
    intro f hf herror
    rw [Store.publish, herror]
    refine .kept _ h (fun _ => rfl) fun f' hf' => ?_
    cases hf'
    exact hf
  cases hparent : q.expectedParentRoot with
  | none => exact hrefused .expectedParentRootRequired nofun (by rw [publishApplicationBound, hparent])
  | some parent =>
  cases hversion : q.expectedStoreVersion with
  | none =>
    exact hrefused .expectedStoreVersionRequired nofun
      (by rw [publishApplicationBound, hparent, hversion])
  | some version =>
  by_cases heligible : bindingEligible R V.closure q.binding q.ordering q.resolved = false
  · refine hrefused .invalidApplicationBinding nofun ?_
    rw [publishApplicationBound, hparent, hversion]
    exact if_pos heligible
  by_cases hdurable : V.durablePrerequisites q.resolved = false
  · refine hrefused .durablePrerequisiteUnresolved nofun ?_
    rw [publishApplicationBound, hparent, hversion]
    exact (if_neg heligible).trans (if_pos hdurable)
  have hchecked := eligible_of_bindingEligible (Bool.not_eq_false _ ▸ heligible)
  obtain ⟨s₁, hlocked, h₁, -⟩ := h.locked hR q.ordering.conflictKey
  set last := lastHead R (H q.ordering.conflictKey) with hlast
  set row : PartitionRow κ ι := ⟨q.ordering.conflictKey, last, last.headRoot,
    (H q.ordering.conflictKey).length⟩ with hrow
  have hpublish : publishApplicationBound R V s q
      = publishLocked R s₁ row q.ordering q.binding parent version := by
    rw [publishApplicationBound, hparent, hversion]
    refine (if_neg heligible).trans ((if_neg hdurable).trans ?_)
    rw [hlocked]
    rfl
  have hpredecessor := h₁.predecessor q.ordering.conflictKey
  have hanswered : ∀ reply : Reply ι, (∀ k, committedOf k (q, .ok reply) = none) →
      publishLocked R s₁ row q.ordering q.binding parent version = .ok (s₁, reply) →
      Published R q H (s.publish R V q).1 (s.publish R V q).2 := by
    intro reply hreply hok
    rw [Store.publish, hpublish, hok]
    exact .kept _ h₁ hreply nofun
  unfold publishLocked at hpublish hanswered
  rw [show row.head = last from rfl, hpredecessor] at hpublish hanswered
  by_cases hp : parent ≠ last.headRoot
  · exact hanswered (.parentRootMismatch parent last.headRoot) (fun _ => rfl) (if_pos hp)
  by_cases hv : version ≠ row.storeVersion
  · exact hanswered (.versionMismatch version row.storeVersion) (fun _ => rfl)
      ((if_neg hp).trans (if_pos hv))
  by_cases hi : last.applicationBindingRoot = some q.binding.root
      ∧ last.lastOrderingRoot = some q.ordering.hash
  · exact hanswered (.idempotent last q.ordering.hash q.binding.root) (fun _ => rfl)
      ((if_neg hp).trans ((if_neg hv).trans (if_pos hi)))
  have hbranch :=
    hpublish.trans ((if_neg hp).trans ((if_neg hv).trans (if_neg hi)))
  cases hviolation : semanticSuccessorViolation last
      ((H q.ordering.conflictKey).getLast?.map fun p => p.ordering) q.ordering with
  | some reason =>
    rw [hviolation] at hbranch
    rw [Store.publish, hbranch]
    exact .kept _ h₁ (fun _ => rfl) nofun
  | none =>
    rw [hviolation] at hbranch
    have hextends := h₁.extends hchecked hviolation
    cases hadvance : Publication.advance R s₁ q.ordering.conflictKey row q.ordering q.binding with
    | error f =>
      rw [Store.publish, hbranch, hadvance]
      refine .kept _ h (fun _ => rfl) fun f' hf' => ?_
      cases hf'
      rw [advance_error hchecked.committed hadvance]
      nofun
    | ok result =>
      obtain ⟨s', reply⟩ := result
      obtain ⟨rfl, hstore⟩ := h₁.advance hR hextends hadvance
      rw [Store.publish, hbranch, hadvance]
      refine .committed ⟨_, q.binding, q.ordering⟩ rfl rfl ?_ ?_ hstore
      · rw [hparent, not_not.mp hp]
        rfl
      · rw [hversion, not_not.mp hv]

/-! ## runs -/

abbrev Log (κ ι ε : Type) := List (Submission κ ι ε × Except Failure (Reply ι))

/-- the publications of a run that were committed under a conflict key, the first first -/
def history (log : Log κ ι ε) (k : κ) : List (Resolution κ ι) := log.filterMap (committedOf k)

/-- what a run told its callers: no failure that points to a broken store, and commits at the head
and the version that were expected -/
def Truthful (H : κ → List (Resolution κ ι)) : Log κ ι ε → Prop
  | [] => True
  | (q, told) :: rest =>
    (∀ f, told = .error f → ¬ f.unexpected)
      ∧ (∀ e, committedOf q.ordering.conflictKey (q, told) = some e →
        e.head.predecessorRoot = q.expectedParentRoot
          ∧ q.expectedStoreVersion = some (H q.ordering.conflictKey).length)
      ∧ Truthful (fun k => H k ++ (committedOf k (q, told)).toList) rest

theorem Published.holds {told : Except Failure (Reply ι)} (h : Published R q H s' told) :
    Holds R s' fun k => H k ++ (committedOf k (q, told)).toList := by
  cases h with
  | kept _ hstore hnone hfailure =>
    have heq : (fun k => H k ++ (committedOf k (q, told)).toList) = H := by
      funext k
      rw [hnone k]
      exact List.append_nil _
    rwa [heq]
  | committed e hbinding hordering hparent hversion hstore =>
    have heq : (fun k => H k ++ (committedOf k
        (q, .ok (.committed e.head q.ordering.hash q.binding.root))).toList)
        = Function.update H q.ordering.conflictKey (H q.ordering.conflictKey ++ [e]) := by
      funext k
      have he : (⟨e.head, q.binding, q.ordering⟩ : Resolution κ ι) = e := by
        rw [← hbinding, ← hordering]
      by_cases hk : q.ordering.conflictKey = k
      · subst hk
        rw [Function.update_self, committedOf, if_pos rfl, he]
        rfl
      · rw [Function.update_of_ne fun hk' => hk hk'.symm, committedOf, if_neg hk]
        exact List.append_nil _
    rwa [heq]

theorem Published.truthful {told : Except Failure (Reply ι)} (h : Published R q H s' told) :
    (∀ f, told = .error f → ¬ f.unexpected)
      ∧ ∀ e, committedOf q.ordering.conflictKey (q, told) = some e →
        e.head.predecessorRoot = q.expectedParentRoot
          ∧ q.expectedStoreVersion = some (H q.ordering.conflictKey).length := by
  cases h with
  | kept _ hstore hnone hfailure =>
    refine ⟨hfailure, fun e he => ?_⟩
    rw [hnone] at he
    cases he
  | committed e hbinding hordering hparent hversion hstore =>
    refine ⟨nofun, fun e' he' => ?_⟩
    rw [committedOf, if_pos rfl] at he'
    cases he'
    exact ⟨hparent, hversion⟩

theorem history_cons (entry : Submission κ ι ε × Except Failure (Reply ι)) (log : Log κ ι ε) (k : κ) :
    history (entry :: log) k = (committedOf k entry).toList ++ history log k := by
  rw [history, List.filterMap_cons]
  cases committedOf k entry <;> rfl

/-- **A run extends the histories by what it committed.** -/
theorem Holds.run (hR : Function.Injective R.partitionId) (h : Holds R s H)
    (calls : List (Submission κ ι ε)) :
    Holds R (s.run R V calls).1 (fun k => H k ++ history (s.run R V calls).2 k)
      ∧ Truthful H (s.run R V calls).2 := by
  induction calls generalizing s H with
  | nil =>
    refine ⟨?_, trivial⟩
    show Holds R s fun k => H k ++ []
    simpa using h
  | cons q calls ih =>
    have hpublished : Published R q H (s.publish R V q).1 (s.publish R V q).2 := h.publish hR q
    obtain ⟨hstore, htruthful⟩ := ih hpublished.holds
    refine ⟨?_, hpublished.truthful.1, hpublished.truthful.2, htruthful⟩
    have heq : (fun k => H k ++ history (s.run R V (q :: calls)).2 k)
        = fun k => (H k ++ (committedOf k (q, (s.publish R V q).2)).toList)
          ++ history ((s.publish R V q).1.run R V calls).2 k := by
      funext k
      rw [List.append_assoc, ← history_cons]
      rfl
    rw [heq]
    exact hstore

/-- the failures that a caller can be told of -/
theorem Truthful.failures {log : Log κ ι ε} (h : Truthful H log) :
    ∀ entry ∈ log, ∀ f, entry.2 = .error f → ¬ f.unexpected := by
  induction log generalizing H with
  | nil => exact fun _ hmem => absurd hmem List.not_mem_nil
  | cons entry log ih =>
    obtain ⟨hfailure, -, hrest⟩ := h
    intro entry' hmem
    rcases List.mem_cons.mp hmem with rfl | hmem
    · exact hfailure
    · exact ih hrest entry' hmem

/-- the versions that the committed publications of a conflict key expected, the first first -/
def committedVersions (log : Log κ ι ε) (k : κ) : List (Option ℕ) :=
  log.filterMap fun entry => (committedOf k entry).map fun _ => entry.1.expectedStoreVersion

theorem key_of_committedOf {entry : Submission κ ι ε × Except Failure (Reply ι)}
    (h : committedOf k entry = some e) : entry.1.ordering.conflictKey = k := by
  obtain ⟨q, told⟩ := entry
  unfold committedOf at h
  split at h
  · next heq =>
    cases heq
    split at h
    · assumption
    · cases h
  · cases h

theorem Truthful.versions {log : Log κ ι ε} (h : Truthful H log) (k : κ) :
    committedVersions log k
      = (List.range' (H k).length (history log k).length).map some := by
  induction log generalizing H with
  | nil => rfl
  | cons entry log ih =>
    obtain ⟨q, told⟩ := entry
    obtain ⟨-, hcommitted, hrest⟩ := h
    have hlog := ih hrest
    rw [committedVersions, List.filterMap_cons, history_cons]
    cases hone : committedOf k (q, told) with
    | none =>
      rw [hone] at hlog
      simpa [committedVersions] using hlog
    | some e =>
      rw [hone] at hlog
      have hkey : q.ordering.conflictKey = k := key_of_committedOf hone
      rw [hkey] at hcommitted
      have hversion := (hcommitted e hone).2
      simp only [Option.toList_some, List.length_append, List.length_singleton] at hlog
      show q.expectedStoreVersion :: committedVersions log k = _
      rw [hlog, hversion]
      simp [List.range'_succ]

theorem Truthful.parents {log : Log κ ι ε} (h : Truthful H log) :
    ∀ entry ∈ log, ∀ k e, committedOf k entry = some e →
      e.head.predecessorRoot = entry.1.expectedParentRoot := by
  induction log generalizing H with
  | nil => exact fun _ hmem => absurd hmem List.not_mem_nil
  | cons entry log ih =>
    obtain ⟨hfailure, hcommitted, hrest⟩ := h
    intro entry' hmem k e he
    rcases List.mem_cons.mp hmem with rfl | hmem
    · obtain rfl := key_of_committedOf he
      exact (hcommitted e he).1
    · exact ih hrest entry' hmem k e he

theorem run_holds (hR : Function.Injective R.partitionId) (calls : List (Submission κ ι ε)) :
    Holds R ((Store.empty : Store κ ι).run R V calls).1
        (history ((Store.empty : Store κ ι).run R V calls).2)
      ∧ Truthful (fun _ => []) ((Store.empty : Store κ ι).run R V calls).2 :=
  holds_empty.run hR calls

/-- three reads of stores whose histories grow give the last entry at the first read -/
theorem Holds.resolve {s₁ s₂ s₃ : Store κ ι} {H₁ H₂ H₃ : κ → List (Resolution κ ι)}
    (h₁ : Holds R s₁ H₁) (h₂ : Holds R s₂ H₂) (h₃ : Holds R s₃ H₃)
    (h₁₂ : H₁ k <+: H₂ k) (h₁₃ : H₁ k <+: H₃ k) :
    resolveAuthoritative R s₁ s₂ s₃ k = (H₁ k).getLast? := by
  have htip := (h₁.chained k).tip
  rw [resolveAuthoritative, h₁.head k]
  cases hrow : find s₁.partitions (R.partitionId k) with
  | none =>
    rw [h₁.absent k hrow]
    rfl
  | some row =>
    show ((lastHead R (H₁ k)).applicationBindingRoot.bind fun bindingRoot => _) = _
    rw [htip.binding]
    cases hlast : (H₁ k).getLast? with
    | none => rfl
    | some p =>
      have hp := List.mem_of_getLast? hlast
      obtain ⟨h', hextends⟩ := (h₁.chained k).mem hp
      have hhead : lastHead R (H₁ k) = p.head := by
        rw [lastHead, hlast]
        rfl
      have hordering : p.head.lastOrderingRoot = some p.ordering.hash := by
        rw [← hhead, htip.ordering, hlast]
        rfl
      show ((Publication.resolveBinding R s₂ p.binding.root).bind fun binding => _) = _
      rw [h₂.resolveBinding (h₁₂.subset hp), hhead, hordering]
      show ((Publication.resolveOrdering R s₃ p.ordering.hash).bind fun ordering => _) = _
      rw [h₃.resolveOrdering (h₁₃.subset hp)]
      exact if_pos ⟨congrArg some hextends.eligible.committed.symm,
        hextends.eligible.committed.symm⟩

/-- **Whatever is published, the committed orderings of a conflict key pass `verify-ordering-chain`,
their heads are one chain from the initial head, each at the version and the parent that its caller
expected, and the store gives back the last of them.** -/
theorem published_chain (hR : Function.Injective R.partitionId) (calls : List (Submission κ ι ε))
    (k : κ) :
    let (s, log) := (Store.empty : Store κ ι).run R V calls
    verifyOrderingChain R ((history log k).map fun e => e.ordering) none = []
      ∧ HashChain.LinkedFrom Head.headRoot (fun head => head.predecessorRoot)
        (some (initialHead R .v2).headRoot) ((history log k).map Resolution.head)
      ∧ committedVersions log k = (List.range (history log k).length).map some
      ∧ (∀ entry ∈ log, ∀ e, committedOf k entry = some e →
        e.head.predecessorRoot = entry.1.expectedParentRoot)
      ∧ (currentHeadAndVersion R s k).getD (initialHead R .v2, 0)
        = (lastHead R (history log k), (history log k).length)
      ∧ resolveAuthoritative R s s s k = (history log k).getLast?
      ∧ ∀ entry ∈ log, ∀ f, entry.2 = .error f → ¬ f.unexpected := by
  obtain ⟨hstore, htruthful⟩ := run_holds (V := V) hR calls
  refine ⟨(hstore.chained k).verified, (hstore.chained k).linked, ?_,
    fun entry hmem => htruthful.parents entry hmem k, ?_,
    hstore.resolve hstore hstore List.prefix_rfl List.prefix_rfl, htruthful.failures⟩
  · rw [htruthful.versions k, List.length_nil, List.range_eq_range']
  · rw [hstore.head k]
    cases hrow : find ((Store.empty : Store κ ι).run R V calls).1.partitions (R.partitionId k) with
    | none =>
      rw [hstore.absent k hrow]
      rfl
    | some row => rfl

theorem Store.run_append (s : Store κ ι) (calls calls' : List (Submission κ ι ε)) :
    s.run R V (calls ++ calls')
      = (((s.run R V calls).1.run R V calls').1,
        (s.run R V calls).2 ++ ((s.run R V calls).1.run R V calls').2) := by
  induction calls generalizing s with
  | nil => rfl
  | cons q calls ih =>
    rw [List.cons_append, Store.run, Store.run]
    dsimp only
    rw [ih]
    rfl

theorem history_append (log log' : Log κ ι ε) (k : κ) :
    history (log ++ log') k = history log k ++ history log' k :=
  List.filterMap_append

/-- **A reader that resolves the head, its binding and its ordering while others publish gets the
publication that was the last one when it read the head.** -/
theorem resolved_is_published (hR : Function.Injective R.partitionId)
    (first second third : List (Submission κ ι ε)) (k : κ) :
    let empty : Store κ ι := Store.empty
    resolveAuthoritative R (empty.run R V first).1 (empty.run R V (first ++ second)).1
        (empty.run R V (first ++ second ++ third)).1 k
      = (history (empty.run R V first).2 k).getLast? := by
  intro empty
  refine (run_holds hR first).1.resolve (run_holds hR _).1 (run_holds hR _).1 ?_ ?_
  · rw [Store.run_append, history_append]
    exact List.prefix_append _ _
  · rw [Store.run_append, Store.run_append, history_append, history_append, List.append_assoc]
    exact List.prefix_append _ _

end

/-- the roots of a small example: every record is known by its position -/
def sampleRoots : Roots ℕ ℕ where
  ordering o := 100 + o.commitIndex.toNat
  changeIdentity b := b.inputRoot
  head h := 200 + h.sequence
  binding b := 300 + b.publicationOrderingRoot
  partitionId k := k
  validSha256Ref _ := true

/-- the publication of conflict key 7 at a position -/
def sampleSubmission (n : ℕ) : Submission ℕ ℕ Unit where
  ordering := transactionOrdering sampleRoots
    { action := "pro-rata/apply", scope := "economic", conflictKey := 7, commitIndex := n + 1
      previousTransactionHash := if n = 0 then none else some (100 + n)
      inputRoot := 40 + n, stateBeforeRoot := 50 + n, stateAfterRoot := 51 + n, effectsRoot := 60 + n
      applicationReceiptRoot := 70 + n, realizationRoot := 80 + n, changeIdentity := 0 }
  binding := ⟨⟨90, 91, 92, 101 + n⟩, 401 + n⟩
  resolved := ()
  expectedParentRoot := some (200 + n)
  expectedStoreVersion := some n

def sampleValidation : Validation ℕ ℕ Unit := ⟨fun _ _ _ => true, fun _ => true⟩

/-- two publications and a late copy of the first -/
def sampleCalls : List (Submission ℕ ℕ Unit) :=
  [sampleSubmission 0, sampleSubmission 1, sampleSubmission 0]

theorem published_chain_sample :
    let (s, log) := (Store.empty : Store ℕ ℕ).run sampleRoots sampleValidation sampleCalls
    verifyOrderingChain sampleRoots ((history log 7).map fun e => e.ordering) none = []
      ∧ resolveAuthoritative sampleRoots s s s 7 = (history log 7).getLast?
      ∧ (history log 7).length = 2 :=
  have h := published_chain (R := sampleRoots) (V := sampleValidation) (fun _ _ h => h) sampleCalls 7
  ⟨h.1, h.2.2.2.2.2.1, by decide⟩

theorem resolved_is_published_sample :
    let empty : Store ℕ ℕ := Store.empty
    let after (n : ℕ) := (empty.run sampleRoots sampleValidation (sampleCalls.take n)).1
    resolveAuthoritative sampleRoots (after 1) (after 2) (after 3) 7
      = (history (empty.run sampleRoots sampleValidation [sampleSubmission 0]).2 7).getLast? :=
  resolved_is_published (R := sampleRoots) (V := sampleValidation) (fun _ _ h => h)
    [sampleSubmission 0] [sampleSubmission 1] [sampleSubmission 0] 7

end PRF.Publication
