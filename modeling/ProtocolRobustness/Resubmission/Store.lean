import ProtocolRobustness.Library.CompareAndSet
import ProtocolRobustness.Resubmission.Guards
import ProtocolRobustness.Resubmission.Ordering

/-!
# The store of a resubmission family

`resubmission/store.clj` and `resubmission/committed_transaction.clj`: one cell that holds the state
of the chain with the records of its commits, and any number of calls that change it by
compare-and-set.

* `validateRecord`      the errors of a record that is replayed;
* `transact`            what one call computes from a snapshot of the cell;
* `History`             the orderings of a cell, in commit order, are one chain from the empty state;
* `History.transact`    what a call writes extends the history, and its record is never invalid;
* `Audited`             what an auditor finds in a store;
* `store_verifiable`    every interleaving of calls leaves a store that is found so.
-/

set_option linter.unusedSectionVars false

namespace PRF.Resubmission
open CompareAndSet

/-! ## records of commits -/

/-- `resubmission-committed-transaction.v1` -/
structure Record (ι : Type*) where
  schema : String
  stateBefore : ChainState ι
  command : Command ι
  ordering : Ordering ι

inductive RecordError
  | unsupportedRecordSchema
  | orderingInvalid
  | stateBeforeRootMismatch
  | inputRootMismatch
  | commandInputInvalid
  | replayNotCommitted
  | stateAfterRootMismatch
  | effectsRootMismatch
  | expectedMismatch
  | observedMismatch
  | actionMismatch
deriving DecidableEq

def recordSchema : String := "resubmission-committed-transaction.v1"

section
variable {ι : Type*} [DecidableEq ι] (O : OrderingRoots ι)

def buildRecord (stateBefore : ChainState ι) (command : Command ι) (ordering : Ordering ι) :
    Record ι :=
  ⟨recordSchema, stateBefore, command, ordering⟩

/-- the input root of the command, compared in records of the second schema -/
def inputErrors (record : Record ι) : List RecordError :=
  if record.ordering.schemaOf = orderingV2Schema then
    match commandInputRoot O.toRoots record.command with
    | none => [.commandInputInvalid]
    | some root =>
      if some root ≠ record.ordering.inputRoot then [.inputRootMismatch] else []
  else []

/-- the replay of the command, compared with what the ordering retains -/
def replayErrors (record : Record ι) : List RecordError :=
  match applyAction O.toRoots record.stateBefore record.command with
  | .committed c =>
    (if some (stateRoot O.toRoots c.state) ≠ record.ordering.stateAfterRoot then
      [.stateAfterRootMismatch] else [])
    ++ (if some (effectsRoot O.toRoots c.effects) ≠ record.ordering.effectsRoot then
      [.effectsRootMismatch] else [])
    ++ (if some c.orderingInput.expected ≠ record.ordering.expected then
      [.expectedMismatch] else [])
    ++ (if some c.orderingInput.observed ≠ record.ordering.observed then
      [.observedMismatch] else [])
    ++ (if some c.orderingInput.action ≠ record.ordering.action then [.actionMismatch] else [])
  | _ => [.replayNotCommitted]

/-- `validate-record`: the replay comes only after a record without errors -/
def validateRecord (record : Record ι) : List RecordError :=
  let errors :=
    (if record.schema ≠ recordSchema then [.unsupportedRecordSchema] else [])
    ++ (if verifyOrdering O record.ordering ≠ none then [.orderingInvalid] else [])
    ++ (if some (stateRoot O.toRoots record.stateBefore) ≠ record.ordering.stateBeforeRoot then
      [.stateBeforeRootMismatch] else [])
    ++ inputErrors O record
  errors ++ if errors = [] then replayErrors O record else []

/-! ## the cell -/

/-- the configuration of a store; `obligationValid` says of a commit that the receipt obligation it
gives rise to, if any, is valid -/
structure Config (ι : Type*) where
  familyId : ι
  dispositionPublicHex : Option ι
  authorityContext : Option (AuthorityContext ι)
  obligationValid : Ordering ι → Command ι → Bool

/-- the value of the cell: the state of the family with its version, and the records under the
hashes of their orderings -/
structure Journal (ι : Type*) where
  entry : Option (ChainState ι × ℤ)
  committedTransactions : ι → Option (Record ι)

def Journal.empty : Journal ι := ⟨none, fun _ => none⟩

variable (cfg : Config ι)

def Config.origin : ChainState ι :=
  { emptyState cfg.familyId cfg.dispositionPublicHex with
    dispositionAuthorityContext := cfg.authorityContext }

/-- the entry of the family, by default the empty state -/
def Journal.current (J : Journal ι) : ChainState ι × ℤ := J.entry.getD (cfg.origin, 0)

/-- `state-of` -/
def Journal.state (J : Journal ι) : ChainState ι := (J.current cfg).1

/-- a call of `transact!` with the transition of a command -/
structure Call (ι : Type*) where
  command : Command ι
  expectedVersion : Option ℤ

inductive Answer (ι : Type*)
  | contention (observedVersion expectedVersion : ℤ)
  | result (r : Result ι)
  | committed (c : Commit ι) (ordering : Ordering ι)
  | invalidRecord (errors : List RecordError)
  | invalidObligation

def orderingInputs (state : ChainState ι) (c : Commit ι) : Ordering ι where
  schema := some orderingV2Schema
  action := some c.orderingInput.action
  scope := some "resubmission-family"
  conflictKey := some c.orderingInput.familyId
  commitIndex := some c.state.commitIndex
  previousTransactionHash := state.lastHash
  stateBeforeRoot := some (stateRoot O.toRoots state)
  stateAfterRoot := some (stateRoot O.toRoots c.state)
  effectsRoot := some (effectsRoot O.toRoots c.effects)
  expected := some c.orderingInput.expected
  observed := some c.orderingInput.observed
  inputRoot := some c.orderingInput.inputRoot
  changeIdentity := none
  applicationReceiptRoot := none
  realizationRoot := none
  hash := none

def orderingOf (state : ChainState ι) (c : Commit ι) : Ordering ι :=
  transactionOrdering O (orderingInputs O state c)

/-- the cell after a commit -/
def Journal.commit (J : Journal ι) (state : ChainState ι) (version : ℤ) (ordering : Ordering ι)
    (record : Record ι) : Journal ι where
  entry := some ({ state with lastHash := ordering.hash }, version + 1)
  committedTransactions :=
    match ordering.hash with
    | some hash => Function.update J.committedTransactions hash (some record)
    | none => J.committedTransactions

/-- a commit with its evidence, or the exceptions before it is written -/
def publish (J : Journal ι) (command : Command ι) (state : ChainState ι) (version : ℤ)
    (c : Commit ι) : CompareAndSet.Outcome (Journal ι) (Answer ι) :=
  let ordering := orderingOf O state c
  let record := buildRecord state command ordering
  match validateRecord O record with
  | [] =>
    if cfg.obligationValid ordering command then
      .write (J.commit c.state version ordering record) (.committed c ordering)
    else .answer .invalidObligation
  | errors => .answer (.invalidRecord errors)

/-- one turn of the loop of `transact!` -/
def transact (call : Call ι) (J : Journal ι) : CompareAndSet.Outcome (Journal ι) (Answer ι) :=
  let (state, version) := J.current cfg
  if (call.expectedVersion.any fun v => v ≠ version) = true then
    .answer (.contention version (call.expectedVersion.getD version))
  else match applyAction O.toRoots state call.command with
    | .committed c => publish O cfg J call.command state version c
    | r => .answer (.result r)

/-! ## one commit -/

variable {O cfg} {s : ChainState ι} {command : Command ι} {c : Commit ι}

theorem committed_spec (h : applyAction O.toRoots s command = .committed c) :
    c.state.commitIndex = s.commitIndex + 1 ∧ c.state.familyId = s.familyId
      ∧ c.orderingInput.familyId = s.familyId
      ∧ commandInputRoot O.toRoots command = some c.orderingInput.inputRoot := by
  rcases applyAction_committed.mp h with ⟨input, rfl, -, -, hcommit⟩ |
    ⟨input, hex, artifact, rfl, -, hcommit⟩
  · cases hcommit
    exact ⟨rfl, rfl, rfl, rfl⟩
  · cases hcommit
    exact ⟨rfl, rfl, rfl, rfl⟩

theorem complete_orderingInputs (hO : Canonical O)
    (h : applyAction O.toRoots s command = .committed c) {n : ℕ} (hn : s.commitIndex = n)
    (hlast : ∀ r, s.lastHash = some r → O.validSha256Ref r = true) :
    Complete O (orderingInputs O s c) := by
  obtain ⟨hindex, -, -, hinput⟩ := committed_spec h
  have hinputRef : O.validSha256Ref c.orderingInput.inputRoot = true := by
    cases command with
    | admitChild input => exact Option.some.inj hinput ▸ hO.inputRef _
    | applyDisposition input => exact Option.some.inj hinput ▸ hO.inputRef _
    | applyAuthoritativeDisposition input => exact Option.some.inj hinput ▸ hO.inputRef _
    | unknown => cases hinput
  exact
    { schema := rfl
      action := rfl
      scope := rfl
      conflictKey := rfl
      commitIndex := ⟨n + 1, by rw [orderingInputs, hindex, hn]; rfl⟩
      stateBeforeRoot := ⟨_, rfl, hO.stateRef _⟩
      stateAfterRoot := ⟨_, rfl, hO.stateRef _⟩
      effectsRoot := ⟨_, rfl, hO.effectsRef _⟩
      inputRoot := ⟨_, rfl, hinputRef⟩
      applicationReceiptRoot := rfl
      realizationRoot := rfl
      previous := hlast }

theorem orderingOf_eq (s : ChainState ι) (c : Commit ι) :
    orderingOf O s c =
      { orderingInputs O s c with
        changeIdentity := some (changeIdentityHash O (orderingInputs O s c))
        hash := some (orderingHash O (versionedOrdering O (orderingInputs O s c))) } := by
  have hversioned := versionedOrdering_v2 (O := O) (o := orderingInputs O s c) rfl
  rw [orderingOf, transactionOrdering, hversioned]

@[simp] theorem orderingOf_inputRoot :
    (orderingOf O s c).inputRoot = some c.orderingInput.inputRoot := by rw [orderingOf_eq]; rfl

@[simp] theorem orderingOf_stateBeforeRoot :
    (orderingOf O s c).stateBeforeRoot = some (stateRoot O.toRoots s) := by
  rw [orderingOf_eq]; rfl

@[simp] theorem orderingOf_stateAfterRoot :
    (orderingOf O s c).stateAfterRoot = some (stateRoot O.toRoots c.state) := by
  rw [orderingOf_eq]; rfl

@[simp] theorem orderingOf_effectsRoot :
    (orderingOf O s c).effectsRoot = some (effectsRoot O.toRoots c.effects) := by
  rw [orderingOf_eq]; rfl

@[simp] theorem orderingOf_expected :
    (orderingOf O s c).expected = some c.orderingInput.expected := by rw [orderingOf_eq]; rfl

@[simp] theorem orderingOf_observed :
    (orderingOf O s c).observed = some c.orderingInput.observed := by rw [orderingOf_eq]; rfl

@[simp] theorem orderingOf_action :
    (orderingOf O s c).action = some c.orderingInput.action := by rw [orderingOf_eq]; rfl

@[simp] theorem orderingOf_commitIndex :
    (orderingOf O s c).commitIndex = some c.state.commitIndex := by rw [orderingOf_eq]; rfl

@[simp] theorem orderingOf_conflictKey :
    (orderingOf O s c).conflictKey = some c.orderingInput.familyId := by rw [orderingOf_eq]; rfl

@[simp] theorem orderingOf_previous :
    (orderingOf O s c).previousTransactionHash = s.lastHash := by rw [orderingOf_eq]; rfl

theorem orderingOf_hash : (orderingOf O s c).hash = some (orderingHash O (orderingOf O s c)) := by
  rw [orderingOf, transactionOrdering]
  rfl

/-- **The record of a commit replays.** -/
theorem validateRecord_built (h : applyAction O.toRoots s command = .committed c)
    (hordering : verifyOrdering O (orderingOf O s c) = none) :
    validateRecord O (buildRecord s command (orderingOf O s c)) = [] := by
  obtain ⟨-, -, -, hinput⟩ := committed_spec h
  have hinputErrors : inputErrors O (buildRecord s command (orderingOf O s c)) = [] := by
    simp [inputErrors, buildRecord, hinput]
  have hreplay : replayErrors O (buildRecord s command (orderingOf O s c)) = [] := by
    simp [replayErrors, buildRecord, h]
  unfold validateRecord
  rw [hinputErrors, hreplay]
  simp [buildRecord, hordering]

/-! ## the history of a cell -/

/-- the orderings of a cell, in commit order: one chain from the root of the empty state to the
state of the family, and each stored under its hash with a record that replays -/
structure History (O : OrderingRoots ι) (cfg : Config ι) (J : Journal ι)
    (orderings : List (Ordering ι)) : Prop where
  family : (J.state cfg).familyId = cfg.familyId
  index : (J.state cfg).commitIndex = orderings.length
  last : (J.state cfg).lastHash = orderings.getLast?.bind (·.hash)
  root : some (stateRoot O.toRoots (J.state cfg))
    = (orderings.getLast?.map (·.stateAfterRoot)).getD (some (stateRoot O.toRoots cfg.origin))
  chain : verifyOrderingChain O orderings (some (stateRoot O.toRoots cfg.origin)) = []
  valid : ∀ o ∈ orderings, verifyOrdering O o = none ∧ o.hash = some (orderingHash O o)
    ∧ o.conflictKey = some cfg.familyId
  positions : ∀ (i : ℕ) (o : Ordering ι), orderings[i]? = some o → o.commitIndex = some ((i : ℤ) + 1)
  stored : ∀ h record, J.committedTransactions h = some record →
    record.ordering ∈ orderings ∧ record.ordering.hash = some h ∧ validateRecord O record = []
  complete : ∀ o ∈ orderings, ∃ h record, o.hash = some h
    ∧ J.committedTransactions h = some record ∧ record.ordering = o

theorem history_empty : History O cfg Journal.empty [] where
  family := rfl
  index := rfl
  last := rfl
  root := rfl
  chain := rfl
  valid := fun o ho => absurd ho List.not_mem_nil
  positions := fun i o hi => by simp at hi
  stored := fun h record hr => by simp [Journal.empty] at hr
  complete := fun o ho => absurd ho List.not_mem_nil

variable {J : Journal ι} {orderings : List (Ordering ι)}

theorem History.last_ref (h : History O cfg J orderings) (hO : Canonical O) {r : ι}
    (hr : (J.state cfg).lastHash = some r) : O.validSha256Ref r = true := by
  rw [h.last] at hr
  obtain ⟨o, ho, hhash⟩ := Option.bind_eq_some_iff.mp hr
  rw [(h.valid o (List.mem_of_getLast? ho)).2.1] at hhash
  exact Option.some.inj hhash ▸ hO.orderingRef _ _

theorem History.next_valid (h : History O cfg J orderings) (hO : Canonical O)
    (hc : applyAction O.toRoots (J.state cfg) command = .committed c) :
    verifyOrdering O (orderingOf O (J.state cfg) c) = none :=
  verifyOrdering_built hO (complete_orderingInputs hO hc h.index fun _ hr => h.last_ref hO hr)

theorem History.next_linked (h : History O cfg J orderings) (hO : Canonical O)
    (hc : applyAction O.toRoots (J.state cfg) command = .committed c) :
    recordErrors O (some (stateRoot O.toRoots cfg.origin)) orderings.getLast?
      (orderingOf O (J.state cfg) c) = [] := by
  have hvalid := h.next_valid hO hc
  obtain ⟨hindex, -, hfamily, -⟩ := committed_spec hc
  unfold recordErrors
  rw [hvalid]
  cases hlast : orderings.getLast? with
  | none =>
    have hroot := h.root
    have hprev := h.last
    rw [hlast] at hroot hprev
    have hbefore : stateRoot O.toRoots (J.state cfg) = stateRoot O.toRoots cfg.origin :=
      Option.some.inj hroot
    have hnone : (J.state cfg).lastHash = none := hprev
    simp [originErrors, hnone, hbefore]
  | some p =>
    have hp := h.valid p (List.mem_of_getLast? hlast)
    have hroot := h.root
    have hprev := h.last
    rw [hlast] at hroot hprev
    have hbefore : some (stateRoot O.toRoots (J.state cfg)) = p.stateAfterRoot := hroot
    have hhash : (J.state cfg).lastHash = p.hash := hprev
    have hpos : p.commitIndex = some ((orderings.length - 1 : ℕ) + 1 : ℤ) := by
      rw [List.getLast?_eq_getElem?] at hlast
      exact h.positions _ p hlast
    have hlen : 0 < orderings.length := List.length_pos_of_mem (List.mem_of_getLast? hlast)
    have hlt : ((orderings.length - 1 : ℕ) : ℤ) + 1 < c.state.commitIndex := by
      rw [hindex, h.index]
      omega
    simp [hp.1, linkErrors, hhash, hbefore, hpos, hlt, hfamily, h.family, hp.2.2]

/-- **A commit extends the history.** -/
theorem History.commit (h : History O cfg J orderings) (hO : Canonical O)
    (hc : applyAction O.toRoots (J.state cfg) command = .committed c) (version : ℤ) :
    History O cfg
      (J.commit c.state version (orderingOf O (J.state cfg) c)
        (buildRecord (J.state cfg) command (orderingOf O (J.state cfg) c)))
      (orderings ++ [orderingOf O (J.state cfg) c]) := by
  have hvalid := h.next_valid hO hc
  have hreplay := validateRecord_built hc hvalid
  obtain ⟨hindex, hfamily, hkey, -⟩ := committed_spec hc
  set o := orderingOf O (J.state cfg) c with ho
  have hhash : o.hash = some (orderingHash O o) := orderingOf_hash
  -- no earlier ordering has the hash of the new one: their commit indexes differ
  have hnew : ∀ o' ∈ orderings, orderingHash O o' ≠ orderingHash O o := by
    intro o' ho' heq
    have hunsigned := hO.injective o' o heq
    obtain ⟨i, hi⟩ := List.mem_iff_getElem?.mp ho'
    have hpos := h.positions i o' hi
    have hcommit : o'.unsigned.commitIndex = o.unsigned.commitIndex := by rw [hunsigned]
    change o'.commitIndex = o.commitIndex at hcommit
    rw [hpos, ho, orderingOf_commitIndex, hindex, h.index] at hcommit
    have hlt : i < orderings.length := (List.getElem?_eq_some_iff.mp hi).1
    have := Option.some.inj hcommit
    omega
  have htable : (J.commit c.state version o (buildRecord (J.state cfg) command o)).committedTransactions
      = Function.update J.committedTransactions (orderingHash O o)
          (some (buildRecord (J.state cfg) command o)) := by
    unfold Journal.commit
    rw [hhash]
  refine ⟨hfamily.trans h.family, ?_, ?_, ?_, ?_, ?_, ?_, ?_, ?_⟩
  · show c.state.commitIndex = _
    rw [hindex, h.index, List.length_append]
    rfl
  · rw [List.getLast?_concat]
    rfl
  · rw [List.getLast?_concat]
    show some (stateRoot O.toRoots c.state) = o.stateAfterRoot
    rw [ho, orderingOf_stateAfterRoot]
  · rw [verifyOrderingChain_concat, h.chain, h.next_linked hO hc]
    rfl
  · intro o' ho'
    rcases List.mem_append.mp ho' with ho' | ho'
    · exact h.valid o' ho'
    · rw [List.mem_singleton.mp ho']
      refine ⟨hvalid, hhash, ?_⟩
      rw [ho, orderingOf_conflictKey, hkey, h.family]
  · intro i o' hi
    rcases Nat.lt_or_ge i orderings.length with hlt | hge
    · rw [List.getElem?_append_left hlt] at hi
      exact h.positions i o' hi
    · rw [List.getElem?_append_right hge, List.getElem?_singleton] at hi
      split at hi
      · next hzero =>
        obtain rfl := Option.some.inj hi
        rw [ho, orderingOf_commitIndex, hindex, h.index]
        congr 2
        omega
      · cases hi
  · intro k record hk
    rw [htable] at hk
    by_cases heq : k = orderingHash O o
    · rw [heq, Function.update_self] at hk
      obtain rfl := Option.some.inj hk
      exact ⟨List.mem_append_right _ (List.mem_singleton_self o), heq ▸ hhash, hreplay⟩
    · rw [Function.update_of_ne heq] at hk
      obtain ⟨hmem, hkhash, hrecord⟩ := h.stored k record hk
      exact ⟨List.mem_append_left _ hmem, hkhash, hrecord⟩
  · intro o' ho'
    rw [htable]
    rcases List.mem_append.mp ho' with ho' | ho'
    · obtain ⟨k, record, hk, hrecord, heq⟩ := h.complete o' ho'
      have hne : k ≠ orderingHash O o := by
        have hsome := (h.valid o' ho').2.1
        rw [hk] at hsome
        exact Option.some.inj hsome ▸ hnew o' ho'
      refine ⟨k, record, hk, ?_, heq⟩
      rw [Function.update_of_ne hne]
      exact hrecord
    · rw [List.mem_singleton.mp ho']
      exact ⟨_, _, hhash, Function.update_self .., rfl⟩

/-! ## calls -/

variable {κ : Type*} [DecidableEq κ]

/-- an answer, and no invalid record -/
def Answer.Sound (a : Answer ι) : Prop := ∀ errors, a ≠ .invalidRecord errors

/-- what is computed has no invalid record, and a longer history where it is written -/
def SoundOutcome (O : OrderingRoots ι) (cfg : Config ι) :
    CompareAndSet.Outcome (Journal ι) (Answer ι) → Prop
  | .answer a => a.Sound
  | .write J a => (∃ orderings, History O cfg J orderings) ∧ a.Sound

theorem History.publish (h : History O cfg J orderings) (hO : Canonical O)
    (hc : applyAction O.toRoots (J.state cfg) command = .committed c) (version : ℤ) :
    SoundOutcome O cfg (publish O cfg J command (J.state cfg) version c) := by
  have hreplay := validateRecord_built hc (h.next_valid hO hc)
  unfold PRF.Resubmission.publish
  dsimp only
  rw [hreplay]
  dsimp only
  split
  · refine ⟨⟨_, h.commit hO hc version⟩, fun errors heq => ?_⟩
    cases heq
  · intro errors heq
    cases heq

/-- **What a call computes from a snapshot with a history**: no invalid record, and what it writes
has a longer history. -/
theorem History.transact (h : History O cfg J orderings) (hO : Canonical O) (call : Call ι) :
    SoundOutcome O cfg (transact O cfg call J) := by
  unfold PRF.Resubmission.transact
  dsimp only
  split
  · intro errors heq
    cases heq
  · split
    · next c hc => exact h.publish hO hc _
    · intro errors heq
      cases heq

/-- what an auditor finds in a store: no call met an invalid record; the orderings have the commit
indexes 1 to n, one each; they are a valid chain from the root of the empty state, and its last hash
is that of the state; and they are what is stored, each under its hash with a record that replays -/
structure Audited (O : OrderingRoots ι) (cfg : Config ι) (w : World (Journal ι) κ (Answer ι))
    (orderings : List (Ordering ι)) : Prop where
  sound : ∀ t errors, w.phase t ≠ .done (.invalidRecord errors)
  index : (w.value.state cfg).commitIndex = orderings.length
  positions : ∀ (i : ℕ) (o : Ordering ι), orderings[i]? = some o →
    o.commitIndex = some ((i : ℤ) + 1)
  chain : verifyOrderingChain O orderings
    (some (stateRoot O.toRoots (emptyState cfg.familyId cfg.dispositionPublicHex))) = []
  last : (w.value.state cfg).lastHash = orderings.getLast?.bind (·.hash)
  stored : ∀ h record, w.value.committedTransactions h = some record →
    record.ordering ∈ orderings ∧ record.ordering.hash = some h ∧ validateRecord O record = []
  complete : ∀ o ∈ orderings, ∃ h record, o.hash = some h
    ∧ w.value.committedTransactions h = some record ∧ record.ordering = o

/-- **The committed history of a store is one verifiable, replayable chain**, after every
interleaving of any number of calls. -/
theorem store_verifiable (hO : Canonical O) (cfg : Config ι) (calls : κ → Call ι)
    (moves : List κ) :
    ∃ orderings, Audited O cfg
      (after (fun t => transact O cfg (calls t)) (start Journal.empty) moves) orderings := by
  have hsound : ∀ t J, (∃ orderings, History O cfg J orderings) →
      SoundOutcome O cfg (transact O cfg (calls t) J) :=
    fun t J ⟨_, hJ⟩ => hJ.transact hO (calls t)
  have hwrite : ∀ t J J' (a : Answer ι), (∃ orderings, History O cfg J orderings) →
      transact O cfg (calls t) J = .write J' a → ∃ orderings, History O cfg J' orderings := by
    intro t J J' a hJ hwrite
    have := hsound t J hJ
    rw [hwrite] at this
    exact this.1
  have hkept : Kept (fun t => transact O cfg (calls t))
      (fun J => ∃ orderings, History O cfg J orderings)
      (after (fun t => transact O cfg (calls t)) (start Journal.empty) moves) :=
    after_induction hwrite ⟨[], history_empty⟩ moves
  obtain ⟨orderings, h⟩ := hkept.value
  refine ⟨orderings, fun t errors hdone => ?_, h.index, h.positions, h.chain, h.last, h.stored,
    h.complete⟩
  obtain ⟨J, hJ, hanswer | ⟨J', hwritten⟩⟩ := hkept.answered t _ hdone
  · have := hsound t J hJ
    rw [hanswer] at this
    exact this errors rfl
  · have := hsound t J hJ
    rw [hwritten] at this
    exact this.2 errors rfl

end

/-! ## two calls with the same snapshot -/

deriving instance Countable for Action
deriving instance Countable for Snapshot
deriving instance Countable for OrderingDomain
deriving instance Countable for Ordering

/-- an injective hash of ordering records -/
noncomputable def countedRoots : OrderingRoots ℕ where
  hash d := d.body.length
  authoritativeHash d := d.body.length
  verifyBytes _ _ _ := true
  inputRoot _ := 14
  stateRoot p := p.version.toNat
  effectsRoot _ := 16
  orderingRoot d o := Classical.choose (exists_injective_nat (OrderingDomain × Ordering ℕ)) (d, o)
  changeIdentityRoot _ := 17
  validSha256Ref _ := true

theorem countedRoots_canonical : Canonical countedRoots where
  injective _ _ h :=
    (Prod.mk.inj (Classical.choose_spec
      (exists_injective_nat (OrderingDomain × Ordering ℕ)) h)).2
  orderingRef _ _ := rfl
  changeIdentityRef _ := rfl
  inputRef _ := rfl
  stateRef _ := rfl
  effectsRef _ := rfl

def plainConfig : Config ℕ := ⟨0, none, none, fun _ _ => true⟩

/-- two first receipts, of which one can be committed -/
def rivalCall (t : Bool) : Call ℕ where
  command := .admitChild
    { parentReceiptHash := none
      candidateAttemptReceipt := none
      candidateAttemptReceiptId := some (if t then 1 else 2)
      idempotencyKey := none
      contentKey := some (if t then 3 else 4)
      sequence := some 1
      expectedChainVersion := none }
  expectedVersion := none

/-- both calls read the empty store, one writes, and the other reads again and is refused -/
theorem rivals_verifiable :
    ∃ orderings, Audited countedRoots plainConfig
      (after (fun t => transact countedRoots plainConfig (rivalCall t)) (start Journal.empty)
        [true, false, true, false, false, false]) orderings :=
  store_verifiable countedRoots_canonical plainConfig rivalCall _

end PRF.Resubmission
