import ProtocolRobustness.Library.Once
import ProtocolRobustness.Resubmission.Guards

/-!
# The resubmission chain is one line

Runs of commands from the empty state, in which every admitted receipt has an id.

* `step`, `NamedCommand`   a command that commits, or its refusal;
* `Linked`                 receipts, the latest first, each under the next and one sequence later;
* `Linear`                 the invariant: a line of receipts, its head and its inverse;
* `linear_step`            a committed command keeps it;
* `chain_one_line`         what holds after every run.
-/

set_option linter.unusedSectionVars false

namespace PRF.Resubmission
open Runs

/-! ## runs -/

section
variable {ι : Type*}

/-- an admission names its candidate -/
def Command.Named : Command ι → Prop
  | .admitChild input => input.childReceiptHash ≠ none
  | _ => True

abbrev NamedCommand (ι : Type*) := { c : Command ι // c.Named }

variable [DecidableEq ι] (R : Roots ι)

def step (s : ChainState ι) (command : NamedCommand ι) : Except (Result ι) (ChainState ι) :=
  transition R s command.1

/-- the state after a run of commands -/
def reached (familyId : ι) (dispositionPublicHex : Option ι) (commands : List (NamedCommand ι)) :
    ChainState ι :=
  run (step R) (emptyState familyId dispositionPublicHex) commands

/-- how many commands of a run were committed -/
def committedCount (familyId : ι) (dispositionPublicHex : Option ι)
    (commands : List (NamedCommand ι)) : ℤ :=
  total (step R) (fun _ _ => 1) (emptyState familyId dispositionPublicHex) commands

def Command.contentKeys : Command ι → List (Option ι)
  | .admitChild input => [input.contentKey]
  | _ => []

def Command.idempotencyKeys : Command ι → List ι
  | .admitChild input => input.idempotencyKey.toList
  | _ => []

/-- the content keys that a run admits, `nil` among them -/
def admittedContent (familyId : ι) (dispositionPublicHex : Option ι)
    (commands : List (NamedCommand ι)) : List (Option ι) :=
  emitted (step R) (fun _ command => command.1.contentKeys)
    (emptyState familyId dispositionPublicHex) commands

/-- the idempotency keys that a run admits -/
def admittedKeys (familyId : ι) (dispositionPublicHex : Option ι)
    (commands : List (NamedCommand ι)) : List ι :=
  emitted (step R) (fun _ command => command.1.idempotencyKeys)
    (emptyState familyId dispositionPublicHex) commands

variable {R} {s s' : ChainState ι} {command : NamedCommand ι}

theorem step_cases (h : step R s command = .ok s') :
    (∃ input child, command.1 = .admitChild input ∧ input.childReceiptHash = some child
      ∧ Fresh s input
      ∧ (AdmittedFirst s input ∨ ∃ parentEntry, AdmittedUnder s input parentEntry)
      ∧ s' = s.admitted input (some child) input.parentReceiptHash)
    ∨ ∃ attempt status hash, command.1.contentKeys = [] ∧ command.1.idempotencyKeys = []
      ∧ s' = s.disposed attempt status hash := by
  obtain ⟨c, hc, rfl⟩ := transition_ok.mp h
  rcases applyAction_committed.mp hc with ⟨input, hcmd, hfresh, hguards, hcommit⟩ |
    ⟨input, publicHex, artifact, hcmd, hguards, hcommit⟩
  · left
    have hnamed : input.childReceiptHash ≠ none := by
      have := command.2
      rwa [hcmd] at this
    obtain ⟨child, hchild⟩ := Option.ne_none_iff_exists'.mp hnamed
    refine ⟨input, child, hcmd, hchild, hfresh, hguards, ?_⟩
    rw [hchild] at hcommit
    cases hcommit
    rfl
  · right
    refine ⟨input.attemptReceiptHash, artifact.status, dispositionHash R.toCrypto artifact,
      by rw [hcmd]; rfl, by rw [hcmd]; rfl, ?_⟩
    cases hcommit
    rfl

end

/-! ## the line -/

section
variable {ι : Type*}

/-- receipts, the latest first: each is stored under the next one and has as its sequence its place
in the line, so the parent's sequence and one -/
def Linked (receipts : Option ι → Option (AttemptEntry ι)) : List ι → Prop
  | [] => True
  | r :: older =>
    (∃ e, receipts (some r) = some e ∧ e.parentReceiptHash = older.head?
      ∧ e.sequence = some ((older.length : ℤ) + 1)) ∧ Linked receipts older

variable [DecidableEq ι]

theorem Linked.update {receipts : Option ι → Option (AttemptEntry ι)} {path : List ι} {r : ι}
    (h : Linked receipts path) (hr : r ∉ path) (e : AttemptEntry ι) :
    Linked (Function.update receipts (some r) (some e)) path := by
  induction path with
  | nil => trivial
  | cons a older ih =>
    obtain ⟨⟨e', he', hparent, hseq⟩, holder⟩ := h
    have hne : some a ≠ some r := fun heq => hr (Option.some.inj heq ▸ List.mem_cons_self)
    refine ⟨⟨e', ?_, hparent, hseq⟩, ih holder fun hmem => hr (List.mem_cons_of_mem _ hmem)⟩
    rw [Function.update_of_ne hne]
    exact he'

theorem Linked.parent_mem {receipts : Option ι → Option (AttemptEntry ι)} {path : List ι}
    (h : Linked receipts path) {r p : ι} {e : AttemptEntry ι} (hr : r ∈ path)
    (he : receipts (some r) = some e) (hparent : e.parentReceiptHash = some p) :
    p ∈ path.tail := by
  induction path with
  | nil => cases hr
  | cons a older ih =>
    obtain ⟨⟨e', he', hparent', -⟩, holder⟩ := h
    rcases List.mem_cons.mp hr with rfl | hr
    · rw [he] at he'
      cases he'
      rw [hparent] at hparent'
      exact List.mem_of_head? hparent'.symm
    · exact List.mem_of_mem_tail (ih holder hr)

theorem Linked.sequence_head {receipts : Option ι → Option (AttemptEntry ι)} {r : ι}
    {older : List ι} {e : AttemptEntry ι} (h : Linked receipts (r :: older))
    (he : receipts (some r) = some e) : e.expectedSequence = older.length + 2 := by
  obtain ⟨⟨e', he', -, hseq⟩, -⟩ := h
  rw [he] at he'
  cases he'
  rw [AttemptEntry.expectedSequence, hseq]
  show (older.length : ℤ) + 1 + 1 = older.length + 2
  ring

/-- the receipts of a chain are one line that ends in its head, and its successors are the inverse
of the links to the parents -/
structure Linear (s : ChainState ι) (path : List ι) : Prop where
  distinct : path.Nodup
  linked : Linked s.attemptReceipts path
  head : s.head = path.head?
  stored : ∀ r, (s.attemptReceipts r).isSome ↔ ∃ a ∈ path, r = some a
  successors : ∀ p c, s.successorByParent p = some c ↔
    ∃ e, s.attemptReceipts c = some e ∧ e.parentReceiptHash = p

theorem linear_empty (familyId : ι) (hex : Option ι) : Linear (emptyState familyId hex) [] where
  distinct := List.nodup_nil
  linked := trivial
  head := rfl
  stored := by simp [emptyState]
  successors := by simp [emptyState]

variable {s : ChainState ι} {path : List ι}

theorem Linear.head_successor (h : Linear s path) : s.successorByParent s.head = none := by
  by_contra hne
  obtain ⟨c, hc⟩ := Option.ne_none_iff_exists'.mp hne
  obtain ⟨e, he, hparent⟩ := (h.successors _ _).mp hc
  obtain ⟨a, ha, rfl⟩ := (h.stored c).mp (by rw [he]; rfl)
  cases path with
  | nil => cases ha
  | cons r older =>
    rw [h.head] at hparent
    have hmem : r ∈ older := h.linked.parent_mem ha he hparent
    exact (List.nodup_cons.mp h.distinct).1 hmem

/-- a receipt is put at the front of the line -/
theorem Linear.admitted (h : Linear s path) {input : AdmitInput ι} {child : ι}
    (hchild : s.attemptReceipts (some child) = none) (hhead : input.parentReceiptHash = path.head?)
    (hseq : input.sequence = some ((path.length : ℤ) + 1)) :
    Linear (s.admitted input (some child) input.parentReceiptHash) (child :: path) := by
  have hnew : child ∉ path := by
    intro hmem
    have := (h.stored (some child)).mpr ⟨child, hmem, rfl⟩
    rw [hchild] at this
    cases this
  have hfree : s.successorByParent input.parentReceiptHash = none := by
    rw [hhead, ← h.head]
    exact h.head_successor
  refine ⟨List.nodup_cons.mpr ⟨hnew, h.distinct⟩, ?_, rfl, ?_, ?_⟩
  · exact ⟨⟨_, Function.update_self .., hhead, hseq⟩, h.linked.update hnew _⟩
  · intro r
    show (Function.update s.attemptReceipts (some child) _ r).isSome ↔ _
    by_cases hr : r = some child
    · subst hr
      simp
    · rw [Function.update_of_ne hr, h.stored]
      simp [hr]
  · intro p c
    show Function.update s.successorByParent input.parentReceiptHash _ p = some c ↔
      ∃ e, Function.update s.attemptReceipts (some child) _ c = some e ∧ _
    by_cases hc : c = some child
    · subst hc
      rw [Function.update_self]
      by_cases hp : p = input.parentReceiptHash
      · subst hp
        simp
      · rw [Function.update_of_ne hp, h.successors, hchild]
        simp [eq_comm, hp]
    · rw [Function.update_of_ne hc]
      by_cases hp : p = input.parentReceiptHash
      · subst hp
        rw [Function.update_self, ← h.successors, hfree]
        simp [eq_comm, hc]
      · rw [Function.update_of_ne hp]
        exact h.successors p c

variable {R : Roots ι} {s' : ChainState ι} {command : NamedCommand ι}

/-- **A committed command keeps the line, or puts a receipt in front of it.** -/
theorem linear_step (h : Linear s path) (hstep : step R s command = .ok s') :
    ∃ path', Linear s' path' := by
  rcases step_cases hstep with ⟨input, child, -, hchild, -, hguards, rfl⟩ |
    ⟨attempt, status, hash, -, -, rfl⟩
  · refine ⟨child :: path, ?_⟩
    rcases hguards with hfirst | ⟨parentEntry, hunder⟩
    · have hnil : path = [] := by
        have := h.head
        rw [hfirst.head] at this
        exact List.head?_eq_none_iff.mp this.symm
      subst hnil
      have hnone : s.attemptReceipts (some child) = none := by
        by_contra hne
        obtain ⟨a, ha, -⟩ := (h.stored _).mp (Option.isSome_iff_ne_none.mpr hne)
        cases ha
      exact h.admitted hnone hfirst.parent hfirst.sequence
    · have hhead : input.parentReceiptHash = path.head? := hunder.head.trans h.head
      cases path with
      | nil => exact absurd hhead hunder.parent
      | cons r older =>
        have hstored := hunder.stored
        rw [hhead] at hstored
        refine h.admitted (hchild ▸ hunder.child) hhead ?_
        rw [hunder.sequence, h.linked.sequence_head hstored, List.length_cons, Nat.cast_succ,
          add_assoc]
        rfl
  · exact ⟨path, h.distinct, h.linked, h.head, h.stored, h.successors⟩

theorem linear_reached (familyId : ι) (hex : Option ι) (commands : List (NamedCommand ι)) :
    ∃ path, Linear (reached R familyId hex commands) path :=
  run_induction (I := fun s => ∃ path, Linear s path)
    (fun _ _ _ ⟨_, hi⟩ hs => linear_step hi hs) ⟨[], linear_empty familyId hex⟩ commands

/-! ## the answers that are never given -/

/-- **A line has no fork to refuse.** -/
theorem Linear.noFork (h : Linear s path) (command : Command ι) :
    (applyAction R s command).NoFork := by
  intro reason shown hr
  by_contra hfork
  obtain ⟨input, rfl, hrefused⟩ := applyAction_refused (by simpa using hfork) hr
  cases reason <;> simp only [Reason.isFork, not_true] at hfork
  · obtain ⟨hhead, hsucc⟩ := hrefused
    rw [hhead, h.head_successor] at hsucc
    cases hsucc
  · obtain ⟨hchild, hcycle, hparent⟩ := hrefused
    rw [← hcycle, hchild] at hparent
    cases hparent

/-! ## where a receipt came from -/

variable (R) in
/-- `input` admits `r` under `p` in the state `before`: `p` is the head there, it is effectively
active, and it may be resubmitted against -/
structure AdmittedAt (before : ChainState ι) (input : AdmitInput ι) (r p : ι) : Prop where
  child : input.childReceiptHash = some r
  parent : input.parentReceiptHash = some p
  committed : ∃ c, admitChild R before input = .committed c
  head : before.head = some p
  active : before.effectiveDisposition (some p) = .active
  eligible : ∃ e, before.attemptReceipts (some p) = some e
    ∧ directResubmissionParent e.attemptReceipt = true

/-- **A receipt with a parent came from a command of the run.** -/
theorem admitted_in_run (familyId : ι) (hex : Option ι) (commands : List (NamedCommand ι))
    {r p : ι} {e : AttemptEntry ι}
    (he : (reached R familyId hex commands).attemptReceipts (some r) = some e)
    (hparent : e.parentReceiptHash = some p) :
    ∃ n input, (commands[n]?).map Subtype.val = some (.admitChild input)
      ∧ AdmittedAt R (reached R familyId hex (commands.take n)) input r p := by
  induction commands using List.reverseRecOn with
  | nil => cases he
  | append_singleton commands command ih =>
    -- a receipt that was there before the last command came from an earlier one
    have earlier : (reached R familyId hex commands).attemptReceipts (some r) = some e →
        ∃ n input, ((commands ++ [command])[n]?).map Subtype.val = some (.admitChild input)
          ∧ AdmittedAt R (reached R familyId hex ((commands ++ [command]).take n)) input r p := by
      intro hbefore
      obtain ⟨n, input, hn, hat⟩ := ih hbefore
      have hlt : n < commands.length := by
        by_contra hge
        rw [List.getElem?_eq_none (by omega)] at hn
        cases hn
      refine ⟨n, input, ?_, ?_⟩
      · rw [List.getElem?_append_left hlt]
        exact hn
      · rw [List.take_append_of_le_length hlt.le]
        exact hat
    have hrun : reached R familyId hex (commands ++ [command])
        = after (step R) (reached R familyId hex commands) command :=
      run_append _ commands [command]
    rw [hrun] at he
    rcases after_cases (step R) (reached R familyId hex commands) command with
      ⟨s', hs, hafter⟩ | ⟨-, hafter⟩
    · rw [hafter] at he
      rcases step_cases hs with ⟨input, child, hcmd, hchild, hfresh, hguards, rfl⟩ |
        ⟨attempt, status, hash, -, -, rfl⟩
      · by_cases hr : r = child
        · subst hr
          rw [show (ChainState.admitted _ input (some r) _).attemptReceipts (some r) = _ from
            Function.update_self ..] at he
          cases he
          have hlast : ((commands ++ [command])[commands.length]?).map Subtype.val
              = some (Command.admitChild input) := by
            simp [hcmd]
          refine ⟨commands.length, input, hlast, ?_⟩
          rw [List.take_left' rfl]
          rcases hguards with hfirst | ⟨parentEntry, hunder⟩
          · exact absurd (hfirst.parent.symm.trans hparent) nofun
          · have hp : input.parentReceiptHash = some p := hparent
            refine ⟨hchild, hp, ⟨_, (admitChild_committed R).mpr
              ⟨hfresh, Or.inr ⟨_, hunder⟩, rfl⟩⟩, ?_, ?_, parentEntry, ?_, hunder.eligible⟩
            · rw [← hunder.head, hp]
            · rw [← hp, hunder.active]
            · rw [← hp, hunder.stored]
        · apply earlier
          have hne : some r ≠ some child := fun h => hr (Option.some.inj h)
          rw [← he]
          exact (Function.update_of_ne hne ..).symm
      · exact earlier he
    · rw [hafter] at he
      exact earlier he

/-! ## what is admitted once -/

theorem update_ne_none {κ ν : Type*} [DecidableEq κ] {f : κ → Option ν} {a k : κ} {v : ν}
    (h : f k ≠ none ∨ k = a) : Function.update f a (some v) k ≠ none := by
  by_cases heq : k = a
  · rw [heq, Function.update_self]
    exact Option.some_ne_none v
  · rw [Function.update_of_ne heq]
    exact h.resolve_right heq

theorem admittedContent_nodup (familyId : ι) (hex : Option ι) (commands : List (NamedCommand ι)) :
    (admittedContent R familyId hex commands).Nodup := by
  refine (Once.emitted_nodup (fun s k => s.contentIndex k ≠ none) ?_ ?_ _ commands).1
  · intro s a s' hs
    rcases step_cases hs with ⟨input, child, hcmd, -, hfresh, -, rfl⟩ | ⟨_, _, _, hkeys, -, rfl⟩
    · rw [hcmd]
      refine ⟨List.nodup_singleton _, fun k hk => ?_⟩
      rw [List.mem_singleton.mp hk]
      exact not_not.mpr hfresh.content
    · rw [hkeys]
      exact ⟨List.nodup_nil, fun k hk => absurd hk List.not_mem_nil⟩
  · intro s a s' hs k hk
    rcases step_cases hs with ⟨input, child, hcmd, -, hfresh, -, rfl⟩ | ⟨_, _, _, hkeys, -, rfl⟩
    · rw [hcmd] at hk
      apply update_ne_none
      rcases hk with hk | hk
      · exact Or.inl hk
      · exact Or.inr (List.mem_singleton.mp hk)
    · rw [hkeys] at hk
      exact hk.resolve_right List.not_mem_nil

theorem admittedKeys_nodup (familyId : ι) (hex : Option ι) (commands : List (NamedCommand ι)) :
    (admittedKeys R familyId hex commands).Nodup := by
  refine (Once.emitted_nodup (fun s k => s.idempotencyIndex (some k) ≠ none) ?_ ?_ _ commands).1
  · intro s a s' hs
    rcases step_cases hs with ⟨input, child, hcmd, -, hfresh, -, rfl⟩ | ⟨_, _, _, -, hkeys, rfl⟩
    · rw [hcmd]
      refine ⟨?_, fun k hk => ?_⟩
      · show input.idempotencyKey.toList.Nodup
        cases input.idempotencyKey with
        | none => exact List.nodup_nil
        | some k => exact List.nodup_singleton k
      have hkey : input.idempotencyKey = some k := Option.mem_toList.mp hk
      have hfree := hfresh.idempotency
      rw [ChainState.priorSubmission, hkey] at hfree
      exact not_not.mpr hfree
    · rw [hkeys]
      exact ⟨List.nodup_nil, fun k hk => absurd hk List.not_mem_nil⟩
  · intro s a s' hs k hk
    rcases step_cases hs with ⟨input, child, hcmd, -, hfresh, -, rfl⟩ | ⟨_, _, _, -, hkeys, rfl⟩
    · rw [hcmd] at hk
      apply update_ne_none
      rcases hk with hk | hk
      · exact Or.inl hk
      · exact Or.inr (Option.mem_toList.mp hk).symm
    · rw [hkeys] at hk
      exact hk.resolve_right List.not_mem_nil

theorem version_reached (familyId : ι) (hex : Option ι) (commands : List (NamedCommand ι)) :
    (reached R familyId hex commands).version = committedCount R familyId hex commands
      ∧ (reached R familyId hex commands).commitIndex
        = committedCount R familyId hex commands := by
  have hversion : ∀ (s : ChainState ι) a s', step R s a = .ok s' →
      s'.version = s.version + 1 ∧ s'.commitIndex = s.commitIndex + 1 := by
    intro s a s' hs
    rcases step_cases hs with ⟨_, _, _, _, _, _, rfl⟩ | ⟨_, _, _, _, _, rfl⟩
    · exact ⟨rfl, rfl⟩
    · exact ⟨rfl, rfl⟩
  constructor
  · have := run_change (V := ChainState.version) (f := fun _ _ => 1)
      (fun s a s' hs => (hversion s a s' hs).1) (emptyState familyId hex) commands
    rw [show (emptyState familyId hex).version = 0 from rfl, zero_add] at this
    exact this
  · have := run_change (V := ChainState.commitIndex) (f := fun _ _ => 1)
      (fun s a s' hs => (hversion s a s' hs).2) (emptyState familyId hex) commands
    rw [show (emptyState familyId hex).commitIndex = 0 from rfl, zero_add] at this
    exact this

/-- **The resubmission chain is one line.**  After every run from the empty state the stored
receipts are one line that starts at a parentless receipt of sequence 1 and ends in the head; the
successors are the inverse of the links; each receipt with a parent was admitted at the head, which
was active and might be resubmitted against; no content and no key was admitted twice; version and
commit index count the committed commands; and no command is refused for a fork. -/
theorem chain_one_line (R : Roots ι) (familyId : ι) (hex : Option ι)
    (commands : List (NamedCommand ι)) :
    let s := reached R familyId hex commands
    (∃ path : List ι, path.Nodup ∧ Linked s.attemptReceipts path ∧ s.head = path.head?
      ∧ ∀ r, (s.attemptReceipts r).isSome ↔ ∃ a ∈ path, r = some a)
    ∧ (∀ p c, s.successorByParent p = some c ↔
        ∃ e, s.attemptReceipts c = some e ∧ e.parentReceiptHash = p)
    ∧ (∀ r p e, s.attemptReceipts (some r) = some e → e.parentReceiptHash = some p →
        ∃ n input, (commands[n]?).map Subtype.val = some (.admitChild input)
          ∧ AdmittedAt R (reached R familyId hex (commands.take n)) input r p)
    ∧ (admittedContent R familyId hex commands).Nodup
    ∧ (admittedKeys R familyId hex commands).Nodup
    ∧ s.version = committedCount R familyId hex commands
    ∧ s.commitIndex = committedCount R familyId hex commands
    ∧ ∀ command : NamedCommand ι, (applyAction R s command.1).NoFork := by
  obtain ⟨path, h⟩ := linear_reached (R := R) familyId hex commands
  obtain ⟨hversion, hindex⟩ := version_reached (R := R) familyId hex commands
  exact ⟨⟨path, h.distinct, h.linked, h.head, h.stored⟩, h.successors,
    fun r p e => admitted_in_run familyId hex commands,
    admittedContent_nodup familyId hex commands, admittedKeys_nodup familyId hex commands,
    hversion, hindex, fun command => h.noFork command.1⟩

end

end PRF.Resubmission
