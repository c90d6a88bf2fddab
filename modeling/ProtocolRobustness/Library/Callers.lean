import ProtocolRobustness.Library.CompareAndSet

/-!
# Clients that call a compare-and-set cell again and again

A call has an argument that it keeps through all its attempts.  A client calls when it has no call
under way; the other moves are turns of the loop of its call.

* `Turn`, `Cell`        the calls under way, the cell, and the writes made, the first first;
* `Cell.call`, `Cell.turn`   a new call, and one turn of the loop of a call;
* `Written`             a sequence of writes, each computed from the value the one before it left;
* `Move`, `Cell.after`  every interleaving of the clients;
* `Linear`              the cell is what its writes make of the first value, and every answer was
                        computed from what some of the first writes made of it;
* `Later`               a cell has made some more writes, for arguments with a property.
-/

set_option linter.unusedSectionVars false

namespace Callers
open CompareAndSet

section
variable {σ κ δ α : Type*}

inductive Turn (σ δ α : Type*)
  | idle
  | called (d : δ)
  | holding (d : δ) (stamp : ℕ) (snapshot : σ)
  | done (d : δ) (answer : α)

structure Cell (σ κ δ α : Type*) where
  stamp : ℕ
  value : σ
  phase : κ → Turn σ δ α
  writes : List (δ × α)

/-- the answer of an attempt, if its write comes through -/
def reply : Outcome σ α → α
  | .answer a => a
  | .write _ a => a

def Cell.start (value : σ) : Cell σ κ δ α := ⟨0, value, fun _ => .idle, []⟩

/-- the argument of the call under way -/
def Turn.pending : Turn σ δ α → Option δ
  | .called d => some d
  | .holding d _ _ => some d
  | _ => none

variable [DecidableEq κ] (attempt : δ → σ → Outcome σ α)

/-- a client moves on, and the cell stays -/
def Cell.moved (c : Cell σ κ δ α) (client : κ) (p : Turn σ δ α) : Cell σ κ δ α :=
  { c with phase := Function.update c.phase client p }

/-- a client with a call under way does not call -/
def Cell.call (c : Cell σ κ δ α) (client : κ) (d : δ) : Cell σ κ δ α :=
  if (c.phase client).pending = none then c.moved client (.called d) else c

/-- a write that comes through -/
def Cell.write (c : Cell σ κ δ α) (client : κ) (d : δ) (value : σ) (a : α) : Cell σ κ δ α where
  stamp := c.stamp + 1
  value := value
  phase := Function.update c.phase client (.done d a)
  writes := c.writes ++ [(d, a)]

/-- the write comes through if the snapshot is still the value; else the loop begins again -/
def Cell.settle (c : Cell σ κ δ α) (client : κ) (d : δ) (stamp : ℕ) :
    Outcome σ α → Cell σ κ δ α
  | .answer a => c.moved client (.done d a)
  | .write value a => if stamp = c.stamp then c.write client d value a else c.moved client (.called d)

def Cell.turn (c : Cell σ κ δ α) (client : κ) : Cell σ κ δ α :=
  match c.phase client with
  | .called d => c.moved client (.holding d c.stamp c.value)
  | .holding d stamp snapshot => c.settle client d stamp (attempt d snapshot)
  | _ => c

/-! ## sequences of writes -/

inductive Written (first : σ) : List (δ × α) → σ → Prop
  | nil : Written first [] first
  | snoc {writes : List (δ × α)} {v v' : σ} {d : δ} {a : α} (h : Written first writes v)
      (hattempt : attempt d v = .write v' a) : Written first (writes ++ [(d, a)]) v'

variable {attempt} {first v v' : σ} {writes writes' : List (δ × α)}

theorem Written.eq_first (h : Written attempt first [] v) : v = first := by
  generalize hall : ([] : List (δ × α)) = all at h
  cases h with
  | nil => rfl
  | snoc _ _ => simp at hall

theorem Written.before_last {e : δ × α} (h : Written attempt first (writes ++ [e]) v') :
    ∃ v, Written attempt first writes v ∧ attempt e.1 v = .write v' e.2 := by
  generalize hall : writes ++ [e] = all at h
  cases h with
  | nil => simp at hall
  | snoc h hattempt =>
    obtain ⟨rfl, he⟩ := List.append_inj' hall rfl
    obtain rfl := List.singleton_inj.mp he
    exact ⟨_, h, hattempt⟩

/-- a prefix of the writes made some value, and the rest made the last value of it -/
theorem Written.split (h : Written attempt first (writes ++ writes') v') :
    ∃ v, Written attempt first writes v ∧ Written attempt v writes' v' := by
  induction writes' using List.reverseRecOn generalizing v' with
  | nil =>
    rw [List.append_nil] at h
    exact ⟨v', h, .nil⟩
  | append_singleton writes' e ih =>
    rw [← List.append_assoc] at h
    obtain ⟨u, hu, hattempt⟩ := h.before_last
    obtain ⟨v, hfirst, hrest⟩ := ih hu
    exact ⟨v, hfirst, hrest.snoc hattempt⟩

/-- the value a write was computed from -/
theorem Written.at_write {e : δ × α} (h : Written attempt first (writes ++ e :: writes') v') :
    ∃ v v₁, Written attempt first writes v ∧ attempt e.1 v = .write v₁ e.2
      ∧ Written attempt v₁ writes' v' := by
  rw [List.append_cons] at h
  obtain ⟨v₁, hfirst, hrest⟩ := h.split
  obtain ⟨v, hbefore, hattempt⟩ := hfirst.before_last
  exact ⟨v, v₁, hbefore, hattempt, hrest⟩

/-- the writes determine the value -/
theorem Written.unique (h : Written attempt first writes v) (h' : Written attempt first writes v') :
    v = v' := by
  induction h generalizing v' with
  | nil => exact h'.eq_first.symm
  | snoc _ hattempt ih =>
    obtain ⟨v₀, hbefore, hattempt'⟩ := h'.before_last
    obtain rfl := ih hbefore
    rw [hattempt] at hattempt'
    cases hattempt'
    rfl

/-! ## every interleaving is a sequence of writes -/

/-- the answer was computed from what some of the first writes made of the first value -/
def Computed (attempt : δ → σ → Outcome σ α) (first : σ) (writes : List (δ × α)) (d : δ) (a : α) :
    Prop :=
  ∃ before v, before <+: writes ∧ Written attempt first before v
    ∧ (attempt d v = .answer a ∨ (d, a) ∈ writes)

structure Linear (attempt : δ → σ → Outcome σ α) (first : σ) (c : Cell σ κ δ α) : Prop where
  written : Written attempt first c.writes c.value
  snapshot : ∀ client d n v, c.phase client = .holding d n v →
    n ≤ c.stamp ∧ (n = c.stamp → v = c.value)
      ∧ ∃ before, before <+: c.writes ∧ Written attempt first before v
  answered : ∀ client d a, c.phase client = .done d a → Computed attempt first c.writes d a

variable {c c' : Cell σ κ δ α} {client : κ} {d : δ} {a : α}

theorem linear_start : Linear attempt first (Cell.start first : Cell σ κ δ α) :=
  ⟨.nil, nofun, nofun⟩

theorem update_cases {p q : Turn σ δ α} {t : κ} (h : Function.update c.phase client p t = q) :
    p = q ∨ c.phase t = q := by
  by_cases ht : t = client
  · subst ht
    exact Or.inl (by rwa [Function.update_self] at h)
  · exact Or.inr (by rwa [Function.update_of_ne ht] at h)

theorem Linear.moved (h : Linear attempt first c) {p : Turn σ δ α}
    (hholding : ∀ d n v, p = .holding d n v → n = c.stamp ∧ v = c.value)
    (hdone : ∀ d a, p = .done d a → Computed attempt first c.writes d a) :
    Linear attempt first (c.moved client p) := by
  refine ⟨h.written, ?_, ?_⟩
  · intro t d n v hq
    rcases update_cases hq with hp | hq
    · obtain ⟨rfl, rfl⟩ := hholding d n v hp
      exact ⟨le_rfl, fun _ => rfl, c.writes, List.prefix_rfl, h.written⟩
    · exact h.snapshot t d n v hq
  · intro t d a hq
    rcases update_cases hq with hp | hq
    · exact hdone d a hp
    · exact h.answered t d a hq

theorem Linear.write (h : Linear attempt first c) (hattempt : attempt d c.value = .write v a) :
    Linear attempt first (c.write client d v a) := by
  refine ⟨h.written.snoc hattempt, ?_, ?_⟩
  · intro t d' n v' hq
    rcases update_cases hq with hp | hq
    · cases hp
    · obtain ⟨hle, -, before, hbefore, hwritten⟩ := h.snapshot t d' n v' hq
      refine ⟨hle.trans (Nat.le_succ _), fun hn => ?_, before, ?_, hwritten⟩
      · have hstamp : n = c.stamp + 1 := hn
        omega
      · exact hbefore.trans (List.prefix_append _ _)
  · intro t d' b hq
    rcases update_cases hq with hp | hq
    · cases hp
      exact ⟨c.writes, c.value, List.prefix_append _ _, h.written, Or.inr (by simp [Cell.write])⟩
    · obtain ⟨before, v', hbefore, hwritten, hanswer⟩ := h.answered t d' b hq
      refine ⟨before, v', hbefore.trans (List.prefix_append _ _), hwritten, ?_⟩
      exact hanswer.imp id fun hmem => List.mem_append_left _ hmem

theorem Linear.call (h : Linear attempt first c) (client : κ) (d : δ) :
    Linear attempt first (c.call client d) := by
  unfold Cell.call
  split
  · exact h.moved nofun nofun
  · exact h

/-- **One turn of one client keeps the order of the writes.** -/
theorem Linear.turn (h : Linear attempt first c) (client : κ) :
    Linear attempt first (c.turn attempt client) := by
  unfold Cell.turn
  cases hphase : c.phase client with
  | idle => exact h
  | done d a => exact h
  | called d =>
    refine h.moved (fun d' n v hp => ?_) nofun
    cases hp
    exact ⟨rfl, rfl⟩
  | holding d n v =>
    obtain ⟨-, hcurrent, before, hbefore, hwritten⟩ := h.snapshot client d n v hphase
    show Linear attempt first (c.settle client d n (attempt d v))
    cases hattempt : attempt d v with
    | answer a =>
      refine h.moved nofun fun d' b hp => ?_
      cases hp
      exact ⟨before, v, hbefore, hwritten, Or.inl hattempt⟩
    | write v' a =>
      unfold Cell.settle
      dsimp only
      split
      · next hn =>
        rw [hcurrent hn] at hattempt
        exact h.write hattempt
      · exact h.moved nofun nofun

/-- a call that no other client interrupts -/
theorem Cell.solo (c : Cell σ κ δ α) (client : κ) (h : (c.phase client).pending = none)
    (hattempt : attempt d c.value = .write v a) :
    (((c.call client d).turn attempt client).turn attempt client).value = v
      ∧ (((c.call client d).turn attempt client).turn attempt client).writes
        = c.writes ++ [(d, a)] := by
  have hcall : c.call client d = c.moved client (.called d) := if_pos h
  have hread : (c.moved client (.called d)).turn attempt client
      = (c.moved client (.called d)).moved client (.holding d c.stamp c.value) := by
    simp [Cell.turn, Cell.moved]
  rw [hcall, hread]
  simp [Cell.turn, Cell.moved, Cell.settle, hattempt, Cell.write]

/-! ## interleavings -/

inductive Move (κ δ : Type*)
  | call (client : κ) (d : δ)
  | turn (client : κ)

variable (attempt) in
def Cell.move (c : Cell σ κ δ α) : Move κ δ → Cell σ κ δ α
  | .call client d => c.call client d
  | .turn client => c.turn attempt client

variable (attempt) in
def Cell.after (c : Cell σ κ δ α) (moves : List (Move κ δ)) : Cell σ κ δ α :=
  moves.foldl (Cell.move attempt) c

theorem Linear.after (h : Linear attempt first c) (moves : List (Move κ δ)) :
    Linear attempt first (c.after attempt moves) := by
  induction moves generalizing c with
  | nil => exact h
  | cons m moves ih =>
    refine ih ?_
    cases m with
    | call client d => exact h.call client d
    | turn client => exact h.turn client

/-- the writes between two points lead from the value at one to the value at the other -/
theorem Linear.between (h : Linear attempt first c) (h' : Linear attempt first c')
    {rest : List (δ × α)} (hrest : c'.writes = c.writes ++ rest) :
    Written attempt c.value rest c'.value := by
  have hwritten := h'.written
  rw [hrest] at hwritten
  obtain ⟨v, hbefore, hmore⟩ := hwritten.split
  rwa [h.written.unique hbefore]

/-! ## later writes -/

/-- the calls under way have a property -/
def Cell.Pending (P : δ → Prop) (c : Cell σ κ δ α) : Prop :=
  ∀ client d, (c.phase client).pending = some d → P d

/-- the cell has made some more writes, and these and the calls under way have a property -/
structure Later (P : δ → Prop) (c c' : Cell σ κ δ α) : Prop where
  pending : c'.Pending P
  more : ∃ rest, c'.writes = c.writes ++ rest ∧ ∀ e ∈ rest, P e.1

variable {P : δ → Prop}

theorem later_refl (h : c.Pending P) : Later P c c := ⟨h, [], by simp, nofun⟩

theorem Later.moved {first : Cell σ κ δ α} (h : Later P first c) {p : Turn σ δ α}
    (hp : ∀ d, p.pending = some d → P d) : Later P first (c.moved client p) := by
  refine ⟨fun t d hd => ?_, h.more⟩
  rcases update_cases (q := Function.update c.phase client p t) rfl with heq | heq
  · exact hp d (heq ▸ hd)
  · exact h.pending t d (heq ▸ hd)

theorem Later.call {first : Cell σ κ δ α} (h : Later P first c) (client : κ) (hd : P d) :
    Later P first (c.call client d) := by
  unfold Cell.call
  split
  · exact h.moved fun d' hd' => Option.some.inj hd' ▸ hd
  · exact h

/-- **What one turn writes was under way.** -/
theorem Later.turn {first : Cell σ κ δ α} (h : Later P first c) (client : κ) :
    Later P first (c.turn attempt client) := by
  have hP := h.pending client
  unfold Cell.turn
  cases hphase : c.phase client with
  | idle => exact h
  | done d a => exact h
  | called d =>
    rw [hphase] at hP
    exact h.moved fun d' hd' => hP d' hd'
  | holding d n v =>
    rw [hphase] at hP
    show Later P first (c.settle client d n (attempt d v))
    cases attempt d v with
    | answer a => exact h.moved nofun
    | write v' a =>
      unfold Cell.settle
      dsimp only
      split
      · have hmoved : Later P first (c.moved client (.done d a)) := h.moved nofun
        refine ⟨hmoved.pending, ?_⟩
        obtain ⟨rest, hrest, hmore⟩ := h.more
        refine ⟨rest ++ [(d, a)], by simp [Cell.write, hrest], fun e he => ?_⟩
        rcases List.mem_append.mp he with he | he
        · exact hmore e he
        · obtain rfl := List.mem_singleton.mp he
          exact hP d rfl
      · exact h.moved fun d' hd' => hP d' hd'

theorem later_after {first : Cell σ κ δ α} (hP : ∀ d, P d) (h : Later P first c)
    (moves : List (Move κ δ)) : Later P first (c.after attempt moves) := by
  induction moves generalizing c with
  | nil => exact h
  | cons m moves ih =>
    refine ih ?_
    cases m with
    | call client d => exact h.call client (hP d)
    | turn client => exact h.turn client

end

end Callers
