import Mathlib.Tactic

/-!
# A cell that many callers change by compare-and-set

A caller reads the cell, computes from what it read an answer or a new value, and writes the new
value only if no one wrote in between; else it reads again.

* `Phase`, `World`, `step`   the callers and the cell, one move of one caller at a time;
* `after`                    any interleaving of moves;
* `Kept`                     the snapshots that may still be written are the current value;
* `after_induction`          what a write preserves of the value it was computed from, every
                             interleaving preserves;
* `answered`                 every answer was computed from a value with that property.
-/

set_option linter.unusedSectionVars false

namespace CompareAndSet

section
variable {σ κ α : Type*}

inductive Phase (σ α : Type*)
  | ready
  | holding (stamp : ℕ) (snapshot : σ)
  | done (answer : α)

/-- `stamp` is the identity of the value: every write makes a new one -/
structure World (σ κ α : Type*) where
  stamp : ℕ
  value : σ
  phase : κ → Phase σ α

/-- what a caller computes from a snapshot -/
inductive Outcome (σ α : Type*)
  | answer (a : α)
  | write (value : σ) (a : α)

variable [DecidableEq κ] (attempt : κ → σ → Outcome σ α)

/-- a caller that holds a snapshot writes if it is still current, and is ready again if not -/
def resolve (w : World σ κ α) (caller : κ) (stamp : ℕ) : Outcome σ α → World σ κ α
  | .answer a => { w with phase := Function.update w.phase caller (.done a) }
  | .write value a =>
    if stamp = w.stamp then
      { stamp := w.stamp + 1
        value := value
        phase := Function.update w.phase caller (.done a) }
    else { w with phase := Function.update w.phase caller .ready }

def step (w : World σ κ α) (caller : κ) : World σ κ α :=
  match w.phase caller with
  | .ready => { w with phase := Function.update w.phase caller (.holding w.stamp w.value) }
  | .holding stamp snapshot => resolve w caller stamp (attempt caller snapshot)
  | .done _ => w

def after (w : World σ κ α) (callers : List κ) : World σ κ α := callers.foldl (step attempt) w

/-- nobody has called yet -/
def start (value : σ) : World σ κ α := ⟨0, value, fun _ => .ready⟩

/-- the value and every snapshot have a property; a snapshot that is current is the value; and an
answer was computed from a value with the property -/
structure Kept (I : σ → Prop) (w : World σ κ α) : Prop where
  value : I w.value
  snapshot : ∀ t n v, w.phase t = .holding n v → I v
  bounded : ∀ t n v, w.phase t = .holding n v → n ≤ w.stamp
  current : ∀ t n v, w.phase t = .holding n v → n = w.stamp → v = w.value
  answered : ∀ t a, w.phase t = .done a →
    ∃ v, I v ∧ (attempt t v = .answer a ∨ ∃ v', attempt t v = .write v' a)

variable {attempt} {I : σ → Prop} {w : World σ κ α}

theorem kept_start {value : σ} (h : I value) : Kept attempt I (start value) where
  value := h
  snapshot := nofun
  bounded := nofun
  current := nofun
  answered := nofun

/-- one caller moves to a phase that is as it should be, and the cell stays -/
theorem Kept.moved (h : Kept attempt I w) (caller : κ) (p : Phase σ α)
    (hholding : ∀ n v, p = .holding n v → n = w.stamp ∧ v = w.value)
    (hdone : ∀ a, p = .done a →
      ∃ v, I v ∧ (attempt caller v = .answer a ∨ ∃ v', attempt caller v = .write v' a)) :
    Kept attempt I { w with phase := Function.update w.phase caller p } := by
  have hcases : ∀ t q, Function.update w.phase caller p t = q →
      (t = caller ∧ p = q) ∨ w.phase t = q := by
    intro t q hq
    by_cases ht : t = caller
    · subst ht
      rw [Function.update_self] at hq
      exact Or.inl ⟨rfl, hq⟩
    · rw [Function.update_of_ne ht] at hq
      exact Or.inr hq
  refine ⟨h.value, ?_, ?_, ?_, ?_⟩
  · intro t n v hq
    rcases hcases t _ hq with ⟨-, hp⟩ | hq
    · rw [(hholding n v hp).2]
      exact h.value
    · exact h.snapshot t n v hq
  · intro t n v hq
    rcases hcases t _ hq with ⟨-, hp⟩ | hq
    · exact (hholding n v hp).1.le
    · exact h.bounded t n v hq
  · intro t n v hq hn
    rcases hcases t _ hq with ⟨-, hp⟩ | hq
    · exact (hholding n v hp).2
    · exact h.current t n v hq hn
  · intro t a hq
    rcases hcases t _ hq with ⟨rfl, hp⟩ | hq
    · exact hdone a hp
    · exact h.answered t a hq

/-- a write of a value that was computed from the current one -/
theorem Kept.written (h : Kept attempt I w) {caller : κ} {value : σ} {a : α}
    (hattempt : attempt caller w.value = .write value a) (hvalue : I value) :
    Kept attempt I
      { stamp := w.stamp + 1
        value := value
        phase := Function.update w.phase caller (.done a) } := by
  have hold : ∀ t n v, Function.update w.phase caller (.done a) t = .holding n v →
      w.phase t = .holding n v := by
    intro t n v hq
    by_cases ht : t = caller
    · subst ht
      rw [Function.update_self] at hq
      cases hq
    · rwa [Function.update_of_ne ht] at hq
  refine ⟨hvalue, ?_, ?_, ?_, ?_⟩
  · exact fun t n v hq => h.snapshot t n v (hold t n v hq)
  · exact fun t n v hq => (h.bounded t n v (hold t n v hq)).trans (Nat.le_succ _)
  · intro t n v hq hn
    have hle := h.bounded t n v (hold t n v hq)
    dsimp only at hn
    omega
  · intro t b hq
    dsimp only at hq
    by_cases ht : t = caller
    · subst ht
      rw [Function.update_self] at hq
      cases hq
      exact ⟨w.value, h.value, Or.inr ⟨value, hattempt⟩⟩
    · rw [Function.update_of_ne ht] at hq
      exact h.answered t b hq

/-- **One move of one caller keeps what writes preserve.** -/
theorem Kept.step (h : Kept attempt I w)
    (hwrite : ∀ t v v' a, I v → attempt t v = .write v' a → I v') (caller : κ) :
    Kept attempt I (step attempt w caller) := by
  unfold CompareAndSet.step
  cases hphase : w.phase caller with
  | ready =>
    refine h.moved caller _ ?_ nofun
    intro n v hp
    cases hp
    exact ⟨rfl, rfl⟩
  | done a => exact h
  | holding n v =>
    dsimp only
    cases hattempt : attempt caller v with
    | answer a =>
      refine h.moved caller _ nofun ?_
      intro b hb
      cases hb
      exact ⟨v, h.snapshot caller n v hphase, Or.inl hattempt⟩
    | write v' a =>
      unfold resolve
      dsimp only
      by_cases hn : n = w.stamp
      · rw [if_pos hn]
        have hcurrent := h.current caller n v hphase hn
        have hattempt' : attempt caller w.value = .write v' a := by rw [← hcurrent, hattempt]
        exact h.written hattempt' (hwrite caller w.value v' a h.value hattempt')
      · rw [if_neg hn]
        exact h.moved caller _ nofun nofun

/-- **What a write preserves of the value it was computed from, every interleaving preserves.** -/
theorem after_induction (hwrite : ∀ t v v' a, I v → attempt t v = .write v' a → I v')
    {value : σ} (h : I value) (callers : List κ) :
    Kept attempt I (after attempt (start value) callers) := by
  have hrun : ∀ w : World σ κ α, Kept attempt I w → Kept attempt I (after attempt w callers) := by
    induction callers with
    | nil => exact fun w hw => hw
    | cons caller callers ih => exact fun w hw => ih _ (hw.step hwrite caller)
  exact hrun _ (kept_start h)

end

end CompareAndSet
