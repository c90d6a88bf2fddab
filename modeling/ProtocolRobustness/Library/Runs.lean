import Mathlib.Tactic

/-!
# Runs of a system that refuses

`step s a` is the state after an action, or the reason it is refused; a refused action leaves the
state as it is.  A run is a list of actions from a state.

* `run`            the state after a list of actions;
* `Along P`        every accepted step of a run meets `P`, read at the state before it;
* `total f`        what the accepted steps of a run add up to;
* `emitted f`      what the accepted steps of a run emit, in their order;
* `run_induction`  what accepted steps preserve, a run preserves;
* `run_total`      a quantity that accepted steps change by `f` changes over a run by `total f`;
* `each_iff_kept`, `along_iff_kept`   what a step keeps exactly under a condition, a run keeps
                   exactly under it;
* `total_eq_zero_iff`   costs add up to zero when no step has a cost.
-/

namespace Runs

section
variable {σ α ε : Type*} (step : σ → α → Except ε σ)

/-- the state after an action, accepted or refused -/
def after (s : σ) (a : α) : σ :=
  match step s a with
  | .ok s' => s'
  | .error _ => s

def run (s : σ) (actions : List α) : σ := actions.foldl (after step) s

/-- every accepted step meets `P` at the state before it -/
def Along (P : σ → α → Prop) (s : σ) : List α → Prop
  | [] => True
  | a :: actions => ((step s a).isOk → P s a) ∧ Along P (after step s a) actions

instance decidableAlong (P : σ → α → Prop) [∀ s a, Decidable (P s a)] :
    ∀ (s : σ) (actions : List α), Decidable (Along step P s actions)
  | _, [] => inferInstanceAs (Decidable True)
  | s, a :: actions =>
    have := decidableAlong P (after step s a) actions
    inferInstanceAs (Decidable (((step s a).isOk → P s a) ∧ Along step P (after step s a) actions))

/-- every step of a run, accepted or refused, meets `P` at the state before it -/
def Each (P : σ → α → Prop) (s : σ) : List α → Prop
  | [] => True
  | a :: actions => P s a ∧ Each P (after step s a) actions

/-- the sum of `f` over the accepted steps -/
def total (f : σ → α → ℤ) (s : σ) : List α → ℤ
  | [] => 0
  | a :: actions => (if (step s a).isOk then f s a else 0) + total f (after step s a) actions

/-- what the accepted steps emit, in their order -/
def emitted {β : Type*} (f : σ → α → List β) (s : σ) : List α → List β
  | [] => []
  | a :: actions => (if (step s a).isOk then f s a else []) ++ emitted f (after step s a) actions

variable {step} {s s' : σ} {a : α}

theorem after_ok (h : step s a = .ok s') : after step s a = s' := by
  rw [after, h]

theorem after_refused (h : ¬ (step s a).isOk) : after step s a = s := by
  unfold after
  cases hs : step s a with
  | error e => rfl
  | ok s' => exact absurd (by rw [hs]; rfl) h

theorem run_nil (s : σ) : run step s [] = s := rfl
theorem run_cons (s : σ) (a : α) (actions : List α) :
    run step s (a :: actions) = run step (after step s a) actions := rfl

theorem run_append (s : σ) (actions more : List α) :
    run step s (actions ++ more) = run step (run step s actions) more :=
  List.foldl_append

variable (step) in
/-- an accepted step and its state after, or a refusal that leaves the state as it is -/
theorem after_cases (s : σ) (a : α) :
    (∃ s', step s a = .ok s' ∧ after step s a = s') ∨
    (¬ (step s a).isOk ∧ after step s a = s) := by
  cases hs : step s a with
  | ok s' => exact Or.inl ⟨s', rfl, after_ok hs⟩
  | error e => exact Or.inr ⟨by simp [Except.isOk, Except.toBool], by rw [after, hs]⟩

/-! ## invariants -/

theorem after_induction {I : σ → Prop} (hstep : ∀ s a s', I s → step s a = .ok s' → I s')
    (h : I s) (a : α) : I (after step s a) := by
  rcases after_cases step s a with ⟨s', hs, hafter⟩ | ⟨_, hafter⟩
  · exact hafter ▸ hstep s a s' h hs
  · exact hafter.symm ▸ h

/-- **What accepted steps preserve, a run preserves.** -/
theorem run_induction {I : σ → Prop} (hstep : ∀ s a s', I s → step s a = .ok s' → I s')
    (h : I s) (actions : List α) : I (run step s actions) := by
  induction actions generalizing s with
  | nil => exact h
  | cons a actions ih => exact ih (after_induction hstep h a)

/-- what accepted steps leave as it is, a run leaves as it is -/
theorem run_const {β : Type*} {I : σ → Prop} {V : σ → β}
    (hstep : ∀ s a s', I s → step s a = .ok s' → I s' ∧ V s' = V s) (h : I s)
    (actions : List α) : V (run step s actions) = V s := by
  have hboth : ∀ s₁ a s', I s₁ ∧ V s₁ = V s → step s₁ a = .ok s' → I s' ∧ V s' = V s := by
    intro s₁ a s' hs₁ hs
    obtain ⟨hi, hv⟩ := hstep s₁ a s' hs₁.1 hs
    exact ⟨hi, hv.trans hs₁.2⟩
  exact (run_induction hboth ⟨h, rfl⟩ actions).2

/-- the same for runs whose steps meet a condition -/
theorem run_induction_along {I : σ → Prop} {P : σ → α → Prop}
    (hstep : ∀ s a s', I s → P s a → step s a = .ok s' → I s') (h : I s) {actions : List α}
    (halong : Along step P s actions) : I (run step s actions) := by
  induction actions generalizing s with
  | nil => exact h
  | cons a actions ih =>
    refine ih ?_ halong.2
    rcases after_cases step s a with ⟨s', hs, hafter⟩ | ⟨_, hafter⟩
    · exact hafter ▸ hstep s a s' h (halong.1 (by rw [hs]; rfl)) hs
    · exact hafter.symm ▸ h

/-- **A relation that holds around accepted steps, with what they emit, holds around a run.** -/
theorem run_emitted {β : Type*} {I : σ → Prop} {R : σ → List β → σ → Prop} {f : σ → α → List β}
    (hrefl : ∀ s, R s [] s) (htrans : ∀ s s₁ s' j j', R s j s₁ → R s₁ j' s' → R s (j ++ j') s')
    (hstep : ∀ s a s', I s → step s a = .ok s' → I s' ∧ R s (f s a) s') (h : I s)
    (actions : List α) : R s (emitted step f s actions) (run step s actions) := by
  induction actions generalizing s with
  | nil => exact hrefl s
  | cons a actions ih =>
    rw [run_cons, emitted]
    rcases after_cases step s a with ⟨s', hs, hafter⟩ | ⟨hno, hafter⟩
    · have hok : (step s a).isOk = true := by rw [hs]; rfl
      obtain ⟨hi, hr⟩ := hstep s a s' h hs
      rw [if_pos hok, hafter]
      exact htrans _ _ _ _ _ hr (ih hi)
    · rw [if_neg hno, hafter, List.nil_append]
      exact ih h

/-- what every accepted step emits meets `P`, then so does what a run emits -/
theorem emitted_forall {β : Type*} {f : σ → α → List β} {P : β → Prop} {actions : List α}
    (h : Along step (fun s a => ∀ b ∈ f s a, P b) s actions) :
    ∀ b ∈ emitted step f s actions, P b := by
  induction actions generalizing s with
  | nil => exact fun b hb => nomatch hb
  | cons a actions ih =>
    intro b hb
    rcases List.mem_append.mp hb with hb | hb
    · split at hb
      · next ha => exact h.1 ha b hb
      · cases hb
    · exact ih h.2 b hb

theorem emitted_append {β : Type*} (f : σ → α → List β) (s : σ) (actions more : List α) :
    emitted step f s (actions ++ more)
      = emitted step f s actions ++ emitted step f (run step s actions) more := by
  induction actions generalizing s with
  | nil => rfl
  | cons a actions ih =>
    show _ ++ emitted step f (after step s a) (actions ++ more) = _
    rw [ih, ← List.append_assoc]
    rfl

/-- a condition that accepted steps meet in every state of an invariant is met along a run -/
theorem along_of_invariant {I : σ → Prop} {P : σ → α → Prop}
    (hstep : ∀ s a s', I s → step s a = .ok s' → I s')
    (hP : ∀ s a, I s → (step s a).isOk → P s a) (h : I s) (actions : List α) :
    Along step P s actions := by
  induction actions generalizing s with
  | nil => trivial
  | cons a actions ih => exact ⟨hP s a h, ih (after_induction hstep h a)⟩

theorem Along.take {P : σ → α → Prop} {actions : List α} (h : Along step P s actions) (n : ℕ) :
    Along step P s (actions.take n) := by
  induction actions generalizing s n with
  | nil =>
    rw [List.take_nil]
    trivial
  | cons a actions ih =>
    cases n with
    | zero => trivial
    | succ n => exact ⟨h.1, ih h.2 n⟩

/-- the last step of a run, if it is accepted -/
theorem Along.last {P : σ → α → Prop} {actions : List α} (h : Along step P s (actions ++ [a]))
    (ha : (step (run step s actions) a).isOk) : P (run step s actions) a := by
  induction actions generalizing s with
  | nil => exact h.1 ha
  | cons b actions ih => exact ih h.2 ha

theorem Along.imp_ok {P Q : σ → α → Prop} {actions : List α} (h : Along step P s actions)
    (hPQ : ∀ s a, (step s a).isOk → P s a → Q s a) : Along step Q s actions := by
  induction actions generalizing s with
  | nil => trivial
  | cons a actions ih => exact ⟨fun ha => hPQ s a ha (h.1 ha), ih h.2⟩

theorem along_congr {I : σ → Prop} (hI : ∀ s a s', I s → step s a = .ok s' → I s')
    {P Q : σ → α → Prop} (hPQ : ∀ s a, I s → (step s a).isOk → (P s a ↔ Q s a)) (h : I s)
    (actions : List α) : Along step P s actions ↔ Along step Q s actions := by
  induction actions generalizing s with
  | nil => exact Iff.rfl
  | cons a actions ih =>
    rw [Along, Along, ih (after_induction hI h a)]
    refine and_congr_left fun _ => ?_
    exact ⟨fun hP ha => (hPQ s a h ha).mp (hP ha), fun hQ ha => (hPQ s a h ha).mpr (hQ ha)⟩

theorem along_and {P Q : σ → α → Prop} (s : σ) (actions : List α) :
    Along step (fun s a => P s a ∧ Q s a) s actions
      ↔ Along step P s actions ∧ Along step Q s actions := by
  induction actions generalizing s with
  | nil => exact iff_of_true trivial ⟨trivial, trivial⟩
  | cons a actions ih =>
    rw [Along, Along, Along, ih]
    exact ⟨fun h => ⟨⟨fun ha => (h.1 ha).1, h.2.1⟩, fun ha => (h.1 ha).2, h.2.2⟩,
      fun h => ⟨fun ha => ⟨h.1.1 ha, h.2.1 ha⟩, h.1.2, h.2.2⟩⟩

theorem along_forall {ι : Type*} {P : ι → σ → α → Prop} (s : σ) (actions : List α) :
    (∀ i, Along step (P i) s actions) ↔ Along step (fun s a => ∀ i, P i s a) s actions := by
  induction actions generalizing s with
  | nil => exact iff_of_true (fun _ => trivial) trivial
  | cons a actions ih =>
    constructor
    · intro h
      exact ⟨fun ha i => (h i).1 ha, (ih _).mp fun i => (h i).2⟩
    · intro h i
      exact ⟨fun ha => h.1 ha i, (ih _).mpr h.2 i⟩

/-- **What a step keeps exactly when it meets `P`, a run keeps throughout exactly when each of its
steps meets `P`.** -/
theorem each_iff_kept {I : σ → Prop} {P : σ → α → Prop}
    (hstep : ∀ s a, I s → (I (after step s a) ↔ P s a)) (h : I s) (actions : List α) :
    (∀ n, I (run step s (actions.take n))) ↔ Each step P s actions := by
  induction actions generalizing s with
  | nil => exact ⟨fun _ => trivial, fun _ n => by rwa [List.take_nil]⟩
  | cons a actions ih =>
    constructor
    · intro hkept
      have hafter : I (after step s a) := hkept 1
      exact ⟨(hstep s a h).mp hafter, (ih hafter).mp fun n => hkept (n + 1)⟩
    · rintro ⟨ha, hrest⟩ n
      cases n with
      | zero => exact h
      | succ n => exact (ih ((hstep s a h).mpr ha)).mpr hrest n

/-- the same for a system that refuses, for runs with a condition of their own, and beside an
invariant that needs no other -/
theorem along_iff_kept {R I : σ → Prop} {D P : σ → α → Prop}
    (hR : ∀ s a s', R s → D s a → step s a = .ok s' → R s')
    (hstep : ∀ s a s', R s → I s → D s a → step s a = .ok s' → (I s' ↔ P s a))
    (hr : R s) (h : I s) {actions : List α} (hD : Along step D s actions) :
    (∀ n, I (run step s (actions.take n))) ↔ Along step P s actions := by
  induction actions generalizing s with
  | nil => exact ⟨fun _ => trivial, fun _ n => by rwa [List.take_nil]⟩
  | cons a actions ih =>
    obtain ⟨ha, hrest⟩ := hD
    rcases after_cases step s a with ⟨s', hs, hafter⟩ | ⟨hno, hafter⟩
    · have hok : (step s a).isOk := by rw [hs]; rfl
      have hiff := hstep s a s' hr h (ha hok) hs
      have hr' := hR s a s' hr (ha hok) hs
      rw [hafter] at hrest
      constructor
      · intro hkept
        have hi : I s' := hafter ▸ hkept 1
        refine ⟨fun _ => hiff.mp hi, ?_⟩
        rw [hafter]
        exact (ih hr' hi hrest).mp fun n => hafter ▸ hkept (n + 1)
      · rintro ⟨hp, halong⟩ n
        cases n with
        | zero => exact h
        | succ n =>
          rw [hafter] at halong
          show I (run step (after step s a) (actions.take n))
          rw [hafter]
          exact (ih hr' (hiff.mpr (hp hok)) hrest).mpr halong n
    · rw [hafter] at hrest
      rw [Along, hafter]
      constructor
      · intro hkept
        exact ⟨fun hok => absurd hok hno, (ih hr h hrest).mp fun n => hafter ▸ hkept (n + 1)⟩
      · rintro ⟨-, halong⟩ n
        cases n with
        | zero => exact h
        | succ n =>
          show I (run step (after step s a) (actions.take n))
          rw [hafter]
          exact (ih hr h hrest).mpr halong n

variable {f g : σ → α → ℤ}

/-- **A quantity that accepted steps change by `f` changes over a run by the total of `f`.** -/
theorem run_total {I : σ → Prop} {V : σ → ℤ}
    (hstep : ∀ s a s', I s → step s a = .ok s' → I s' ∧ V s' = V s + f s a) (h : I s)
    (actions : List α) : V (run step s actions) = V s + total step f s actions := by
  induction actions generalizing s with
  | nil => exact (add_zero _).symm
  | cons a actions ih =>
    rw [run_cons, total, ih (after_induction (fun s a s' hi hs => (hstep s a s' hi hs).1) h a)]
    rcases after_cases step s a with ⟨s', hs, hafter⟩ | ⟨hno, hafter⟩
    · have hok : (step s a).isOk = true := by rw [hs]; rfl
      rw [if_pos hok, hafter, (hstep s a s' h hs).2, add_assoc]
    · rw [if_neg hno, hafter, zero_add]

/-- the same from any state -/
theorem run_change {V : σ → ℤ} (hstep : ∀ s a s', step s a = .ok s' → V s' = V s + f s a) (s : σ)
    (actions : List α) : V (run step s actions) = V s + total step f s actions :=
  run_total (I := fun _ => True) (fun s a s' _ hs => ⟨trivial, hstep s a s' hs⟩) trivial actions

theorem total_add (s : σ) (actions : List α) :
    total step (fun s a => f s a + g s a) s actions
      = total step f s actions + total step g s actions := by
  induction actions generalizing s with
  | nil => rfl
  | cons a actions ih =>
    rw [total, total, total, ih]
    split <;> ring

theorem total_sub (s : σ) (actions : List α) :
    total step (fun s a => f s a - g s a) s actions
      = total step f s actions - total step g s actions := by
  induction actions generalizing s with
  | nil => rfl
  | cons a actions ih =>
    rw [total, total, total, ih]
    split <;> ring

theorem total_nonneg {I : σ → Prop} (hI : ∀ s a s', I s → step s a = .ok s' → I s')
    (hf : ∀ s a, I s → (step s a).isOk → 0 ≤ f s a) (h : I s) (actions : List α) :
    0 ≤ total step f s actions := by
  induction actions generalizing s with
  | nil => exact le_rfl
  | cons a actions ih =>
    rw [total]
    refine add_nonneg ?_ (ih (after_induction hI h a))
    split
    · next ha => exact hf s a h ha
    · exact le_rfl

/-- **Costs add up to zero when no step has a cost.** -/
theorem total_eq_zero_iff {I : σ → Prop} (hI : ∀ s a s', I s → step s a = .ok s' → I s')
    (hf : ∀ s a, I s → (step s a).isOk → 0 ≤ f s a) (h : I s) (actions : List α) :
    total step f s actions = 0 ↔ Along step (fun s a => f s a = 0) s actions := by
  induction actions generalizing s with
  | nil => exact iff_of_true rfl trivial
  | cons a actions ih =>
    have hafter := after_induction hI h a
    rw [total, Along, ← ih hafter]
    have hrest := total_nonneg hI hf hafter actions
    by_cases ha : (step s a).isOk
    · rw [if_pos ha]
      have hcost := hf s a h ha
      constructor
      · intro hsum
        exact ⟨fun _ => by omega, by omega⟩
      · rintro ⟨hzero, hr⟩
        rw [hzero ha, hr, zero_add]
    · rw [if_neg ha, zero_add]
      exact ⟨fun hr => ⟨fun h' => absurd h' ha, hr⟩, fun hr => hr.2⟩

end

end Runs
