import ProtocolRobustness.Library.Runs

/-!
# At most one success for each key

A state beside the keys of what was done.  An action may have a key, read at the state it meets.

* `Marked`, `once`     the state with its keys, and one application under a key;
* `deliver`            an action, under its key if it has one;
* `mem_applied_run`    after a run the keys are those that succeeded in it;
* `emitted_nodup`      a run emits no key twice, when steps emit free keys and take them.
-/

set_option linter.unusedSectionVars false

namespace Once
open Runs

structure Marked (σ κ : Type*) where
  state : σ
  applied : List κ
deriving DecidableEq

inductive Answer
  | applied
  | duplicate
deriving DecidableEq

section
variable {σ κ ε α : Type*} [DecidableEq κ]

/-- the key is marked when the application succeeds -/
def attempt (m : Marked σ κ) (key : κ) (f : σ → Except ε σ) : Except ε (Answer × Marked σ κ) :=
  match f m.state with
  | .error e => .error e
  | .ok s => .ok (.applied, ⟨s, key :: m.applied⟩)

def once (m : Marked σ κ) (key : κ) (f : σ → Except ε σ) : Except ε (Answer × Marked σ κ) :=
  if key ∈ m.applied then .ok (.duplicate, m) else attempt m key f

/-- an application without a key -/
def always (m : Marked σ κ) (f : σ → Except ε σ) : Except ε (Answer × Marked σ κ) :=
  match f m.state with
  | .error e => .error e
  | .ok s => .ok (.applied, ⟨s, m.applied⟩)

theorem once_of_mem {m : Marked σ κ} {key : κ} (h : key ∈ m.applied) (f : σ → Except ε σ) :
    once m key f = .ok (.duplicate, m) := by
  rw [once, if_pos h]

theorem once_of_not_mem {m : Marked σ κ} {key : κ} (h : key ∉ m.applied) (f : σ → Except ε σ) :
    once m key f = attempt m key f := by
  rw [once, if_neg h]

/-- a duplicate is answered for marked keys only -/
theorem once_duplicate_iff {m : Marked σ κ} {key : κ} {f : σ → Except ε σ} :
    once m key f = .ok (.duplicate, m) ↔ key ∈ m.applied := by
  constructor
  · intro h
    by_contra hnot
    rw [once_of_not_mem hnot, attempt] at h
    split at h
    · cases h
    · cases h
  · exact fun h => once_of_mem h f

/-- what a success leaves marked -/
theorem once_ok {m m' : Marked σ κ} {key : κ} {f : σ → Except ε σ} {answer : Answer}
    (h : once m key f = .ok (answer, m')) (k : κ) : k ∈ m'.applied ↔ k ∈ m.applied ∨ k = key := by
  unfold once attempt at h
  split at h
  · next hmem =>
    obtain ⟨-, rfl⟩ := Prod.mk.inj (Except.ok.inj h)
    constructor
    · exact Or.inl
    · intro hk
      rcases hk with hk | rfl
      · exact hk
      · exact hmem
  · split at h
    · cases h
    · obtain ⟨-, rfl⟩ := Prod.mk.inj (Except.ok.inj h)
      rw [List.mem_cons, or_comm]

theorem always_ok {m m' : Marked σ κ} {f : σ → Except ε σ} {answer : Answer}
    (h : always m f = .ok (answer, m')) : m'.applied = m.applied := by
  unfold always at h
  split at h
  · cases h
  · obtain ⟨-, rfl⟩ := Prod.mk.inj (Except.ok.inj h)
    rfl

/-! ## runs -/

variable (key : σ → α → Except ε (Option κ)) (act : α → σ → Except ε σ)

def deliver (m : Marked σ κ) (a : α) : Except ε (Answer × Marked σ κ) :=
  match key m.state a with
  | .error e => .error e
  | .ok none => always m (act a)
  | .ok (some k) => once m k (act a)

/-- the delivery as a step -/
def deliverStep (m : Marked σ κ) (a : α) : Except ε (Marked σ κ) :=
  (deliver key act m a).map Prod.snd

/-- an action succeeds under a key -/
def Succeeds (m : Marked σ κ) (a : α) (k : κ) : Prop :=
  key m.state a = .ok (some k) ∧ ∃ answer m', deliver key act m a = .ok (answer, m')

variable {key act}

/-- **What a step marks**: the key under which it succeeds. -/
theorem mem_applied_after (m : Marked σ κ) (a : α) (k : κ) :
    k ∈ (after (deliverStep key act) m a).applied ↔ k ∈ m.applied ∨ Succeeds key act m a k := by
  unfold after deliverStep Succeeds
  cases h : deliver key act m a with
  | error e =>
    show k ∈ m.applied ↔ _
    simp
  | ok r =>
    show k ∈ r.2.applied ↔ _
    have hex : ∃ answer m', Except.ok r = (Except.ok (answer, m') : Except ε _) := ⟨r.1, r.2, rfl⟩
    simp only [hex, and_true]
    unfold deliver at h
    split at h
    · cases h
    · next hkey =>
      rw [always_ok h, hkey]
      simp
    · next k' hkey =>
      rw [once_ok h, hkey]
      simp [eq_comm]

/-- **After a run the keys are those that were marked before and those that succeeded in it.** -/
theorem mem_applied_run (m : Marked σ κ) (actions : List α) (k : κ) :
    k ∈ (run (deliverStep key act) m actions).applied ↔ k ∈ m.applied ∨
      ∃ n a, actions[n]? = some a ∧
        Succeeds key act (run (deliverStep key act) m (actions.take n)) a k := by
  induction actions generalizing m with
  | nil =>
    rw [run_nil]
    simp
  | cons a actions ih =>
    rw [run_cons, ih, mem_applied_after, or_assoc]
    refine or_congr_right ?_
    constructor
    · intro h
      rcases h with h | ⟨n, b, hb, h⟩
      · exact ⟨0, a, rfl, h⟩
      · exact ⟨n + 1, b, hb, h⟩
    · rintro ⟨n, b, hb, h⟩
      cases n with
      | zero =>
        obtain rfl := Option.some.inj hb
        exact Or.inl h
      | succ n => exact Or.inr ⟨n, b, hb, h⟩

end

/-! ## keys that steps take -/

section
variable {σ κ ε α : Type*} {step : σ → α → Except ε σ} {f : σ → α → List κ}

/-- **Keys that are free when a step emits them, and taken after it, are emitted once.** -/
theorem emitted_nodup (taken : σ → κ → Prop)
    (hfree : ∀ s a s', step s a = .ok s' → (f s a).Nodup ∧ ∀ k ∈ f s a, ¬ taken s k)
    (htaken : ∀ s a s', step s a = .ok s' → ∀ k, taken s k ∨ k ∈ f s a → taken s' k)
    (s : σ) (actions : List α) :
    (emitted step f s actions).Nodup ∧ ∀ k ∈ emitted step f s actions, ¬ taken s k := by
  induction actions generalizing s with
  | nil => exact ⟨List.nodup_nil, fun k hk => absurd hk List.not_mem_nil⟩
  | cons a actions ih =>
    obtain ⟨hnodup, hrest⟩ := ih (after step s a)
    rw [emitted]
    rcases after_cases step s a with ⟨s', hs, hafter⟩ | ⟨hno, hafter⟩
    · rw [hafter] at hnodup hrest ⊢
      rw [if_pos (by rw [hs]; rfl)]
      obtain ⟨hhead, hunused⟩ := hfree s a s' hs
      have hlater : ∀ k ∈ emitted step f s' actions, ¬ (taken s k ∨ k ∈ f s a) :=
        fun k hk h => hrest k hk (htaken s a s' hs k h)
      constructor
      · refine List.nodup_append'.mpr ⟨hhead, hnodup, fun k hk hk' => ?_⟩
        exact hlater k hk' (Or.inr hk)
      · intro k hk
        rcases List.mem_append.mp hk with hk | hk
        · exact hunused k hk
        · exact fun h => hlater k hk (Or.inl h)
    · rw [hafter] at hnodup hrest ⊢
      rw [if_neg hno, List.nil_append]
      exact ⟨hnodup, hrest⟩

end

end Once
