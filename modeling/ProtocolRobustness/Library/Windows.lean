import Mathlib.Tactic

/-!
# Amounts accumulated over windows of time

Amounts arrive at times that do not go back.  A window opens with the first amount, and is over after
`duration`; the next amount after that opens a new one.

* `opened`         the window that is open at a time, with what has accumulated in it;
* `Accumulated`    an account holds what arrived since its window opened, and nothing older;
* `Accumulated.add`, `Accumulated.opens`   an amount arrives, or a window opens without one;
* `Accumulated.sum_since`   when windows have a length, it is the sum since the window opened.
-/

namespace Windows

section
variable (duration : ℤ)

/-- the start of the window at a time, and what has accumulated in it -/
def opened (now : ℤ) (start : Option ℤ) (amount : ℤ) : ℤ × ℤ :=
  match start with
  | none => (now, amount)
  | some s => if duration ≤ now - s then (now, 0) else (s, amount)

/-- an account over the amounts that have arrived, with their times -/
structure Accumulated (now : ℤ) (past : List (ℤ × ℤ)) (start : Option ℤ) (amount : ℤ) : Prop where
  times : ∀ p ∈ past, p.1 ≤ now
  nonneg : ∀ p ∈ past, 0 ≤ p.2
  unopened : start = none → past = [] ∧ amount = 0
  /-- what is older than the window is not counted, and what is counted falls into it -/
  window : ∀ s ∈ start, s ≤ now ∧ ∃ elapsed current, past = elapsed ++ current ∧
    amount = (current.map Prod.snd).sum ∧
    (∀ p ∈ current, p.1 = s ∨ s ≤ p.1 ∧ p.1 < s + duration) ∧
    ∀ p ∈ elapsed, p.1 < s ∨ duration ≤ 0 ∧ p.1 ≤ s

variable {duration} {now later amount : ℤ} {past : List (ℤ × ℤ)} {start : Option ℤ}

namespace Accumulated

theorem fresh (duration now : ℤ) : Accumulated duration now [] none 0 where
  times p hp := by cases hp
  nonneg p hp := by cases hp
  unopened _ := ⟨rfl, rfl⟩
  window s hs := by cases hs

theorem advance (h : Accumulated duration now past start amount) (hlater : now ≤ later) :
    Accumulated duration later past start amount where
  times p hp := (h.times p hp).trans hlater
  nonneg := h.nonneg
  unopened := h.unopened
  window s hs := ⟨(h.window s hs).1.trans hlater, (h.window s hs).2⟩

theorem amount_nonneg (h : Accumulated duration now past start amount) : 0 ≤ amount := by
  cases hstart : start with
  | none => exact (h.unopened hstart).2.ge
  | some s =>
    obtain ⟨_, elapsed, current, hpast, hamount, _⟩ := h.window s hstart
    rw [hamount]
    refine List.sum_nonneg fun n hn => ?_
    obtain ⟨p, hp, rfl⟩ := List.mem_map.mp hn
    exact h.nonneg p (hpast ▸ List.mem_append_right _ hp)

/-- **A window is opened**, a new one if the old one is over. -/
theorem opens (h : Accumulated duration now past start amount) :
    Accumulated duration now past (some (opened duration now start amount).1)
      (opened duration now start amount).2 := by
  refine ⟨h.times, h.nonneg, nofun, fun s hs => ?_⟩
  obtain rfl := Option.some.inj hs
  unfold opened
  cases start with
  | none =>
    obtain ⟨hpast, hamount⟩ := h.unopened rfl
    exact ⟨le_rfl, [], [], hpast, hamount, nofun, nofun⟩
  | some s =>
    obtain ⟨hs, elapsed, current, hpast, hamount, hcurrent, helapsed⟩ := h.window s rfl
    dsimp only
    split
    · next hover =>
      refine ⟨le_rfl, past, [], (List.append_nil _).symm, rfl, nofun, fun p hp => ?_⟩
      rcases List.mem_append.mp (hpast ▸ hp) with hp | hp
      · have := helapsed p hp
        omega
      · have := hcurrent p hp
        omega
    · exact ⟨hs, elapsed, current, hpast, hamount, hcurrent, helapsed⟩

/-- **An amount arrives** in the window that is open. -/
theorem add (h : Accumulated duration now past start amount) {more : ℤ} (hmore : 0 ≤ more) :
    Accumulated duration now (past ++ [(now, more)]) (some (opened duration now start amount).1)
      ((opened duration now start amount).2 + more) := by
  obtain ⟨hs, elapsed, current, hpast, hamount, hcurrent, helapsed⟩ := h.opens.window _ rfl
  refine ⟨fun p hp => ?_, fun p hp => ?_, nofun, fun s hs' => ?_⟩
  · rcases List.mem_append.mp hp with hp | hp
    · exact h.times p hp
    · rw [List.mem_singleton.mp hp]
  · rcases List.mem_append.mp hp with hp | hp
    · exact h.nonneg p hp
    · rw [List.mem_singleton.mp hp]
      exact hmore
  · obtain rfl := Option.some.inj hs'
    refine ⟨hs, elapsed, current ++ [(now, more)], ?_, ?_, fun p hp => ?_, helapsed⟩
    · rw [← List.append_assoc, ← hpast]
    · rw [hamount]
      simp
    · rcases List.mem_append.mp hp with hp | hp
      · exact hcurrent p hp
      · -- a window that is open now is new, or not over
        rw [List.mem_singleton.mp hp]
        unfold opened
        cases start with
        | none => exact Or.inl rfl
        | some s =>
          dsimp only
          split
          · exact Or.inl rfl
          · have hle := (h.window s rfl).1
            right
            constructor <;> dsimp only <;> omega

/-- an account is what arrived since its window opened -/
theorem sum_since (h : Accumulated duration now past start amount) (hduration : 0 < duration) {s : ℤ}
    (hs : start = some s) : amount = ((past.filter fun p => s ≤ p.1).map Prod.snd).sum := by
  obtain ⟨_, elapsed, current, hpast, hamount, hcurrent, helapsed⟩ := h.window s hs
  have hold : elapsed.filter (fun p => decide (s ≤ p.1)) = [] := by
    refine List.filter_eq_nil_iff.mpr fun p hp => ?_
    have := helapsed p hp
    rw [decide_eq_true_eq]
    omega
  have hnew : current.filter (fun p => decide (s ≤ p.1)) = current := by
    refine List.filter_eq_self.mpr fun p hp => ?_
    have := hcurrent p hp
    rw [decide_eq_true_eq]
    omega
  rw [hpast, List.filter_append, hold, hnew, List.nil_append]
  exact hamount

end Accumulated

end

end Windows
