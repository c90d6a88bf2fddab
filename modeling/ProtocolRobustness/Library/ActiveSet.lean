import ProtocolRobustness.Library.Apportion

/-!
# Committing claimants at their caps

An amount is divided in proportion to weights among claimants that may have a cap.  As long as the
exact share of an active claimant reaches its cap, all such claimants are committed at their caps
and leave, and what is left is divided among the others.

* `full`, `free`     the claimants whose cap is reached, and the others;
* `run`              the rounds, down to where nobody is active, nobody has weight, or no cap is reached;
* `run_spec`         what the last round finds: a split of the claimants, and a rest that is not
                     negative;
* `run_map`          the rounds read through a map;
* `run_emptied_iff`  everybody is committed just where everybody has a cap, a cap of zero where
                     there is no weight, and the caps fit into the amount.
-/

namespace ActiveSet
open Apportion

section
variable {α : Type*} (weight : α → ℤ) (cap : α → Option ℤ)

def total (l : List α) : ℤ := (l.map weight).sum

def capsOf (l : List α) : ℤ := (l.map fun a => (cap a).getD 0).sum

/-- the exact share of what remains reaches the cap -/
def reached (remaining total : ℤ) (a : α) : Bool :=
  (cap a).any fun c => c * total ≤ remaining * weight a

def full (remaining : ℤ) (active : List α) : List α :=
  active.filter (reached weight cap remaining (total weight active))

def free (remaining : ℤ) (active : List α) : List α :=
  active.filter fun a => !reached weight cap remaining (total weight active) a

/-- where the rounds stand -/
@[ext]
structure State (α : Type*) where
  remaining : ℤ
  active : List α
  committed : List α

variable {weight cap}

theorem free_length_lt {remaining : ℤ} {active : List α} (h : full weight cap remaining active ≠ []) :
    (free weight cap remaining active).length < active.length := by
  obtain ⟨a, ha⟩ := List.exists_mem_of_ne_nil _ h
  obtain ⟨hmem, hreached⟩ := List.mem_filter.mp ha
  exact List.length_filter_lt_length_iff_exists.mpr ⟨a, hmem, by simp [hreached]⟩

variable (weight cap)

/-- another round is due -/
def Due (remaining : ℤ) (active : List α) : Prop :=
  active ≠ [] ∧ total weight active ≠ 0 ∧ full weight cap remaining active ≠ []

instance (remaining : ℤ) (active : List α) : Decidable (Due weight cap remaining active) :=
  inferInstanceAs (Decidable (_ ∧ _))

def run (remaining : ℤ) (active committed : List α) : State α :=
  if h : Due weight cap remaining active then
    run (remaining - capsOf cap (full weight cap remaining active))
      (free weight cap remaining active) (committed ++ full weight cap remaining active)
  else ⟨remaining, active, committed⟩
termination_by active.length
decreasing_by exact free_length_lt h.2.2

variable {weight cap}

theorem run_step {remaining : ℤ} {active committed : List α}
    (h : Due weight cap remaining active) : run weight cap remaining active committed
      = run weight cap (remaining - capsOf cap (full weight cap remaining active))
        (free weight cap remaining active) (committed ++ full weight cap remaining active) := by
  rw [run, dif_pos h]

theorem run_stop {remaining : ℤ} {active committed : List α}
    (h : ¬ Due weight cap remaining active) :
    run weight cap remaining active committed = ⟨remaining, active, committed⟩ := by
  rw [run, dif_neg h]

/-- the claimants: weights and caps are not negative -/
structure Claimants (weight : α → ℤ) (cap : α → Option ℤ) (l : List α) : Prop where
  weight_nonneg : ∀ a ∈ l, 0 ≤ weight a
  cap_nonneg : ∀ a ∈ l, ∀ c ∈ cap a, 0 ≤ c

theorem Claimants.sublist {l l' : List α} (h : Claimants weight cap l) (hs : ∀ a ∈ l', a ∈ l) :
    Claimants weight cap l' :=
  ⟨fun a ha => h.weight_nonneg a (hs a ha), fun a ha => h.cap_nonneg a (hs a ha)⟩

theorem total_pos {l : List α} (h : Claimants weight cap l) (h0 : total weight l ≠ 0) :
    0 < total weight l :=
  lt_of_le_of_ne (sum_map_nonneg h.weight_nonneg) (Ne.symm h0)

/-! ## one round -/

section
variable {remaining : ℤ} {active : List α}

theorem mem_full {a : α} : a ∈ full weight cap remaining active
    ↔ a ∈ active ∧ ∃ c, cap a = some c ∧ c * total weight active ≤ remaining * weight a := by
  unfold full reached
  rw [List.mem_filter]
  cases cap a with
  | none => simp
  | some c => simp

theorem full_perm : (full weight cap remaining active ++ free weight cap remaining active).Perm active :=
  List.filter_append_perm _ _

theorem capsOf_append (l l' : List α) : capsOf cap (l ++ l') = capsOf cap l + capsOf cap l' := by
  unfold capsOf
  rw [List.map_append, List.sum_append]

theorem capsOf_perm {l l' : List α} (h : l.Perm l') : capsOf cap l = capsOf cap l' :=
  (h.map _).sum_eq

variable (h : Claimants weight cap active) (h0 : total weight active ≠ 0)
include h h0

/-- the caps that are reached fit into what remains -/
theorem capsOf_full_le (hr : 0 ≤ remaining) :
    capsOf cap (full weight cap remaining active) ≤ remaining := by
  have ht := total_pos h h0
  have hle : total weight (full weight cap remaining active) ≤ total weight active := by
    have hsplit := sum_filter_add active (reached weight cap remaining (total weight active)) weight
    have hrest : 0 ≤ ((active.filter fun a =>
        !reached weight cap remaining (total weight active) a).map weight).sum :=
      sum_map_nonneg fun a ha => h.weight_nonneg a (List.mem_of_mem_filter ha)
    show ((active.filter (reached weight cap remaining (total weight active))).map weight).sum
      ≤ (active.map weight).sum
    omega
  have hcaps : capsOf cap (full weight cap remaining active) * total weight active
      ≤ remaining * total weight (full weight cap remaining active) := by
    have hleft : capsOf cap (full weight cap remaining active) * total weight active
        = ((full weight cap remaining active).map fun a =>
          (cap a).getD 0 * total weight active).sum := (List.sum_map_mul_right ..).symm
    have hright : remaining * total weight (full weight cap remaining active)
        = ((full weight cap remaining active).map fun a => remaining * weight a).sum :=
      (List.sum_map_mul_left ..).symm
    rw [hleft, hright]
    refine List.sum_le_sum fun a ha => ?_
    obtain ⟨-, c, hc, hle⟩ := mem_full.mp ha
    rw [hc]
    exact hle
  have hmul : remaining * total weight (full weight cap remaining active)
      ≤ remaining * total weight active := mul_le_mul_of_nonneg_left hle hr
  exact le_of_mul_le_mul_right (hcaps.trans hmul) ht

/-- some cap is reached where all are there and fit into what remains -/
theorem full_ne_nil (hcaps : ∀ a ∈ active, (cap a).isSome) (hfit : capsOf cap active ≤ remaining) :
    full weight cap remaining active ≠ [] := by
  intro hnone
  have ht := total_pos h h0
  have hne : active ≠ [] := fun he => h0 (by rw [he]; rfl)
  have hlt : ∀ a ∈ active, remaining * weight a < (cap a).getD 0 * total weight active := by
    intro a ha
    obtain ⟨c, hc⟩ := Option.isSome_iff_exists.mp (hcaps a ha)
    by_contra hge
    rw [hc] at hge
    have hmem := mem_full.mpr ⟨ha, c, hc, not_lt.mp hge⟩
    rw [hnone] at hmem
    cases hmem
  have hsum : (active.map fun a => remaining * weight a).sum
      < (active.map fun a => (cap a).getD 0 * total weight active).sum :=
    List.sum_lt_sum_of_ne_nil hne _ _ hlt
  rw [List.sum_map_mul_left, List.sum_map_mul_right] at hsum
  have hle : capsOf cap active * total weight active ≤ remaining * total weight active :=
    mul_le_mul_of_nonneg_right hfit ht.le
  exact absurd hsum (not_lt.mpr hle)

end

/-! ## all rounds -/

/-- what the last round finds -/
structure Settled (weight : α → ℤ) (cap : α → Option ℤ) (amount : ℤ) (l : List α) (s : State α) :
    Prop where
  split : (s.committed ++ s.active).Perm l
  spent : s.remaining = amount - capsOf cap s.committed
  nonneg : 0 ≤ s.remaining
  capped : ∀ a ∈ s.committed, (cap a).isSome
  weightless : ∀ a ∈ s.committed, weight a = 0 → cap a = some 0
  exit : s.active = [] ∨ total weight s.active = 0 ∨ full weight cap s.remaining s.active = []

theorem full_weightless {remaining : ℤ} {active : List α} (h : Claimants weight cap active)
    (h0 : total weight active ≠ 0) {a : α} (ha : a ∈ full weight cap remaining active)
    (hw : weight a = 0) : cap a = some 0 := by
  obtain ⟨hmem, c, hc, hle⟩ := mem_full.mp ha
  rw [hw, mul_zero] at hle
  have hc0 := h.cap_nonneg a hmem c hc
  have hzero : c ≤ 0 := by
    by_contra hpos
    exact absurd hle (not_le.mpr (mul_pos (not_le.mp hpos) (total_pos h h0)))
  rw [hc, le_antisymm hzero hc0]

/-- one round keeps the split, and the rest is what is still to be settled -/
theorem run_settled {amount : ℤ} {l : List α} (hl : Claimants weight cap l) (remaining : ℤ)
    (active committed : List α) (hsplit : (committed ++ active).Perm l)
    (hspent : remaining = amount - capsOf cap committed) (hnonneg : 0 ≤ remaining)
    (hcapped : ∀ a ∈ committed, (cap a).isSome)
    (hweightless : ∀ a ∈ committed, weight a = 0 → cap a = some 0) :
    Settled weight cap amount l (run weight cap remaining active committed) := by
  induction hn : active.length using Nat.strong_induction_on generalizing remaining active committed
    with
  | _ n ih =>
    subst hn
    by_cases h : Due weight cap remaining active
    · rw [run_step h]
      have hactive : Claimants weight cap active := hl.sublist fun a ha =>
        hsplit.mem_iff.mp (List.mem_append_right _ ha)
      have hle := capsOf_full_le hactive h.2.1 hnonneg
      refine ih _ (free_length_lt h.2.2) _ _ _ ?_ ?_ (by omega) ?_ ?_ rfl
      · rw [List.append_assoc]
        exact (full_perm.append_left committed).trans hsplit
      · rw [capsOf_append]
        omega
      · intro a ha
        rcases List.mem_append.mp ha with ha | ha
        · exact hcapped a ha
        · obtain ⟨-, c, hc, -⟩ := mem_full.mp ha
          rw [hc]
          rfl
      · intro a ha
        rcases List.mem_append.mp ha with ha | ha
        · exact hweightless a ha
        · exact full_weightless hactive h.2.1 ha
    · rw [run_stop h]
      refine ⟨hsplit, hspent, hnonneg, hcapped, hweightless, ?_⟩
      by_contra hexit
      push Not at hexit
      exact h hexit

theorem run_spec {amount : ℤ} {l : List α} (hl : Claimants weight cap l) (ha : 0 ≤ amount) :
    Settled weight cap amount l (run weight cap amount l []) := by
  refine run_settled hl amount l [] (List.Perm.refl l) ?_ ha ?_ ?_
  · simp [capsOf]
  · exact fun a ha => absurd ha List.not_mem_nil
  · exact fun a ha => absurd ha List.not_mem_nil

/-- whoever is still active is in the order of the start -/
theorem run_active_sublist (remaining : ℤ) (active committed : List α) :
    (run weight cap remaining active committed).active.Sublist active := by
  induction hn : active.length using Nat.strong_induction_on generalizing remaining active committed
    with
  | _ n ih =>
    subst hn
    by_cases h : Due weight cap remaining active
    · rw [run_step h]
      exact (ih _ (free_length_lt h.2.2) _ _ _ rfl).trans List.filter_sublist
    · rw [run_stop h]

/-- everybody has a cap, of zero where there is no weight, and the caps fit into the amount -/
def AllCapped (weight : α → ℤ) (cap : α → Option ℤ) (amount : ℤ) (l : List α) : Prop :=
  (∀ a ∈ l, (cap a).isSome ∧ (weight a = 0 → cap a = some 0)) ∧ capsOf cap l ≤ amount

theorem run_emptied {remaining : ℤ} {active committed : List α} (h : Claimants weight cap active)
    (hcapped : AllCapped weight cap remaining active)
    (h0 : active = [] ∨ total weight active ≠ 0) :
    (run weight cap remaining active committed).active = [] := by
  induction hn : active.length using Nat.strong_induction_on generalizing remaining active committed
    with
  | _ n ih =>
    subst hn
    rcases h0 with rfl | h0
    · rw [run_stop fun h => h.1 rfl]
    · have hfull := full_ne_nil h h0 (fun a ha => (hcapped.1 a ha).1) hcapped.2
      have hne : active ≠ [] := fun he => h0 (by rw [he]; rfl)
      rw [run_step ⟨hne, h0, hfull⟩]
      have hmem : ∀ a ∈ free weight cap remaining active, a ∈ active := fun a ha =>
        List.mem_of_mem_filter ha
      refine ih _ (free_length_lt hfull) (h.sublist hmem) ⟨fun a ha => hcapped.1 a (hmem a ha), ?_⟩
        ?_ rfl
      · have hperm : (full weight cap remaining active ++ free weight cap remaining active).Perm
            active := full_perm
        have hsum : capsOf cap (_ ++ _) = capsOf cap active := capsOf_perm hperm
        rw [capsOf_append] at hsum
        have := hcapped.2
        omega
      · -- whoever has no weight has left with a cap of zero
        by_contra hzero
        push Not at hzero
        obtain ⟨a, ha⟩ := List.exists_mem_of_ne_nil _ hzero.1
        have hw := eq_zero_of_sum_eq_zero (fun a ha => h.weight_nonneg a (hmem a ha)) hzero.2 a ha
        have hin : a ∈ full weight cap remaining active := by
          refine mem_full.mpr ⟨hmem a ha, 0, (hcapped.1 a (hmem a ha)).2 hw, ?_⟩
          rw [hw, zero_mul, mul_zero]
        have hout := (List.mem_filter.mp ha).2
        have hreached := (List.mem_filter.mp hin).2
        rw [hreached] at hout
        cases hout

/-- **Everybody ends at its cap just where the caps fit into the amount.** -/
theorem run_emptied_iff {amount : ℤ} {l : List α} (hl : Claimants weight cap l) (ha : 0 ≤ amount)
    (h0 : total weight l ≠ 0) :
    (run weight cap amount l []).active = [] ↔ AllCapped weight cap amount l := by
  constructor
  · intro hempty
    have hs := run_spec hl ha
    have hperm := hs.split
    rw [hempty, List.append_nil] at hperm
    refine ⟨fun a hmem => ⟨hs.capped a (hperm.mem_iff.mpr hmem),
      hs.weightless a (hperm.mem_iff.mpr hmem)⟩, ?_⟩
    have hspent := hs.spent
    rw [capsOf_perm hperm] at hspent
    have := hs.nonneg
    omega
  · exact fun hcapped => run_emptied hl hcapped (Or.inr h0)

end

/-! ## reading claimants through a map -/

def State.map {α β : Type*} (f : β → α) (s : State β) : State α :=
  ⟨s.remaining, s.active.map f, s.committed.map f⟩

section
variable {α β : Type*} (weight : α → ℤ) (cap : α → Option ℤ) (f : β → α)

theorem total_map (l : List β) : total weight (l.map f) = total (weight ∘ f) l := by
  unfold total
  rw [List.map_map]

theorem capsOf_map (l : List β) : capsOf cap (l.map f) = capsOf (cap ∘ f) l := by
  unfold capsOf
  rw [List.map_map]
  rfl

theorem full_map (remaining : ℤ) (l : List β) :
    full weight cap remaining (l.map f) = (full (weight ∘ f) (cap ∘ f) remaining l).map f := by
  unfold full
  rw [List.filter_map, total_map]
  rfl

theorem free_map (remaining : ℤ) (l : List β) :
    free weight cap remaining (l.map f) = (free (weight ∘ f) (cap ∘ f) remaining l).map f := by
  unfold free
  rw [List.filter_map, total_map]
  rfl

theorem run_map (remaining : ℤ) (active committed : List β) :
    run weight cap remaining (active.map f) (committed.map f)
      = (run (weight ∘ f) (cap ∘ f) remaining active committed).map f := by
  induction hn : active.length using Nat.strong_induction_on generalizing remaining active committed
    with
  | _ n ih =>
    subst hn
    have hdue : Due weight cap remaining (active.map f)
        ↔ Due (weight ∘ f) (cap ∘ f) remaining active := by
      unfold Due
      rw [total_map, full_map]
      simp only [ne_eq, List.map_eq_nil_iff]
    by_cases h : Due (weight ∘ f) (cap ∘ f) remaining active
    · rw [run_step h, run_step (hdue.mpr h), full_map, free_map, capsOf_map, ← List.map_append]
      exact ih _ (free_length_lt h.2.2) _ _ _ rfl
    · rw [run_stop h, run_stop (mt hdue.mp h)]
      rfl

end

end ActiveSet
