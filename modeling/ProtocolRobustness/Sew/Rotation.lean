import ProtocolRobustness.Sew.Load

/-!
# Rotations that take effect

A rotation is taken for a repeat when the last entry of the rotation log names the resolver of the
dispute and the one asked for.  Challenges and escalations give the dispute to another resolver and
write no entry; once they give it back to the resolver it was rotated away from, the same rotation is
accepted and nothing is changed.

* `TakesEffect`     the dispute is in the hands of the new resolver, and of no custom resolver;
* `StaleRepeat`     the last rotation is asked for once more, after it was undone;
* `rotation_takes_effect_iff`    a rotation takes effect unless it is such a repeat;
* `rotations_take_effect_iff`    so do the rotations of a run.
-/

namespace PRF.Sew
open Table Fallible Runs

namespace World
variable (w : World)

/-- the resolver in whose hands an escrow is -/
def disputeResolver (workflowId : ℕ) : Option Address :=
  (w.getTransfer workflowId).bind Transfer.disputeResolver

/-- The last rotation of an escrow is asked for, and the escrow is where it was rotated from. -/
def StaleRepeat (workflowId : ℕ) (next : Address) : Prop :=
  w.disputeResolver workflowId ≠ some next ∧
    ∃ last, (w.disputes.rotations workflowId).getLast? = some last ∧
      last.previous = w.disputeResolver workflowId ∧ last.next = next

end World

/-- After the rotation the escrow is in the hands of the new resolver.  A custom resolver no longer
has authority over it, unless nothing had to change. -/
def TakesEffect (w w' : World) (workflowId : ℕ) (next : Address) : Prop :=
  w'.disputeResolver workflowId = some next ∧
    (w'.customResolver workflowId = none ∨ w.disputeResolver workflowId = some next ∧ w' = w)

section
variable {w w' : World} {workflowId : ℕ} {et : Transfer} {next : Address}

theorem disputeResolver_of_some (het : w.getTransfer workflowId = some et) :
    w.disputeResolver workflowId = et.disputeResolver := by
  rw [World.disputeResolver, het, Option.bind_some]

theorem escrows_assignResolver (w : World) (workflowId : ℕ) (previous : Option Address)
    (next : Address) : (w.assignResolver workflowId previous next).escrows
      = (w.updateTransfer workflowId fun et => { et with disputeResolver := some next }).escrows := by
  unfold World.assignResolver World.incrementResolverCapacity World.decrementResolverCapacity
  cases previous <;> rfl

theorem disputeResolver_assignResolver (het : w.getTransfer workflowId = some et)
    (previous : Option Address) (next : Address) :
    (w.assignResolver workflowId previous next).disputeResolver workflowId = some next := by
  have hfound : (w.assignResolver workflowId previous next).getTransfer workflowId
      = some { et with disputeResolver := some next } := by
    rw [World.getTransfer, escrows_assignResolver]
    show (w.updateTransfer workflowId _).getTransfer workflowId = _
    rw [getTransfer_updateTransfer]
    exact congrArg (Option.map _) het
  rw [World.disputeResolver, hfound, Option.bind_some]

theorem customResolver_assignResolver (w : World) (workflowId : ℕ) (previous : Option Address)
    (next : Address) : (w.assignResolver workflowId previous next).customResolver workflowId
      = w.customResolver workflowId := by
  unfold World.customResolver World.getSettings
  rw [escrows_assignResolver]
  unfold World.updateTransfer
  split <;> rfl

theorem staleRepeat_iff (het : w.getTransfer workflowId = some et)
    (hnext : et.disputeResolver ≠ some next) :
    w.StaleRepeat workflowId next ↔ (w.disputes.rotations workflowId).getLast?.any (fun last =>
      last.previous = et.disputeResolver && last.next = next) = true := by
  unfold World.StaleRepeat
  rw [disputeResolver_of_some het, Option.any_eq_true]
  simp only [Bool.and_eq_true, decide_eq_true_eq]
  exact and_iff_right hnext

/-- **What an accepted rotation does**: nothing when the resolver stays or the rotation repeats the
last one, else it gives the escrow to the new resolver and drops the custom one. -/
theorem rotateDisputeResolver_ok
    (h : w.rotateDisputeResolver workflowId (some next) = .ok w') :
    (w.disputeResolver workflowId = some next ∧ w' = w) ∨
    (w.StaleRepeat workflowId next ∧ w' = w) ∨
    (w.disputeResolver workflowId ≠ some next ∧ ¬ w.StaleRepeat workflowId next ∧
      w'.disputeResolver workflowId = some next ∧ w'.customResolver workflowId = none) := by
  unfold World.rotateDisputeResolver at h
  split at h
  · cases h
  · next et het =>
    simp only [ne_eq, ite_not, require_eq_ok, refuse_eq_ok] at h
    obtain ⟨_, _, h⟩ := h
    split at h
    · cases h
    · next next' hnext' =>
      obtain rfl : next = next' := Option.some.inj (Option.filter_eq_some_iff.mp hnext').1
      rw [disputeResolver_of_some het]
      by_cases hsame : et.disputeResolver = some next
      · rw [if_pos (Or.inl hsame)] at h
        exact Or.inl ⟨hsame, (Except.ok.inj h).symm⟩
      · rw [staleRepeat_iff het hsame]
        split at h
        · next hrepeat =>
          exact Or.inr (Or.inl ⟨hrepeat.resolve_left hsame, (Except.ok.inj h).symm⟩)
        · next hrepeat =>
          obtain rfl := Except.ok.inj h
          refine Or.inr (Or.inr ⟨hsame, fun hstale => hrepeat (Or.inr hstale), ?_, ?_⟩)
          · exact disputeResolver_assignResolver (by exact het) _ _
          · rw [customResolver_assignResolver]
            unfold World.customResolver World.getSettings
            simp

/-- **A rotation takes effect unless it repeats the last one** after that was undone. -/
theorem rotation_takes_effect_iff (h : w.rotateDisputeResolver workflowId (some next) = .ok w') :
    TakesEffect w w' workflowId next ↔ ¬ w.StaleRepeat workflowId next := by
  rcases rotateDisputeResolver_ok h with ⟨hsame, rfl⟩ | ⟨hstale, rfl⟩ | ⟨_, hfresh, heffect⟩
  · exact iff_of_true ⟨hsame, Or.inr ⟨hsame, rfl⟩⟩ fun hstale => hstale.1 hsame
  · exact iff_of_false (fun heffect => hstale.1 heffect.1) fun hfresh => hfresh hstale
  · exact iff_of_true ⟨heffect.1, Or.inl heffect.2⟩ hfresh

end

/-! ## runs -/

def RotationTakesEffect (env : Environment) (w : World) (op : Operation) : Prop :=
  ∀ workflowId next, op = .rotateDisputeResolver workflowId (some next) →
    TakesEffect w (after (step env) w op) workflowId next

/-- a rotation repeats one that was undone -/
def RotatesStale (w : World) (op : Operation) : Prop :=
  ∃ workflowId next, op = .rotateDisputeResolver workflowId (some next) ∧
    w.StaleRepeat workflowId next

/-- **The rotations of a run take effect when none of them repeats one that was undone.** -/
theorem rotations_take_effect_iff (env : Environment) (w : World) (ops : List Operation) :
    Along (step env) (RotationTakesEffect env) w ops ↔
      Along (step env) (fun w op => ¬ RotatesStale w op) w ops := by
  refine along_congr (I := fun _ => True) (fun _ _ _ _ _ => trivial) (fun w op _ hok => ?_) trivial
    ops
  obtain ⟨w', hw'⟩ := exists_ok hok
  unfold RotationTakesEffect RotatesStale
  rw [after_ok hw']
  constructor
  · rintro heffect ⟨workflowId, next, rfl, hstale⟩
    exact (rotation_takes_effect_iff hw').mp (heffect workflowId next rfl) hstale
  · rintro hfresh workflowId next rfl
    exact (rotation_takes_effect_iff hw').mpr fun hstale =>
      hfresh ⟨workflowId, next, rfl, hstale⟩

/-- the dispute is rotated away from the first judge, and a challenge gives it back -/
def givenBack : List Operation :=
  [.createEscrow "s" (some "USDC") (some "r") 100 { customResolver := some "first" }
      { appealWindowDuration := some 50 },
    .raiseDispute 0 "s", .rotateDisputeResolver 0 (some "second"),
    .executeResolution 0 "second" true "ruling" none,
    .challengeResolution 0 "r" (some fun _ _ _ _ => .ok (some "first"))]

/-- The second rotation is accepted, and the dispute stays with the first judge. -/
theorem rotation_without_effect :
    (step bareEnvironment (run (step bareEnvironment) (emptyWorld {} 100) givenBack)
      (.rotateDisputeResolver 0 (some "second"))).map (fun w => w.disputeResolver 0)
      = .ok (some "first") ∧
    ¬ Along (step bareEnvironment) (RotationTakesEffect bareEnvironment) (emptyWorld {} 100)
      (givenBack ++ [.rotateDisputeResolver 0 (some "second")]) := by
  refine ⟨by decide +kernel, fun halong => ?_⟩
  have heffect := halong.last (by decide +kernel) 0 "second" rfl
  exact absurd heffect.1 (by decide +kernel)

end PRF.Sew
