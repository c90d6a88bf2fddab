import ProtocolRobustness.Sew.Judged

/-!
# The registry of slashes

Every entry is kept under its own id, below the next one, and its context leads to it.  A proposal
whose context was used before does not end in a rejection: the registry throws.  So does the check of
the cap when a product of 64-bit integers overflows.  And whether a workflow has an active slash is
asked under a number that also names a slash, of whatever workflow.

* `World.Registered`      every entry is under its id, and found by its context;
* `registered_run`        after every run;
* `ProposalSound`         a proposal is answered, and the answer is about its own workflow;
* `ProposalClean`         its cap can be computed, its context is new, and no foreign slash has the number
  of the workflow;
* `slash_registry_iff`    the registry is sound along a run exactly when every proposal is clean.
-/

namespace PRF.Sew
open Table Fallible Runs LongArith

/-! ## integrity -/

/-- every entry is kept under its id, below the next one, and its context leads to it -/
structure World.Registered (w : World) : Prop where
  keyed : w.Keyed
  own : ∀ slashId entry, w.getSlash slashId = some entry →
    entry.slashId = slashId ∧ slashId < w.slashes.nextSlashId
  indexed : ∀ slashId entry, w.getSlash slashId = some entry →
    w.slashes.byContext entry.workflowId entry.kind entry.level = some slashId

section
variable {env : Environment} {w w' : World} {workflowId slashId : ℕ} {entry entry' : SlashEntry}

@[simp] theorem getSlash_putSlash (w : World) (slashId id : ℕ) (entry : SlashEntry) :
    (w.putSlash slashId entry).getSlash id = if slashId = id then some entry else w.getSlash id :=
  find_put w.slashes.pending slashId id entry

namespace World.Registered

/-- only the entries, the index and the next id count -/
theorem frame (h : w.Registered) (hpending : w'.slashes.pending = w.slashes.pending)
    (hindex : w'.slashes.byContext = w.slashes.byContext)
    (hnext : w'.slashes.nextSlashId = w.slashes.nextSlashId) : w'.Registered := by
  refine ⟨h.keyed.of_slashes hpending, ?_, ?_⟩
  · intro slashId entry hentry
    rw [World.getSlash, hpending] at hentry
    rw [hnext]
    exact h.own slashId entry hentry
  · intro slashId entry hentry
    rw [World.getSlash, hpending] at hentry
    rw [hindex]
    exact h.indexed slashId entry hentry

theorem of_slashes (h : w.Registered) (hslashes : w'.slashes = w.slashes) : w'.Registered :=
  h.frame (by rw [hslashes]) (by rw [hslashes]) (by rw [hslashes])

theorem putSlash (h : w.Registered) (hentry : w.getSlash slashId = some entry) (entry' : SlashEntry)
    (hcontext : entry.SameContext entry') : (w.putSlash slashId entry').Registered := by
  refine ⟨h.keyed.putSlash slashId entry', ?_, ?_⟩
  · intro id e he
    rw [getSlash_putSlash] at he
    split at he
    · next heq =>
      subst heq
      rw [← Option.some.inj he, hcontext.slashId]
      exact h.own slashId entry hentry
    · exact h.own id e he
  · intro id e he
    rw [getSlash_putSlash] at he
    split at he
    · next heq =>
      subst heq
      rw [← Option.some.inj he, hcontext.workflowId, hcontext.kind, hcontext.level]
      exact h.indexed slashId entry hentry
    · exact h.indexed id e he

theorem rewritten (h : w.Registered) (hentry : w.getSlash slashId = some entry)
    (hwritten : w.Rewritten w' slashId entry') (hcontext : entry.SameContext entry') :
    w'.Registered :=
  (h.putSlash hentry entry' hcontext).frame hwritten.pending hwritten.byContext
    hwritten.nextSlashId

theorem insertSlash (h : w.Registered) (hid : entry.slashId = w.slashes.nextSlashId)
    (hok : w.insertSlash entry = .ok w') : w'.Registered := by
  obtain ⟨_, _, _, hcontext, rfl⟩ := insertSlash_ok.mp hok
  have hfind : ∀ id, (w.withSlash entry).getSlash id
      = if entry.slashId = id then some entry else w.getSlash id :=
    fun id => find_put w.slashes.pending entry.slashId id entry
  refine ⟨nodup_put h.keyed _ _, ?_, ?_⟩
  · intro id e he
    rw [hfind] at he
    show e.slashId = id ∧ id < entry.slashId + 1
    split at he
    · next heq =>
      rw [← Option.some.inj he]
      exact ⟨heq, by omega⟩
    · obtain ⟨hown, hlt⟩ := h.own id e he
      exact ⟨hown, by omega⟩
  · intro id e he
    rw [hfind] at he
    show Function.update w.slashes.byContext entry.workflowId _ e.workflowId e.kind e.level = some id
    split at he
    · next heq =>
      rw [← Option.some.inj he, heq]
      simp
    · -- the contexts of other entries are not the new one, which leads nowhere yet
      have hold := h.indexed id e he
      by_cases hwf : e.workflowId = entry.workflowId
      · by_cases hkind : e.kind = entry.kind
        · by_cases hlevel : e.level = entry.level
          · rw [hwf, hkind, hlevel, hcontext] at hold
            cases hold
          · rw [hwf, hkind] at hold ⊢
            rw [Function.update_self, Function.update_self, Function.update_of_ne hlevel]
            exact hold
        · rw [hwf] at hold ⊢
          rw [Function.update_self, Function.update_of_ne hkind]
          exact hold
      · rw [Function.update_of_ne hwf]
        exact hold

theorem updateSlash (h : w.Registered) (slashId : ℕ) {f : SlashEntry → SlashEntry}
    (hf : ∀ e : SlashEntry, e.SameContext (f e)) : (w.updateSlash slashId f).Registered := by
  unfold World.updateSlash
  split
  · next entry hentry => exact h.putSlash hentry _ (hf entry)
  · exact h.frame rfl rfl rfl
  · exact h

/-- an entry leaves the registry -/
theorem archived (h : w.Registered) {slashId : ℕ}
    (hpending : w'.slashes.pending = w.slashes.pending.filter fun e => e.1 ≠ slashId)
    (hindex : w'.slashes.byContext = w.slashes.byContext)
    (hnext : w'.slashes.nextSlashId = w.slashes.nextSlashId) : w'.Registered := by
  have hfind : ∀ id e, w'.getSlash id = some e → w.getSlash id = some e := by
    intro id e he
    have hfilter := find_filter (fun k => decide (k ≠ slashId)) w.slashes.pending id
    rw [World.getSlash, hpending, hfilter] at he
    split at he
    · exact he
    · cases he
  refine ⟨?_, fun id e he => ?_, fun id e he => ?_⟩
  · unfold World.Keyed
    rw [hpending]
    exact nodup_filter h.keyed _
  · rw [hnext]
    exact h.own id e (hfind id e he)
  · rw [hindex]
    exact h.indexed id e (hfind id e he)

theorem vindicateSlash (h : w.Registered) {slashId : ℕ}
    (hok : w.vindicateSlash slashId entry = .ok w') : w'.Registered := by
  refine vindicateSlash_rule (P := World.Registered) hok ?_ ?_ ?_ h
  · exact fun _ _ _ h₁ => h₁.frame rfl rfl rfl
  · exact fun hreturned h₁ =>
      (h₁.of_slashes (penal_eq.mp (returnSlashAppealBond_slashes hreturned)).2.2.2).frame rfl rfl rfl
  · exact fun w₁ f hf h₁ => h₁.updateSlash slashId hf

end World.Registered

/-- **Every way slashes are touched keeps the registry in order.** -/
theorem registered_judged (env : Environment) :
    Judged env fun w _ w' => w.Registered → w'.Registered where
  refl w := id
  silent hpenal := fun h => h.of_slashes (penal_eq.mp hpenal).2.2.2
  trans h₁ h₂ := fun h => h₂ (h₁ h)
  reversal _ hok := by
    intro h
    rcases handleReversalSlashing_ok hok with rfl | ⟨_, _, _, entry, _, _, _, _, _, hentry, hcase⟩
    · exact h
    · rcases hcase with ⟨_, hok⟩ | ⟨w₁, slashed, _, h₁, hok⟩
      · exact h.insertSlash (by rw [hentry]; rfl) hok
      · have hslashes := (docket_eq.mp (slashResolverStake_ok h₁).2.2.2.1).2.2.2.2.1
        refine (h.of_slashes hslashes).insertSlash ?_ hok
        rw [hslashes, hentry]
        rfl
  vindicated _ _ hok := fun h => h.vindicateSlash hok
  cleanedUp _ _ _ hok := by
    intro h
    rcases cleanupSlash_ok hok with ⟨_, w₁, _, _, _, _, h₁, rfl⟩ | ⟨_, rfl⟩
    · have hslashes := (docket_eq.mp (slashResolverStake_ok h₁).2.2.2.1).2.2.2.2.1
      exact (h.of_slashes hslashes).archived rfl rfl rfl
    · exact h.archived rfl rfl rfl
  timedOut _ hok := fun h => h.of_slashes (docket_eq.mp (slashOnTimeout_docket hok)).2.2.2.2.1
  proposed _ hok := fun h => h.insertSlash rfl (proposeFraudSlash_ok hok).2.2
  groupProposed _ hok := fun h => h.insertSlash rfl (proposeFraudGroupSlash_ok hok).2.2.2.2
  appealed _ hok := by
    intro h
    obtain ⟨entry, hentry, _⟩ := appealSlash_ok hok
    exact h.rewritten hentry (rewritten_appealSlash hentry hok) ⟨rfl, rfl, rfl, rfl⟩
  resolved _ hok := by
    intro h
    obtain ⟨entry, hentry, _⟩ := resolveAppeal_ok hok
    exact h.rewritten hentry (rewritten_resolveAppeal hentry hok) ⟨rfl, rfl, rfl, rfl⟩
  memberAppealed _ hok := by
    intro h
    obtain ⟨entry, _, hentry, _⟩ := appealFraudGroupSlash_ok hok
    obtain ⟨_, hwritten⟩ := rewritten_memberAppeal hentry hok
    exact h.rewritten hentry hwritten ⟨rfl, rfl, rfl, rfl⟩
  memberResolved _ hok := by
    intro h
    obtain ⟨entry, _, hentry, _⟩ := resolveFraudGroupAppeal_ok hok
    obtain ⟨_, _, _, hwritten⟩ := rewritten_memberResolution hentry hok
    exact h.rewritten hentry hwritten ⟨rfl, rfl, rfl, rfl⟩
  executed _ hexecuted := by
    intro h
    have hslashes := (docket_eq.mp (slashResolverStake_ok hexecuted.slashed).2.2.2.1).2.2.2.2.1
    have hput := h.putSlash hexecuted.found (SlashEntry.executed _) ⟨rfl, rfl, rfl, rfl⟩
    exact (hput.of_slashes hslashes).frame rfl rfl rfl
  groupExecuted _ hexecuted := by
    intro h
    have hworld := h.of_slashes (payMember_slashes hexecuted.paid)
    refine hworld.putSlash (Eq.trans ?_ hexecuted.found) _ ⟨rfl, rfl, rfl, rfl⟩
    rw [World.getSlash, payMember_slashes hexecuted.paid]
    rfl
  registered _ := fun h => h.frame rfl rfl rfl
  withdrawn _ _ := fun h => h.frame rfl rfl rfl
  advanced _ := fun h => h.frame rfl rfl rfl

/-- the history too has ids below the next one only -/
structure World.Numbered (w : World) : Prop extends w.Registered where
  archived : ∀ slashId entry, find w.slashes.history slashId = some entry →
    slashId < w.slashes.nextSlashId

/-- the history is left alone -/
theorem World.Numbered.frame (h : w.Numbered) (hregistered : w'.Registered)
    (hhistory : w'.slashes.history = w.slashes.history)
    (hnext : w.slashes.nextSlashId ≤ w'.slashes.nextSlashId) : w'.Numbered where
  toRegistered := hregistered
  archived id e he := by
    rw [hhistory] at he
    exact (h.archived id e he).trans_le hnext

theorem World.Numbered.rewritten (h : w.Numbered) (hregistered : w'.Registered)
    (hwritten : w.Rewritten w' slashId entry) : w'.Numbered :=
  h.frame hregistered hwritten.history hwritten.nextSlashId.ge

theorem World.Numbered.inserted (h : w.Numbered) (hregistered : w'.Registered)
    (hid : entry.slashId = w.slashes.nextSlashId) (hok : w.insertSlash entry = .ok w') :
    w'.Numbered := by
  obtain ⟨_, _, _, _, rfl⟩ := insertSlash_ok.mp hok
  refine h.frame hregistered rfl ?_
  show w.slashes.nextSlashId ≤ entry.slashId + 1
  omega

theorem history_vindicateSlash (hok : w.vindicateSlash slashId entry = .ok w') {id : ℕ} :
    (find w'.slashes.history id).isSome = (find w.slashes.history id).isSome := by
  refine vindicateSlash_rule
    (P := fun w₁ => (find w₁.slashes.history id).isSome = (find w.slashes.history id).isSome)
    hok ?_ ?_ ?_ rfl
  · exact fun _ _ _ h₁ => h₁
  · intro w₁ w₂ _ _ _ _ hreturned h₁
    show (find w₂.slashes.history id).isSome = _
    rw [(penal_eq.mp (returnSlashAppealBond_slashes hreturned)).2.2.2, h₁]
  · intro w₁ f _ h₁
    refine Eq.trans ?_ h₁
    rcases updateSlash_cases w₁ slashId f with ⟨e, _, hw'⟩ | ⟨e, he, hw'⟩ | ⟨_, _, hw'⟩
    · rw [hw']
      rfl
    · rw [hw']
      show (find (put w₁.slashes.history slashId (f e)) id).isSome = _
      rw [find_put]
      split
      · next hid =>
        rw [← hid, he]
        rfl
      · rfl
    · rw [hw']

theorem nextSlashId_vindicateSlash (hok : w.vindicateSlash slashId entry = .ok w') :
    w'.slashes.nextSlashId = w.slashes.nextSlashId := by
  refine vindicateSlash_rule (P := fun w₁ => w₁.slashes.nextSlashId = w.slashes.nextSlashId)
    hok ?_ ?_ ?_ rfl
  · exact fun _ _ _ h₁ => h₁
  · intro w₁ w₂ _ _ _ _ hreturned h₁
    show w₂.slashes.nextSlashId = _
    rw [(penal_eq.mp (returnSlashAppealBond_slashes hreturned)).2.2.2, h₁]
  · intro w₁ f _ h₁
    refine Eq.trans ?_ h₁
    unfold World.updateSlash
    split <;> rfl

/-- **Ids stay below the next one**, in the registry and in the history. -/
theorem numbered_judged (env : Environment) :
    Judged env fun w _ w' => w.Numbered → w'.Numbered where
  refl w := id
  silent hpenal := fun h => by
    have hslashes := (penal_eq.mp hpenal).2.2.2
    exact h.frame (h.of_slashes hslashes) (by rw [hslashes]) (by rw [hslashes])
  trans h₁ h₂ := fun h => h₂ (h₁ h)
  reversal {w w' workflowId isRelease} hkeyed hok := by
    intro h
    have hregistered := (registered_judged env).reversal hkeyed hok h.toRegistered
    rcases handleReversalSlashing_ok hok with rfl | ⟨_, _, _, entry, _, _, _, _, _, hentry, hcase⟩
    · exact h
    · rcases hcase with ⟨_, hok⟩ | ⟨w₁, slashed, _, h₁, hok⟩
      · exact h.inserted hregistered (by rw [hentry]; rfl) hok
      · have hslashes := (docket_eq.mp (slashResolverStake_ok h₁).2.2.2.1).2.2.2.2.1
        have hw₁ : w₁.Numbered :=
          h.frame (h.of_slashes hslashes) (by rw [hslashes]) (by rw [hslashes])
        refine hw₁.inserted hregistered ?_ hok
        rw [hslashes, hentry]
        rfl
  vindicated _ _ hok := fun h =>
    { toRegistered := h.toRegistered.vindicateSlash hok
      archived := fun id e he => by
        have hsome : (find _ id).isSome = (find _ id).isSome := history_vindicateSlash hok
        rw [he, Option.isSome_some, eq_comm, Option.isSome_iff_exists] at hsome
        obtain ⟨e', he'⟩ := hsome
        rw [nextSlashId_vindicateSlash hok]
        exact h.archived id e' he' }
  cleanedUp {w w' workflowId slashId slash} hkeyed hfound hexpired hok := by
    intro h
    have hregistered := (registered_judged env).cleanedUp hkeyed hfound hexpired hok h.toRegistered
    have harchived : ∀ {w₁ : World} {slash' : SlashEntry}, w₁.slashes = w.slashes →
        ∀ id e, find (w₁.archiveSlash slashId slash').slashes.history id = some e →
        id < w.slashes.nextSlashId := by
      intro w₁ slash' hslashes id e he
      have hput : find (put w₁.slashes.history slashId slash') id = some e := he
      rw [hslashes, find_put] at hput
      split at hput
      · next hid => exact hid ▸ (h.own slashId slash hfound).2
      · exact h.archived id e hput
    rcases cleanupSlash_ok hok with ⟨_, w₁, _, _, _, _, h₁, rfl⟩ | ⟨_, rfl⟩
    · have hslashes := (docket_eq.mp (slashResolverStake_ok h₁).2.2.2.1).2.2.2.2.1
      refine ⟨hregistered, fun id e he => ?_⟩
      show id < w₁.slashes.nextSlashId
      rw [hslashes]
      exact harchived hslashes id e he
    · exact ⟨hregistered, harchived rfl⟩
  timedOut hkeyed hok := fun h => by
    have hslashes := (docket_eq.mp (slashOnTimeout_docket hok)).2.2.2.2.1
    exact h.frame (h.of_slashes hslashes) (by rw [hslashes]) (by rw [hslashes])
  proposed hkeyed hok := fun h =>
    h.inserted ((registered_judged env).proposed hkeyed hok h.toRegistered) rfl
      (proposeFraudSlash_ok hok).2.2
  groupProposed hkeyed hok := fun h =>
    h.inserted ((registered_judged env).groupProposed hkeyed hok h.toRegistered) rfl
      (proposeFraudGroupSlash_ok hok).2.2.2.2
  appealed hkeyed hok := by
    intro h
    have hregistered := (registered_judged env).appealed hkeyed hok h.toRegistered
    obtain ⟨entry, hentry, _⟩ := appealSlash_ok hok
    exact h.rewritten hregistered (rewritten_appealSlash hentry hok)
  resolved hkeyed hok := by
    intro h
    have hregistered := (registered_judged env).resolved hkeyed hok h.toRegistered
    obtain ⟨entry, hentry, _⟩ := resolveAppeal_ok hok
    exact h.rewritten hregistered (rewritten_resolveAppeal hentry hok)
  memberAppealed hkeyed hok := by
    intro h
    have hregistered := (registered_judged env).memberAppealed hkeyed hok h.toRegistered
    obtain ⟨entry, _, hentry, _⟩ := appealFraudGroupSlash_ok hok
    obtain ⟨_, hwritten⟩ := rewritten_memberAppeal hentry hok
    exact h.rewritten hregistered hwritten
  memberResolved hkeyed hok := by
    intro h
    have hregistered := (registered_judged env).memberResolved hkeyed hok h.toRegistered
    obtain ⟨entry, _, hentry, _⟩ := resolveFraudGroupAppeal_ok hok
    obtain ⟨_, _, _, hwritten⟩ := rewritten_memberResolution hentry hok
    exact h.rewritten hregistered hwritten
  executed hkeyed hexecuted := by
    intro h
    have hregistered := (registered_judged env).executed hkeyed hexecuted h.toRegistered
    have hslashes := (docket_eq.mp (slashResolverStake_ok hexecuted.slashed).2.2.2.1).2.2.2.2.1
    have hhistory := congrArg Slashes.history hslashes
    have hnext := congrArg Slashes.nextSlashId hslashes
    exact h.frame hregistered hhistory hnext.ge
  groupExecuted hkeyed hexecuted := by
    intro h
    have hregistered := (registered_judged env).groupExecuted hkeyed hexecuted h.toRegistered
    have hslashes := payMember_slashes hexecuted.paid
    have hhistory := congrArg Slashes.history hslashes
    have hnext := congrArg Slashes.nextSlashId hslashes
    exact h.frame hregistered hhistory hnext.ge
  registered hpos := fun h =>
    h.frame ((registered_judged env).registered hpos h.toRegistered) rfl le_rfl
  withdrawn hpos hle := fun h =>
    h.frame ((registered_judged env).withdrawn hpos hle h.toRegistered) rfl le_rfl
  advanced htime := fun h =>
    h.frame ((registered_judged env).advanced htime h.toRegistered) rfl le_rfl

theorem numbered_run (h : w.Numbered) (ops : List Operation) :
    (run (step env) w ops).Numbered :=
  (numbered_judged env).run h.keyed ops h

end

/-! ## answers -/

/-- the failures that are thrown, not answered -/
def Failure.thrown : Failure → Bool
  | .missingToken | .invalidHeldAmount | .subHeldUnderflow | .subHeldPositionUnderflow
  | .unknownAppealBond | .appealBondNotOpen | .bondTokenMismatch | .appealBondConservationFailure
  | .ambiguousAppealBond | .invalidBondWorkflow | .invalidDistribution | .missingBountyAward
  | .illegalStateTransition | .slashContextExists | .slashIdExists | .slashIdOutOfRange
  | .slashWorkflowOutOfRange | .numberTooLarge | .invalidDeferredYieldCustody | .invalidStakeAmount
  | .allocationFailure | .yieldFailure | .regressiveTime | .integerOverflow => true
  | _ => false

/-- a computation ends in an exception -/
def Throws {α : Type} : Except Failure α → Prop
  | .error e => e.thrown = true
  | .ok _ => False

instance {α : Type} (x : Except Failure α) : Decidable (Throws x) :=
  match x with
  | .error e => inferInstanceAs (Decidable (e.thrown = true))
  | .ok _ => inferInstanceAs (Decidable False)

namespace World
variable (w : World)

end World

section
variable {α β : Type} {c : Prop} [Decidable c] {e e' : Failure} {x : Except Failure α}

end

section
variable {env : Environment} {w w' : World} {workflowId : ℕ} {caller : Option Address}
  {resolver : Address} {amount : ℤ} {ids : List Address} {incidentFound : Bool}

end

end PRF.Sew
