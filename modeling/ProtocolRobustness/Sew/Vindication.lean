import ProtocolRobustness.Sew.Judged

/-!
# Vindicated resolvers

A vindication credits what the record of the reversal slash says was slashed: the total of the slash
where it was made at once or by a clean-up, the amount of the slash where it was executed.  Neither
is what the stake lost when the senior of the resolver paid a part, and the latter is not when the
stake was too small.

* `takenFor`          what was taken of a stake for a slash, along a list of events;
* `Restores`          every credit gives back what was taken, and no slash is credited twice;
* `Event.alone`       the resolver pays a reversal slash alone, and in full;
* `Books`             the records of the slashes are what was taken;
* `vindication_exact`   then every run is restored what it was taken.
-/

namespace PRF.Sew
open Table Fallible Runs

/-! ## what is taken and given back -/

/-- the event is about a slash -/
def Event.about (id : ℕ) : Event → Bool
  | .debit _ (some slashId) .. | .credit slashId .. => slashId = id
  | _ => false

/-- the event credits a slash -/
def Event.credits (id : ℕ) : Event → Bool
  | .credit slashId .. => slashId = id
  | _ => false

/-- what an event takes of the stake of a resolver for a slash -/
def Event.taken (id : ℕ) (resolver : Address) : Event → ℤ
  | .debit _ (some slashId) r _ fromStake _ => if slashId = id ∧ r = resolver then fromStake else 0
  | _ => 0

def takenFor (id : ℕ) (resolver : Address) (events : List Event) : ℤ :=
  (events.map (Event.taken id resolver)).sum

/-- what an event does to the stake of a resolver -/
def Event.change (resolver : Address) : Event → ℤ
  | .debit _ _ r _ fromStake _ => if r = resolver then -fromStake else 0
  | .credit _ r amount | .registered r amount => if r = resolver then amount else 0
  | .withdrawn r amount => if r = resolver then -amount else 0

def stakeChange (resolver : Address) (events : List Event) : ℤ :=
  (events.map (Event.change resolver)).sum

/-- an event after others gives back what they took, and for the first time -/
def Event.restores (past : List Event) : Event → Prop
  | .credit slashId resolver amount =>
    amount = takenFor slashId resolver past ∧ past.all (fun e => !e.credits slashId) = true
  | _ => True

instance (past : List Event) : ∀ e : Event, Decidable (e.restores past)
  | .credit slashId resolver amount => inferInstanceAs (Decidable (amount = takenFor slashId resolver
    past ∧ past.all (fun e => !e.credits slashId) = true))
  | .debit .. | .registered .. | .withdrawn .. => inferInstanceAs (Decidable True)

/-- **Every credit gives back what was taken for its slash, and no slash is credited twice.** -/
def Restores (past : List Event) : List Event → Prop
  | [] => True
  | e :: events => e.restores past ∧ Restores (past ++ [e]) events

instance decidableRestores : ∀ past events : List Event, Decidable (Restores past events)
  | _, [] => inferInstanceAs (Decidable True)
  | past, e :: events =>
    have := decidableRestores (past ++ [e]) events
    inferInstanceAs (Decidable (e.restores past ∧ Restores (past ++ [e]) events))

/-- what a run does to slashed resolvers who are vindicated -/
structure VindicationExact (env : Environment) (w : World) (ops : List Operation) : Prop where
  restores : Restores [] (emitted (step env) (World.journal env) w ops)
  /-- at every point of the run -/
  stakes : ∀ n resolver, (run (step env) w (ops.take n)).stake resolver = w.stake resolver
    + stakeChange resolver (emitted (step env) (World.journal env) w (ops.take n))

/-! ## paying alone -/

/-- the coverage that the senior of a resolver has reserved -/
def World.coverage (w : World) (resolver : Address) : ℤ :=
  match w.resolvers.senior resolver with
  | some senior => w.resolvers.reservedCoverage senior
  | none => 0

/-- the slash of a reversed decision -/
def SlashEntry.ofReversal (entry : SlashEntry) : Bool :=
  entry.kind = .reversal || entry.kind = .forceReversal

/-- the resolver has no coverage and, when the slash is executed, a stake that the amount of the
slash can be taken of -/
def Event.alone : Event → Bool
  | .debit .reversal _ resolver before _ _ | .debit .expiry _ resolver before _ _ =>
    before.coverage resolver = 0
  | .debit .execution slashId resolver before _ _ =>
    (slashId.bind before.getSlash).all fun entry => !entry.ofReversal ||
      before.coverage resolver = 0 &&
        (match slashableAmount (before.stake resolver) entry.amount with
        | .ok total => total = entry.amount
        | .error _ => false)
  | _ => true

def PaidAlone (env : Environment) (w : World) (op : Operation) : Prop :=
  ∀ e ∈ w.journal env op, e.alone = true

instance (env : Environment) (w : World) (op : Operation) : Decidable (PaidAlone env w op) :=
  inferInstanceAs (Decidable (∀ e ∈ w.journal env op, e.alone = true))

/-! ## the books -/

/-- no event is about the slash -/
def Untouched (id : ℕ) (past : List Event) : Prop := ∀ e ∈ past, e.about id = false

/-- the record of a slash is what was taken for it -/
structure Accounted (past : List Event) (id : ℕ) (entry : SlashEntry) : Prop where
  active : entry.active = true → entry.actualAmount = none ∧ Untouched id past
  enforced : entry.enforced = true →
    (∀ resolver, entry.resolver = some resolver →
      takenFor id resolver past = entry.actualAmount.getD entry.amount) ∧
    ∀ e ∈ past, e.credits id = false

/-- the slashes of reversals, in the registry and in the history -/
structure Books (past : List Event) (w : World) : Prop where
  below : ∀ id, w.slashes.nextSlashId ≤ id →
    w.getSlash id = none ∧ find w.slashes.history id = none ∧ Untouched id past
  apart : ∀ id, w.getSlash id = none ∨ find w.slashes.history id = none
  pending : ∀ id entry, w.getSlash id = some entry → entry.ofReversal = true →
    Accounted past id entry
  history : ∀ id entry, find w.slashes.history id = some entry → entry.ofReversal = true →
    Accounted past id entry

section
variable {env : Environment} {w w' w₁ : World} {past j j' : List Event} {id slashId : ℕ}
  {resolver : Address} {entry : SlashEntry} {amount : ℤ}

/-! ## lists of events -/

theorem takenFor_append (id : ℕ) (resolver : Address) (j j' : List Event) :
    takenFor id resolver (j ++ j') = takenFor id resolver j + takenFor id resolver j' := by
  simp [takenFor]

theorem stakeChange_append (resolver : Address) (j j' : List Event) :
    stakeChange resolver (j ++ j') = stakeChange resolver j + stakeChange resolver j' := by
  simp [stakeChange]

theorem Untouched.append (h : Untouched id j) (h' : Untouched id j') : Untouched id (j ++ j') := by
  intro e he
  rcases List.mem_append.mp he with he | he
  · exact h e he
  · exact h' e he

theorem Untouched.takenFor (h : Untouched id j) (resolver : Address) : takenFor id resolver j = 0 := by
  induction j with
  | nil => rfl
  | cons e j ih =>
    obtain ⟨he, hj⟩ := List.forall_mem_cons.mp h
    have hzero : e.taken id resolver = 0 := by
      unfold Event.taken
      split
      · next slashId _ _ _ _ =>
        have hne : slashId ≠ id := by simpa [Event.about] using he
        exact if_neg fun hboth => hne hboth.1
      · rfl
    show e.taken id resolver + PRF.Sew.takenFor id resolver j = 0
    rw [hzero, ih hj, add_zero]

theorem Event.credits_of_about {e : Event} (h : e.about id = false) : e.credits id = false := by
  cases e with
  | credit slashId r amount => exact h
  | _ => rfl

theorem Untouched.uncredited (h : Untouched id j) : ∀ e ∈ j, e.credits id = false :=
  fun e he => Event.credits_of_about (h e he)

theorem Restores.append (h : Restores past j) (h' : Restores (past ++ j) j') :
    Restores past (j ++ j') := by
  induction j generalizing past with
  | nil =>
    rw [List.append_nil] at h'
    exact h'
  | cons e j ih =>
    refine ⟨h.1, ih h.2 ?_⟩
    rw [List.append_assoc]
    exact h'

theorem Restores.of_no_credit (h : ∀ e ∈ j, ∀ id, e.credits id = false) : Restores past j := by
  induction j generalizing past with
  | nil => trivial
  | cons e j ih =>
    obtain ⟨he, hj⟩ := List.forall_mem_cons.mp h
    refine ⟨?_, ih hj⟩
    cases e with
    | credit slashId r amount =>
      have hself := he slashId
      simp [Event.credits] at hself
    | _ => trivial

theorem mem_debits {cause : Cause} {slash : Option ℕ} {against : Option Address} {e : Event}
    (he : e ∈ w.debits w' cause slash against) :
    ∃ resolver, against = some resolver ∧ e = w.debit w' cause slash resolver := by
  cases against with
  | none => cases he
  | some resolver =>
    unfold World.debits at he
    dsimp only at he
    split at he
    · cases he
    · exact ⟨resolver, rfl, List.mem_singleton.mp he⟩

theorem debits_no_credit {cause : Cause} {slash : Option ℕ} {against : Option Address} :
    ∀ e ∈ w.debits w' cause slash against, ∀ id, e.credits id = false := by
  intro e he id
  obtain ⟨resolver, _, rfl⟩ := mem_debits he
  rfl

theorem debits_about {cause : Cause} {against : Option Address} (hid : id ≠ slashId) :
    Untouched id (w.debits w' cause (some slashId) against) := by
  intro e he
  obtain ⟨resolver, _, rfl⟩ := mem_debits he
  exact decide_eq_false (Ne.symm hid)

theorem takenFor_debits (w w' : World) (cause : Cause) (id : ℕ) (resolver : Address) :
    takenFor id resolver (w.debits w' cause (some id) (some resolver))
      = w.stake resolver - w'.stake resolver := by
  unfold World.debits
  dsimp only
  split
  · next hsame =>
    rw [hsame.1, sub_self]
    rfl
  · simp [takenFor, Event.taken, World.debit]

/-! ## books over a step -/

theorem Accounted.append (h : Accounted past id entry) (hj : Untouched id j) :
    Accounted (past ++ j) id entry where
  active hactive := ⟨(h.active hactive).1, (h.active hactive).2.append hj⟩
  enforced henforced := by
    obtain ⟨htaken, hcredits⟩ := h.enforced henforced
    refine ⟨fun resolver hresolver => ?_, fun e he => ?_⟩
    · rw [takenFor_append, hj.takenFor, add_zero, htaken resolver hresolver]
    · rcases List.mem_append.mp he with he | he
      · exact hcredits e he
      · exact hj.uncredited e he

theorem Accounted.of_settled (hactive : entry.active = false) (henforced : entry.enforced = false) :
    Accounted past id entry where
  active h := by
    rw [hactive] at h
    cases h
  enforced h := by
    rw [henforced] at h
    cases h

/-- the entry of one slash changes, and the events are about it -/
theorem Books.change (h : Books past w) (slashId : ℕ)
    (hget : ∀ id, id ≠ slashId → w'.getSlash id = w.getSlash id)
    (hhistory : ∀ id, id ≠ slashId → find w'.slashes.history id = find w.slashes.history id)
    (hnext : w.slashes.nextSlashId ≤ w'.slashes.nextSlashId)
    (hbelow : slashId < w'.slashes.nextSlashId)
    (hj : ∀ id, id ≠ slashId → Untouched id j)
    (hapart : w'.getSlash slashId = none ∨ find w'.slashes.history slashId = none)
    (hpending' : ∀ entry, w'.getSlash slashId = some entry → entry.ofReversal = true →
      Accounted (past ++ j) slashId entry)
    (hhistory' : ∀ entry, find w'.slashes.history slashId = some entry → entry.ofReversal = true →
      Accounted (past ++ j) slashId entry) : Books (past ++ j) w' where
  below id hid := by
    have hne : id ≠ slashId := (hbelow.trans_le hid).ne'
    obtain ⟨hnone, hold, htouched⟩ := h.below id (hnext.trans hid)
    rw [hget id hne, hhistory id hne]
    exact ⟨hnone, hold, htouched.append (hj id hne)⟩
  apart id := by
    by_cases hid : id = slashId
    · rw [hid]
      exact hapart
    · rw [hget id hid, hhistory id hid]
      exact h.apart id
  pending id entry hentry hreversal := by
    by_cases hid : id = slashId
    · rw [hid] at hentry ⊢
      exact hpending' entry hentry hreversal
    · rw [hget id hid] at hentry
      exact (h.pending id entry hentry hreversal).append (hj id hid)
  history id entry hentry hreversal := by
    by_cases hid : id = slashId
    · rw [hid] at hentry ⊢
      exact hhistory' entry hentry hreversal
    · rw [hhistory id hid] at hentry
      exact (h.history id entry hentry hreversal).append (hj id hid)

theorem Books.of_slashes (h : Books past w) (hslashes : w'.slashes = w.slashes)
    (hj : ∀ id, Untouched id j) : Books (past ++ j) w' := by
  have hget : ∀ id, w'.getSlash id = w.getSlash id := by
    intro id
    unfold World.getSlash
    rw [hslashes]
  refine ⟨fun id hid => ?_, fun id => ?_, fun id entry hentry hreversal => ?_,
    fun id entry hentry hreversal => ?_⟩
  · rw [hslashes] at hid ⊢
    rw [hget]
    obtain ⟨hnone, hold, htouched⟩ := h.below id hid
    exact ⟨hnone, hold, htouched.append (hj id)⟩
  · rw [hslashes, hget]
    exact h.apart id
  · rw [hget] at hentry
    exact (h.pending id entry hentry hreversal).append (hj id)
  · rw [hslashes] at hentry
    exact (h.history id entry hentry hreversal).append (hj id)

/-- a slash of the registry is below the next id, and not in the history -/
theorem Books.found (h : Books past w) (hfound : w.getSlash slashId = some entry) :
    slashId < w.slashes.nextSlashId ∧ find w.slashes.history slashId = none := by
  constructor
  · by_contra hge
    rw [(h.below slashId (not_lt.mp hge)).1] at hfound
    cases hfound
  · rcases h.apart slashId with hnone | hnone
    · rw [hnone] at hfound
      cases hfound
    · exact hnone

theorem Books.found_history (h : Books past w) (hfound : find w.slashes.history slashId = some entry) :
    slashId < w.slashes.nextSlashId ∧ w.getSlash slashId = none := by
  constructor
  · by_contra hge
    rw [(h.below slashId (not_lt.mp hge)).2.1] at hfound
    cases hfound
  · rcases h.apart slashId with hnone | hnone
    · exact hnone
    · rw [hnone] at hfound
      cases hfound

/-- an entry of the registry is written -/
theorem Books.write (entry' : SlashEntry) (h : Books past w)
    (hfound : w.getSlash slashId = some entry)
    (hpending : w'.slashes.pending = put w.slashes.pending slashId entry')
    (hhistory : w'.slashes.history = w.slashes.history)
    (hnext : w'.slashes.nextSlashId = w.slashes.nextSlashId)
    (hj : ∀ id, id ≠ slashId → Untouched id j)
    (hnew : entry'.ofReversal = true → Accounted (past ++ j) slashId entry') :
    Books (past ++ j) w' := by
  obtain ⟨hbelow, hold⟩ := h.found hfound
  have hget := getSlash_put hpending
  refine h.change slashId (fun id hid => ?_) (fun id _ => ?_) hnext.ge (hnext ▸ hbelow) hj
    (Or.inr ?_) (fun e he hreversal => ?_) (fun e he => ?_)
  · rw [hget, if_neg (Ne.symm hid)]
  · rw [hhistory]
  · rw [hhistory]
    exact hold
  · rw [hget, if_pos rfl] at he
    obtain rfl := Option.some.inj he
    exact hnew hreversal
  · rw [hhistory, hold] at he
    cases he

theorem Books.write_same (entry' : SlashEntry) (h : Books past w)
    (hfound : w.getSlash slashId = some entry)
    (hpending : w'.slashes.pending = put w.slashes.pending slashId entry')
    (hhistory : w'.slashes.history = w.slashes.history)
    (hnext : w'.slashes.nextSlashId = w.slashes.nextSlashId)
    (hnew : entry'.ofReversal = true → entry.ofReversal = true ∧ entry.active = true ∧
      entry'.enforced = false ∧ entry'.actualAmount = entry.actualAmount) :
    Books (past ++ []) w' := by
  refine h.write entry' hfound hpending hhistory hnext (fun id _ e he => nomatch he) fun hreversal => ?_
  obtain ⟨hold, hactive, hunenforced, hamount⟩ := hnew hreversal
  obtain ⟨hnone, htouched⟩ := (h.pending slashId entry hfound hold).active hactive
  rw [List.append_nil]
  refine ⟨fun _ => ⟨hamount.trans hnone, htouched⟩, fun henforced => ?_⟩
  rw [hunenforced] at henforced
  cases henforced

/-- an entry enters the registry under the next id -/
theorem Books.insert (h : Books past w) (hok : w₁.insertSlash entry = .ok w')
    (hslashes : w₁.slashes = w.slashes) (hid : entry.slashId = w.slashes.nextSlashId)
    (hj : ∀ id, id ≠ entry.slashId → Untouched id j)
    (hnew : entry.ofReversal = true → Accounted (past ++ j) entry.slashId entry) :
    Books (past ++ j) w' := by
  obtain ⟨_, _, _, _, rfl⟩ := insertSlash_ok.mp hok
  have hget : ∀ id, (w₁.withSlash entry).getSlash id
      = if entry.slashId = id then some entry else w.getSlash id := by
    intro id
    show find (put w₁.slashes.pending entry.slashId entry) id = _
    rw [hslashes, find_put]
    rfl
  have hold : (w₁.withSlash entry).slashes.history = w.slashes.history := by
    show w₁.slashes.history = _
    rw [hslashes]
  have hnone := (h.below entry.slashId hid.ge).2.1
  refine h.change entry.slashId (fun id hne => ?_) (fun id _ => ?_) ?_ ?_ hj (Or.inr ?_)
    (fun e he hreversal => ?_) (fun e he => ?_)
  · rw [hget, if_neg (Ne.symm hne)]
  · rw [hold]
  · show w.slashes.nextSlashId ≤ entry.slashId + 1
    omega
  · show entry.slashId < entry.slashId + 1
    omega
  · rw [hold]
    exact hnone
  · rw [hget, if_pos rfl] at he
    obtain rfl := Option.some.inj he
    exact hnew hreversal
  · rw [hold, hnone] at he
    cases he

/-! ## debits paid alone -/

variable {hash : Distribution → String} {workflowId : ℕ} {bountyBps : ℤ}
  {challenger : Option Address} {skip : Bool} {slashed : World.Slashed}

theorem slashResolverStake_nonneg
    (h : w.slashResolverStake hash resolver amount challenger bountyBps workflowId skip
      = .ok (w', slashed)) : 0 ≤ slashed.total := by
  unfold World.slashResolverStake at h
  simp only [bind_eq_ok, refuse_eq_ok, Except.ok.injEq, Prod.mk.injEq] at h
  obtain ⟨actual, _, _, w₁, h₁, w₃, _, _, rfl⟩ := h
  obtain ⟨dist, hbuild, _⟩ := World.distributeSlashedFunds_ok h₁
  exact (build_eq_some hbuild).1

theorem coverageShare_of_alone (halone : w.coverage resolver = 0) {actual : ℤ} (h : 0 ≤ actual) :
    w.coverageShare resolver actual = 0 := by
  unfold World.coverage at halone
  unfold World.coverageShare
  cases hsenior : w.resolvers.senior resolver with
  | none => rfl
  | some senior =>
    rw [hsenior] at halone
    dsimp only at halone ⊢
    rw [halone]
    exact min_eq_right h

theorem slashResolverStake_debit
    (h : w.slashResolverStake hash resolver amount challenger bountyBps workflowId skip
      = .ok (w₁, slashed)) (hw' : w'.resolvers = w₁.resolvers) :
    w.stake resolver - w'.stake resolver
      = slashed.total - w.coverageShare resolver slashed.total ∧
    w'.resolvers.slashTotal resolver - w.resolvers.slashTotal resolver = slashed.total := by
  unfold World.stake
  rw [hw', (slashResolverStake_ok h).2.2.1]
  unfold Resolvers.slash
  dsimp only
  rw [addAt_apply, if_pos rfl, addAt_apply, if_pos rfl]
  constructor <;> ring

theorem taken_of_alone {cause : Cause} (hcause : cause = .reversal ∨ cause = .expiry)
    (h : w.slashResolverStake hash resolver amount challenger bountyBps workflowId skip
      = .ok (w₁, slashed)) (hw' : w'.resolvers = w₁.resolvers)
    (halone : ∀ e ∈ w.debits w' cause (some id) (some resolver), e.alone = true) :
    takenFor id resolver (w.debits w' cause (some id) (some resolver)) = slashed.total := by
  obtain ⟨hstake, htotal⟩ := slashResolverStake_debit h hw'
  rw [takenFor_debits]
  by_cases hsame : w'.stake resolver = w.stake resolver ∧
      w'.resolvers.slashTotal resolver = w.resolvers.slashTotal resolver
  · omega
  · have hmem : w.debit w' cause (some id) resolver
        ∈ w.debits w' cause (some id) (some resolver) := by
      unfold World.debits
      dsimp only
      rw [if_neg hsame]
      exact List.mem_singleton_self _
    have hevent := halone _ hmem
    have hcoverage : w.coverage resolver = 0 := by
      rcases hcause with rfl | rfl
      · exact of_decide_eq_true hevent
      · exact of_decide_eq_true hevent
    rw [hstake, coverageShare_of_alone hcoverage (slashResolverStake_nonneg h), sub_zero]

/-! ## the ways slashes are touched -/

theorem debits_same {cause : Cause} {slash : Option ℕ} {against : Option Address}
    (h : w'.resolvers = w.resolvers) : w.debits w' cause slash against = [] := by
  unfold World.debits World.stake
  rw [h]
  cases against with
  | none => rfl
  | some resolver => exact if_pos ⟨rfl, rfl⟩

theorem credits_same {against : Option Address} (h : w'.resolvers = w.resolvers) :
    w.credits w' slashId against = [] := by
  unfold World.credits World.stake
  rw [h]
  cases against with
  | none => rfl
  | some resolver => exact if_pos rfl

/-- the entry a vindication settles is changed where it is -/
theorem Books.updateSlash {f : SlashEntry → SlashEntry} (h : Books past w)
    (hfound : w.getSlash slashId = some entry ∨ find w.slashes.history slashId = some entry)
    (hpending : w₁.slashes.pending = w.slashes.pending)
    (hhistory : w₁.slashes.history = w.slashes.history)
    (hnext : w₁.slashes.nextSlashId = w.slashes.nextSlashId)
    (hj : ∀ id, id ≠ slashId → Untouched id j)
    (hkind : ∀ e, (f e).ofReversal = e.ofReversal)
    (hf : ∀ e, Accounted past slashId e → Accounted (past ++ j) slashId (f e)) :
    Books (past ++ j) (w₁.updateSlash slashId f) := by
  have hget : ∀ id, w₁.getSlash id = w.getSlash id := by
    intro id
    unfold World.getSlash
    rw [hpending]
  rcases updateSlash_cases w₁ slashId f with ⟨e, he, hw'⟩ | ⟨e, he, hw'⟩ | ⟨hnone, hold, _⟩
  · rw [hw']
    rw [hget] at he
    refine h.write (f e) he ?_ hhistory hnext hj fun hreversal => hf e ?_
    · show put w₁.slashes.pending slashId (f e) = _
      rw [hpending]
    · exact h.pending slashId e he (hkind e ▸ hreversal)
  · rw [hw']
    rw [hhistory] at he
    obtain ⟨hbelow, hnone⟩ := h.found_history he
    have hfind : ∀ id, find (put w₁.slashes.history slashId (f e)) id
        = if slashId = id then some (f e) else find w.slashes.history id := by
      intro id
      rw [hhistory, find_put]
    refine h.change slashId (fun id _ => hget id) (fun id hid => ?_) hnext.ge (hnext ▸ hbelow) hj
      (Or.inl ((hget slashId).trans hnone)) (fun e' he' => ?_) (fun e' he' hreversal => ?_)
    · exact (hfind id).trans (if_neg (Ne.symm hid))
    · have hnone' : w₁.getSlash slashId = some e' := he'
      rw [hget, hnone] at hnone'
      cases hnone'
    · have hnew : find (put w₁.slashes.history slashId (f e)) slashId = some e' := he'
      rw [hfind, if_pos rfl] at hnew
      obtain rfl := Option.some.inj hnew
      exact hf e (h.history slashId e he (hkind e ▸ hreversal))
  · rw [hget] at hnone
    rw [hhistory] at hold
    rcases hfound with hfound | hfound
    · rw [hnone] at hfound
      cases hfound
    · rw [hold] at hfound
      cases hfound

theorem found_updateSlash (f : SlashEntry → SlashEntry)
    (hfound : w.getSlash slashId = some entry ∨ find w.slashes.history slashId = some entry) :
    ∃ e, (w.updateSlash slashId f).getSlash slashId = some e ∨
      find (w.updateSlash slashId f).slashes.history slashId = some e := by
  rcases updateSlash_cases w slashId f with ⟨e, he, hw'⟩ | ⟨e, he, hw'⟩ | ⟨_, _, hw'⟩
  · rw [hw']
    refine ⟨f e, Or.inl ?_⟩
    exact (find_put _ _ _ _).trans (if_pos rfl)
  · rw [hw']
    refine ⟨f e, Or.inr ?_⟩
    exact (find_put _ _ _ _).trans (if_pos rfl)
  · rw [hw']
    exact ⟨entry, hfound⟩

theorem resolvers_updateSlash (w : World) (slashId : ℕ) (f : SlashEntry → SlashEntry) :
    (w.updateSlash slashId f).resolvers = w.resolvers := by
  rcases updateSlash_cases w slashId f with ⟨e, _, hw'⟩ | ⟨e, _, hw'⟩ | ⟨_, _, hw'⟩
  · rw [hw']
    rfl
  · rw [hw']
  · rw [hw']

theorem Accounted.void (past : List Event) (id : ℕ) (e : SlashEntry) :
    Accounted past id { e with status := .reversed } :=
  Accounted.of_settled rfl rfl

theorem books_vindicated (h : Books past w) (hentry : w.vindicatedEntry slashId = some entry)
    (hok : w.vindicateSlash slashId entry = .ok w') :
    Books (past ++ w.credits w' slashId entry.resolver) w' ∧
      Restores past (w.credits w' slashId entry.resolver) := by
  obtain ⟨hreversible, hwhere⟩ := vindicatedEntry_cases hentry
  have hreversal : entry.ofReversal = true := by
    unfold SlashEntry.reversible at hreversible
    exact (Bool.and_eq_true_iff.mp hreversible).1
  have hnothing : w.credits w slashId entry.resolver = [] := credits_same rfl
  have hsame : Books (past ++ []) w ∧ Restores past [] := by
    rw [List.append_nil]
    exact ⟨h, trivial⟩
  unfold World.vindicateSlash at hok
  split at hok
  · rw [← Except.ok.inj hok, hnothing]
    exact hsame
  · next resolver hresolver =>
    dsimp only at hok
    split at hok
    · next henforced =>
      split at hok
      · next hpos =>
        have haccounted : Accounted past slashId entry := by
          rcases hwhere with hfound | hfound
          · exact h.pending slashId entry hfound hreversal
          · exact h.history slashId entry hfound hreversal
        obtain ⟨htaken, huncredited⟩ := haccounted.enforced henforced
        have hresolvers : w'.resolvers
            = (w.creditVindicated resolver (entry.actualAmount.getD entry.amount)).resolvers := by
          rw [← Except.ok.inj hok, resolvers_updateSlash]
        have hstake : w'.stake resolver
            = w.stake resolver + entry.actualAmount.getD entry.amount := by
          unfold World.stake
          rw [hresolvers]
          exact Function.update_self _ _ _
        have hcredits : w.credits w' slashId entry.resolver
            = [.credit slashId resolver (entry.actualAmount.getD entry.amount)] := by
          unfold World.credits
          rw [hresolver]
          dsimp only
          rw [if_neg (by omega), hstake, add_sub_cancel_left]
        rw [hcredits]
        constructor
        · rw [← Except.ok.inj hok]
          refine h.updateSlash hwhere rfl rfl rfl (fun id hid => ?_) (fun e => rfl) fun e _ =>
            Accounted.of_settled rfl rfl
          intro e he
          rw [List.mem_singleton.mp he]
          exact decide_eq_false (Ne.symm hid)
        · refine ⟨⟨(htaken resolver hresolver).symm, ?_⟩, trivial⟩
          rw [List.all_eq_true]
          intro e he
          rw [huncredited e he]
          rfl
      · rw [← Except.ok.inj hok, hnothing]
        exact hsame
    · split at hok
      · obtain ⟨w₁, h₁, hw'⟩ := map_eq_ok.mp hok
        have hvoided : Books (past ++ []) (w.updateSlash slashId fun e =>
            { e with status := .reversed }) :=
          h.updateSlash hwhere rfl rfl rfl (fun id _ e he => nomatch he) (fun e => rfl) fun e _ =>
            Accounted.void _ _ e
        obtain ⟨_, _, hreturned, hslashes⟩ := penal_eq.mp (returnSlashAppealBond_slashes h₁)
        have hresolvers : w₁.resolvers = (w.updateSlash slashId fun e =>
            { e with status := .reversed }).resolvers := by
          obtain ⟨_, _, _, _, _, hw₁⟩ := returnSlashAppealBond_ok h₁
          rw [← hw₁]
        have hnone : w.credits w' slashId entry.resolver = [] := by
          refine credits_same ?_
          rw [← hw', resolvers_updateSlash]
          exact hresolvers.trans (resolvers_updateSlash w slashId _)
        obtain ⟨e, he⟩ := found_updateSlash (fun e => { e with status := .reversed }) hwhere
        rw [hnone, ← hw', ← List.append_nil (past ++ [])]
        refine ⟨hvoided.updateSlash he ?_ ?_ ?_ (fun id _ e he => nomatch he) (fun e => rfl)
          fun e h' => ?_, trivial⟩
        · show w₁.slashes.pending = _
          rw [hslashes]
        · show w₁.slashes.history = _
          rw [hslashes]
        · show w₁.slashes.nextSlashId = _
          rw [hslashes]
        · rw [List.append_nil]
          exact ⟨h'.active, h'.enforced⟩
      · have hvoided : w.credits w' slashId entry.resolver = [] := by
          refine credits_same ?_
          rw [← Except.ok.inj hok, resolvers_updateSlash]
        rw [hvoided, ← Except.ok.inj hok]
        exact ⟨h.updateSlash hwhere rfl rfl rfl (fun id _ e he => nomatch he) (fun e => rfl)
          fun e _ => Accounted.void _ _ e, trivial⟩

theorem books_reversal {isRelease : Bool} (h : Books past w)
    (hok : w.handleReversalSlashing hash workflowId isRelease = .ok w')
    (halone : ∀ e ∈ w.reversalJournal hash workflowId isRelease, e.alone = true) :
    Books (past ++ w.reversalJournal hash workflowId isRelease) w' := by
  unfold World.reversalJournal at halone ⊢
  rw [hok, World.eventsOf_ok] at halone ⊢
  rcases handleReversalSlashing_ok hok with rfl | ⟨level, decision, amount, entry, hreversed, _, _, _,
    _, hentry, hcase⟩
  · rw [debits_same rfl, List.append_nil]
    exact h
  · rw [hreversed] at halone ⊢
    simp only [Option.map_some] at halone ⊢
    have hid : entry.slashId = w.slashes.nextSlashId := by
      rw [hentry]
      rfl
    have htouched := (h.below _ le_rfl).2.2
    rcases hcase with ⟨_, hinsert⟩ | ⟨w₁, slashed, _, h₁, hinsert⟩
    · have hresolvers : w'.resolvers = w.resolvers := by
        obtain ⟨_, _, _, _, rfl⟩ := insertSlash_ok.mp hinsert
        rfl
      rw [debits_same hresolvers]
      refine h.insert hinsert rfl hid (fun id _ e he => nomatch he) fun _ => ?_
      rw [List.append_nil, hid, hentry]
      exact ⟨fun _ => ⟨rfl, htouched⟩, nofun⟩
    · have hslashes : w₁.slashes = w.slashes :=
        (docket_eq.mp (slashResolverStake_ok h₁).2.2.2.1).2.2.2.2.1
      have hresolvers : w'.resolvers = w₁.resolvers := by
        obtain ⟨_, _, _, _, rfl⟩ := insertSlash_ok.mp hinsert
        rfl
      refine h.insert hinsert hslashes hid (fun id hne => ?_) fun _ => ?_
      · exact debits_about (hid ▸ hne)
      · show Accounted _ entry.slashId _
        rw [hid]
        refine ⟨nofun, fun _ => ⟨fun resolver hresolver => ?_, fun e he => ?_⟩⟩
        · have hagainst : decision.resolver = resolver := by
            rw [hentry] at hresolver
            exact Option.some.inj hresolver
          rw [takenFor_append, htouched.takenFor, zero_add, ← hagainst]
          exact taken_of_alone (Or.inl rfl) h₁ hresolvers halone
        · rcases List.mem_append.mp he with he | he
          · exact htouched.uncredited e he
          · exact debits_no_credit e he _

theorem books_cleanedUp {slash : SlashEntry} (h : Books past w)
    (hfound : w.getSlash slashId = some slash) (hexpired : w.expiredReversal workflowId slash = true)
    (hok : w.cleanupSlash hash workflowId slashId slash = .ok w')
    (halone : ∀ e ∈ w.debits w' .expiry (some slashId) slash.resolver, e.alone = true) :
    Books (past ++ w.debits w' .expiry (some slashId) slash.resolver) w' := by
  have hwhen : slash.status = .pending ∧ slash.kind = .reversal := by
    unfold World.expiredReversal at hexpired
    simp only [Bool.and_eq_true, decide_eq_true_eq] at hexpired
    exact ⟨hexpired.1.1.1, hexpired.1.2⟩
  have hreversal : slash.ofReversal = true := by
    unfold SlashEntry.ofReversal
    rw [hwhen.2]
    rfl
  have hactive : slash.active = true := by
    unfold SlashEntry.active
    rw [hwhen.1]
    rfl
  obtain ⟨_, htouched⟩ := (h.pending slashId slash hfound hreversal).active hactive
  obtain ⟨hbelow, hold⟩ := h.found hfound
  have harchived : ∀ {w₁ : World} {slash' : SlashEntry} {j : List Event}, w₁.slashes = w.slashes →
      (∀ id, id ≠ slashId → Untouched id j) → Accounted (past ++ j) slashId slash' →
      Books (past ++ j) (w₁.archiveSlash slashId slash') := by
    intro w₁ slash' j hslashes hj hnew
    have hget : ∀ id, (w₁.archiveSlash slashId slash').getSlash id
        = if id ≠ slashId then w.getSlash id else none := by
      intro id
      have hfilter := find_filter (fun k => decide (k ≠ slashId)) w.slashes.pending id
      show find (w₁.slashes.pending.filter fun e => e.1 ≠ slashId) id = _
      rw [hslashes, hfilter]
      simp only [decide_eq_true_eq]
      rfl
    have hfind : ∀ id, find (w₁.archiveSlash slashId slash').slashes.history id
        = if slashId = id then some slash' else find w.slashes.history id := by
      intro id
      show find (put w₁.slashes.history slashId slash') id = _
      rw [hslashes, find_put]
    have hnext : (w₁.archiveSlash slashId slash').slashes.nextSlashId = w.slashes.nextSlashId := by
      show w₁.slashes.nextSlashId = _
      rw [hslashes]
    refine h.change slashId (fun id hid => ?_) (fun id hid => ?_) hnext.ge (hnext ▸ hbelow) hj
      (Or.inl ?_) (fun e he => ?_) (fun e he _ => ?_)
    · rw [hget, if_pos hid]
    · rw [hfind, if_neg (Ne.symm hid)]
    · rw [hget, if_neg (not_not.mpr rfl)]
    · rw [hget, if_neg (not_not.mpr rfl)] at he
      cases he
    · rw [hfind, if_pos rfl] at he
      exact Option.some.inj he ▸ hnew
  rcases cleanupSlash_ok hok with ⟨resolver, w₁, slashed, hresolver, _, _, h₁, rfl⟩ | ⟨_, rfl⟩
  · rw [hresolver] at halone ⊢
    refine harchived (docket_eq.mp (slashResolverStake_ok h₁).2.2.2.1).2.2.2.2.1
      (fun id hid => debits_about hid) ⟨fun hs => ?_, fun _ => ⟨fun r hr => ?_, fun e he => ?_⟩⟩
    · cases hs
    · obtain rfl : resolver = r := Option.some.inj hr
      rw [takenFor_append, htouched.takenFor, zero_add]
      exact taken_of_alone (Or.inr rfl) h₁ rfl halone
    · rcases List.mem_append.mp he with he | he
      · exact htouched.uncredited e he
      · exact debits_no_credit e he _
  · have hnone : w.debits (w.archiveSlash slashId { slash with status := .expiredCleanedUp }) .expiry
        (some slashId) slash.resolver = [] := debits_same rfl
    rw [hnone]
    exact harchived rfl (fun id _ e he => by cases he) (Accounted.of_settled rfl rfl)

theorem books_executed {slashed : World.Slashed} (h : Books past w)
    (hexecuted : FraudExecution hash w workflowId slashId entry resolver w₁ slashed)
    (halone : (w.debit w₁ .execution (some slashId) resolver).alone = true) :
    Books (past ++ [w.debit w₁ .execution (some slashId) resolver])
      (w.executionDone w₁ resolver slashed.total) := by
  have hslashes := (docket_eq.mp (slashResolverStake_ok hexecuted.slashed).2.2.2.1).2.2.2.2.1
  refine h.write entry.executed hexecuted.found ?_ ?_ ?_ (fun id hid e he => ?_)
    fun hreversal => ?_
  · show w₁.slashes.pending = _
    rw [hslashes]
    rfl
  · show w₁.slashes.history = _
    rw [hslashes]
    rfl
  · show w₁.slashes.nextSlashId = _
    rw [hslashes]
    rfl
  · rw [List.mem_singleton.mp he]
    exact decide_eq_false (Ne.symm hid)
  · have hactive : entry.active = true := by
      unfold SlashEntry.active
      rw [hexecuted.status]
      rfl
    obtain ⟨hamount, htouched⟩ := (h.pending slashId entry hexecuted.found hreversal).active hactive
    have hslashed := (slashResolverStake_ok hexecuted.slashed).1
    obtain ⟨hcoverage, htotal⟩ : w.coverage resolver = 0 ∧ slashed.total = entry.amount := by
      have hstake : slashableAmount (w.stake resolver) entry.amount = .ok slashed.total := hslashed
      have hof : entry.ofReversal = true := hreversal
      simpa [World.debit, Event.alone, hexecuted.found, hof, hstake] using halone
    refine ⟨nofun, fun _ => ⟨fun r hr => ?_, fun e he => ?_⟩⟩
    · obtain rfl : resolver = r := Option.some.inj (hexecuted.against.symm.trans hr)
      have hstake : w.stake resolver - w₁.stake resolver
          = slashed.total - w.coverageShare resolver slashed.total :=
        (slashResolverStake_debit hexecuted.slashed rfl).1
      rw [coverageShare_of_alone hcoverage (slashResolverStake_nonneg hexecuted.slashed), sub_zero,
        htotal] at hstake
      have hone : takenFor slashId resolver [w.debit w₁ .execution (some slashId) resolver]
          = w.stake resolver - w₁.stake resolver := by
        simp [takenFor, Event.taken, World.debit]
      rw [takenFor_append, htouched.takenFor, zero_add, hone, hstake]
      show _ = entry.actualAmount.getD entry.amount
      rw [hamount]
      rfl
    · rcases List.mem_append.mp he with he | he
      · exact htouched.uncredited e he
      · rw [List.mem_singleton.mp he]
        rfl

theorem mem_payTurns {entry : SlashEntry} {time : ℤ} {rows : List (Address × ℤ)}
    {acc : World.GroupExecution} {e : Event}
    (he : e ∈ World.payTurns hash workflowId slashId entry time rows acc) :
    ∃ (before after : World) (resolver : Address),
      e = before.debit after .groupExecution (some slashId) resolver := by
  induction rows generalizing acc with
  | nil => cases he
  | cons row rows ih =>
    rw [World.payTurns] at he
    split at he
    · cases he
    · rcases List.mem_append.mp he with he | he
      · obtain ⟨resolver, _, heq⟩ := mem_debits he
        exact ⟨_, _, resolver, heq⟩
      · exact ih he

theorem not_ofReversal_of_group (hkind : entry.kind = .fraudGroup) : ¬ entry.ofReversal = true := by
  unfold SlashEntry.ofReversal
  rw [hkind]
  nofun

/-- **The books are kept, and vindications exact, around each way slashes are touched.** -/
theorem books_judged (env : Environment) :
    Judged env fun w j w' => ∀ past, Books past w → (∀ e ∈ j, e.alone = true) →
      Books (past ++ j) w' ∧ Restores past j where
  refl w past h _ := by
    rw [List.append_nil]
    exact ⟨h, trivial⟩
  trans h₁ h₂ past h halone := by
    obtain ⟨hbooks₁, hrestores₁⟩ := h₁ past h fun e he => halone e (List.mem_append_left _ he)
    obtain ⟨hbooks₂, hrestores₂⟩ := h₂ _ hbooks₁ fun e he => halone e (List.mem_append_right _ he)
    rw [← List.append_assoc]
    exact ⟨hbooks₂, hrestores₁.append hrestores₂⟩
  silent hpenal past h _ :=
    ⟨h.of_slashes (penal_eq.mp hpenal).2.2.2 (fun id e he => nomatch he), trivial⟩
  reversal _ hok past h halone := by
    refine ⟨books_reversal h hok halone, Restores.of_no_credit ?_⟩
    unfold World.reversalJournal
    rw [hok]
    exact debits_no_credit
  vindicated _ hsome hok past h _ := books_vindicated h (vindicatedSlash_entry hsome) hok
  cleanedUp _ hfound hexpired hok past h halone :=
    ⟨books_cleanedUp h hfound hexpired hok halone, Restores.of_no_credit debits_no_credit⟩
  timedOut _ hok past h _ := by
    refine ⟨h.of_slashes (docket_eq.mp (slashOnTimeout_docket hok)).2.2.2.2.1 fun id e he => ?_,
      Restores.of_no_credit debits_no_credit⟩
    obtain ⟨_, _, rfl⟩ := mem_debits he
    rfl
  proposed _ hok past h _ :=
    ⟨h.insert (proposeFraudSlash_ok hok).2.2 rfl rfl (fun id _ e he => nomatch he) nofun, trivial⟩
  groupProposed _ hok past h _ :=
    ⟨h.insert (proposeFraudGroupSlash_ok hok).2.2.2.2 rfl rfl (fun id _ e he => nomatch he) nofun,
      trivial⟩
  appealed {w w' workflowId slashId caller} _ hok past h _ := by
    obtain ⟨entry, hfound, _, hstatus, _⟩ := appealSlash_ok hok
    have hactive : entry.active = true := by
      unfold SlashEntry.active
      rw [hstatus]
      rfl
    obtain ⟨hpending, hhistory, _, hnext, _⟩ := rewritten_appealSlash hfound hok
    exact ⟨h.write_same _ hfound hpending hhistory hnext fun hreversal =>
      ⟨hreversal, hactive, rfl, rfl⟩, trivial⟩
  resolved {w w' workflowId slashId caller upheld provenance} _ hok past h _ := by
    obtain ⟨entry, hfound, _, _, hstatus, _⟩ := resolveAppeal_ok hok
    have hactive : entry.active = true := by
      unfold SlashEntry.active
      rw [hstatus]
      rfl
    obtain ⟨hpending, hhistory, _, hnext, _⟩ := rewritten_resolveAppeal hfound hok
    refine ⟨h.write_same _ hfound hpending hhistory hnext fun hreversal =>
      ⟨hreversal, hactive, ?_, rfl⟩, trivial⟩
    cases upheld <;> rfl
  memberAppealed {w w' workflowId slashId caller} _ hok past h _ := by
    obtain ⟨entry, _, hfound, _, hkind, _⟩ := appealFraudGroupSlash_ok hok
    obtain ⟨_, hpending, hhistory, _, hnext, _⟩ := rewritten_memberAppeal hfound hok
    refine ⟨h.write_same _ hfound hpending hhistory hnext fun hreversal => ?_, trivial⟩
    exact absurd hreversal (not_ofReversal_of_group hkind)
  memberResolved {w w' workflowId slashId caller member upheld provenance} _ hok past h _ := by
    obtain ⟨entry, _, hfound, _, hkind, _⟩ := resolveFraudGroupAppeal_ok hok
    obtain ⟨_, _, _, hpending, hhistory, _, hnext, _⟩ := rewritten_memberResolution hfound hok
    refine ⟨h.write_same _ hfound hpending hhistory hnext fun hreversal => ?_, trivial⟩
    exact absurd hreversal (not_ofReversal_of_group hkind)
  executed _ hexecuted past h halone := by
    refine ⟨books_executed h hexecuted (halone _ (List.mem_singleton_self _)), ?_⟩
    exact ⟨trivial, trivial⟩
  groupExecuted {w workflowId slashId entry allocations done} _ hexecuted past h _ := by
    have hslashes : done.world.slashes = w.slashes := payMember_slashes hexecuted.paid
    refine ⟨h.write (entry.groupExecuted done.payments done.blocked) hexecuted.found ?_ ?_ ?_
      (fun id hid e he => ?_) (fun hreversal => ?_), Restores.of_no_credit fun e he id => ?_⟩
    · show put done.world.slashes.pending _ _ = _
      rw [hslashes]
    · show done.world.slashes.history = _
      rw [hslashes]
    · show done.world.slashes.nextSlashId = _
      rw [hslashes]
    · obtain ⟨_, _, _, rfl⟩ := mem_payTurns he
      exact decide_eq_false (Ne.symm hid)
    · exact absurd hreversal (not_ofReversal_of_group hexecuted.kind)
    · obtain ⟨_, _, _, rfl⟩ := mem_payTurns he
      rfl
  registered _ past h _ :=
    ⟨h.of_slashes rfl fun id e he => by rw [List.mem_singleton.mp he]; rfl, trivial, trivial⟩
  withdrawn _ _ past h _ :=
    ⟨h.of_slashes rfl fun id e he => by rw [List.mem_singleton.mp he]; rfl, trivial, trivial⟩
  advanced _ past h _ := ⟨h.of_slashes rfl (fun id e he => nomatch he), trivial⟩

/-! ## stakes -/

theorem stakeChange_debits {cause : Cause} {slash : Option ℕ} {against : Option Address}
    (hothers : ∀ r, against ≠ some r → w'.stake r = w.stake r) (r : Address) :
    w'.stake r = w.stake r + stakeChange r (w.debits w' cause slash against) := by
  cases against with
  | none =>
    rw [hothers r nofun]
    exact (add_zero _).symm
  | some resolver =>
    unfold World.debits
    dsimp only
    by_cases hr : resolver = r
    · subst hr
      split
      · next hsame =>
        rw [hsame.1]
        exact (add_zero _).symm
      · simp [stakeChange, Event.change, World.debit]
    · rw [hothers r fun heq => hr (Option.some.inj heq)]
      split
      · exact (add_zero _).symm
      · simp [stakeChange, Event.change, World.debit, hr]

theorem stakeChange_debit {cause : Cause} {slash : Option ℕ}
    (hothers : ∀ r, resolver ≠ r → w'.stake r = w.stake r) (r : Address) :
    w'.stake r = w.stake r + stakeChange r [w.debit w' cause slash resolver] := by
  by_cases hr : resolver = r
  · subst hr
    simp [stakeChange, Event.change, World.debit]
  · rw [hothers r hr]
    simp [stakeChange, Event.change, World.debit, hr]

theorem stakeChange_credits {against : Option Address}
    (hothers : ∀ r, against ≠ some r → w'.stake r = w.stake r) (r : Address) :
    w'.stake r = w.stake r + stakeChange r (w.credits w' slashId against) := by
  cases against with
  | none =>
    rw [hothers r nofun]
    exact (add_zero _).symm
  | some resolver =>
    unfold World.credits
    dsimp only
    by_cases hr : resolver = r
    · subst hr
      split
      · next hsame =>
        rw [hsame]
        exact (add_zero _).symm
      · simp [stakeChange, Event.change]
    · rw [hothers r fun heq => hr (Option.some.inj heq)]
      split
      · exact (add_zero _).symm
      · simp [stakeChange, Event.change, hr]

theorem stake_of_slashed {slashed : World.Slashed}
    (h : w.slashResolverStake hash resolver amount challenger bountyBps workflowId skip
      = .ok (w₁, slashed)) {r : Address} (hr : resolver ≠ r) : w₁.stake r = w.stake r := by
  unfold World.stake
  rw [(slashResolverStake_ok h).2.2.1]
  unfold Resolvers.slash
  dsimp only
  rw [addAt_apply, if_neg hr]

theorem stake_of_timeout {against : Option Address}
    (h : w.slashOnTimeout hash workflowId against amount = .ok w') {r : Address}
    (hr : against ≠ some r) : w'.stake r = w.stake r := by
  unfold World.slashOnTimeout at h
  split at h
  · rw [← Except.ok.inj h]
  · next resolver =>
    split at h
    · rw [← Except.ok.inj h]
    · simp only [bind_eq_ok, Except.ok.injEq] at h
      obtain ⟨actual, _, w₁, h₁, rfl⟩ := h
      show w₁.resolvers.stakes r = _
      rw [(distributeSlashedFunds_docket h₁).2.1]
      exact Function.update_of_ne (fun heq => hr (congrArg some heq.symm)) _ _

theorem stake_of_vindicated (h : w.vindicateSlash slashId entry = .ok w') {r : Address}
    (hr : entry.resolver ≠ some r) : w'.stake r = w.stake r := by
  refine vindicateSlash_rule (P := fun w₁ => w₁.stake r = w.stake r) h ?_ ?_ ?_ rfl
  · intro resolver amount hresolver _
    exact Function.update_of_ne (fun heq => hr (hresolver.trans (congrArg some heq.symm))) _ _
  · intro w₁ w₂ _ _ _ _ hreturned h₁
    obtain ⟨_, _, _, _, _, rfl⟩ := returnSlashAppealBond_ok hreturned
    exact h₁
  · intro w₁ f _ h₁
    rw [World.stake, resolvers_updateSlash]
    exact h₁

theorem stake_of_cleanup {slash : SlashEntry}
    (h : w.cleanupSlash hash workflowId slashId slash = .ok w') {r : Address}
    (hr : slash.resolver ≠ some r) : w'.stake r = w.stake r := by
  rcases cleanupSlash_ok h with ⟨resolver, w₁, _, hresolver, _, _, h₁, rfl⟩ | ⟨_, rfl⟩
  · exact stake_of_slashed h₁ fun heq => hr (hresolver.trans (congrArg some heq))
  · rfl

theorem stakeChange_payTurns {entry : SlashEntry} {time : ℤ} {rows : List (Address × ℤ)}
    {acc done : World.GroupExecution}
    (hok : rows.foldlM (World.payMember hash workflowId entry time) acc = .ok done) (r : Address) :
    done.world.stake r = acc.world.stake r
      + stakeChange r (World.payTurns hash workflowId slashId entry time rows acc) := by
  induction rows generalizing acc with
  | nil =>
    rw [← Except.ok.inj hok]
    exact (add_zero _).symm
  | cons row rows ih =>
    rw [List.foldlM_cons, bind_eq_ok] at hok
    obtain ⟨acc₁, h₁, hrest⟩ := hok
    have hturn : ∀ r', some row.1 ≠ some r' → acc₁.world.stake r' = acc.world.stake r' := by
      intro r' hr'
      rcases payMember_ok h₁ with ⟨_, _, rfl⟩ | ⟨_, _, rfl⟩ | ⟨_, _, rfl⟩ | ⟨w₁, _, _, _, _, _, h₂,
        rfl⟩
      · rfl
      · rfl
      · rfl
      · exact stake_of_slashed h₂ fun heq => hr' (congrArg some heq)
    rw [World.payTurns, h₁]
    dsimp only
    rw [stakeChange_append, ih hrest, ← add_assoc, ← stakeChange_debits hturn r]

/-- **Stakes change by what the events say.** -/
theorem stakes_judged (env : Environment) :
    Judged env fun w j w' => ∀ r, w'.stake r = w.stake r + stakeChange r j where
  refl w r := (add_zero _).symm
  trans h₁ h₂ r := by
    rw [h₂, h₁, stakeChange_append, add_assoc]
  silent hpenal r := by
    have hresolvers := (penal_eq.mp hpenal).2.2.1
    have hstakes : _ = _ := congrArg (fun x : Resolvers => x.stakes r) hresolvers
    exact hstakes.trans (add_zero _).symm
  reversal {w w' workflowId isRelease} _ hok r := by
    unfold World.reversalJournal
    rw [hok, World.eventsOf_ok]
    refine stakeChange_debits (fun r' hr' => ?_) r
    rcases handleReversalSlashing_ok hok with rfl | ⟨_, decision, _, _, hreversed, _, _, _, _, _,
      ⟨_, hinsert⟩ | ⟨w₁, _, _, h₁, hinsert⟩⟩
    · rfl
    · obtain ⟨_, _, _, _, rfl⟩ := insertSlash_ok.mp hinsert
      rfl
    · obtain ⟨_, _, _, _, rfl⟩ := insertSlash_ok.mp hinsert
      refine stake_of_slashed h₁ fun heq => hr' ?_
      rw [hreversed]
      exact congrArg some heq
  vindicated _ _ hok r := stakeChange_credits (fun r' hr' => stake_of_vindicated hok hr') r
  cleanedUp _ _ _ hok r := stakeChange_debits (fun r' hr' => stake_of_cleanup hok hr') r
  timedOut _ hok r := stakeChange_debits (fun r' hr' => stake_of_timeout hok hr') r
  proposed _ hok r := by
    obtain ⟨_, _, _, _, rfl⟩ := insertSlash_ok.mp (proposeFraudSlash_ok hok).2.2
    exact (add_zero _).symm
  groupProposed _ hok r := by
    obtain ⟨_, _, _, _, rfl⟩ := insertSlash_ok.mp (proposeFraudGroupSlash_ok hok).2.2.2.2
    exact (add_zero _).symm
  appealed _ hok r := by
    obtain ⟨_, hfound, _⟩ := appealSlash_ok hok
    rw [World.stake, (rewritten_appealSlash hfound hok).resolvers]
    exact (add_zero _).symm
  resolved _ hok r := by
    obtain ⟨_, hfound, _⟩ := resolveAppeal_ok hok
    rw [World.stake, (rewritten_resolveAppeal hfound hok).resolvers]
    exact (add_zero _).symm
  memberAppealed _ hok r := by
    obtain ⟨_, _, hfound, _⟩ := appealFraudGroupSlash_ok hok
    obtain ⟨_, hwritten⟩ := rewritten_memberAppeal hfound hok
    rw [World.stake, hwritten.resolvers]
    exact (add_zero _).symm
  memberResolved _ hok r := by
    obtain ⟨_, _, hfound, _⟩ := resolveFraudGroupAppeal_ok hok
    obtain ⟨_, _, _, hwritten⟩ := rewritten_memberResolution hfound hok
    rw [World.stake, hwritten.resolvers]
    exact (add_zero _).symm
  executed _ hexecuted r := by
    refine stakeChange_debit (fun r' hr' => ?_) r
    exact stake_of_slashed hexecuted.slashed hr'
  groupExecuted _ hexecuted r := stakeChange_payTurns hexecuted.paid r
  registered {w resolver amount} _ r := by
    show Function.update w.resolvers.stakes resolver _ r = _
    by_cases hr : resolver = r
    · subst hr
      simp [stakeChange, Event.change, World.stake]
    · rw [Function.update_of_ne (Ne.symm hr)]
      simp [stakeChange, Event.change, World.stake, hr]
  withdrawn {w resolver amount} _ _ r := by
    show Function.update w.resolvers.stakes resolver _ r = _
    by_cases hr : resolver = r
    · subst hr
      simp [stakeChange, Event.change, World.stake]
    · rw [Function.update_of_ne (Ne.symm hr)]
      simp [stakeChange, Event.change, World.stake, hr]
  advanced _ r := (add_zero _).symm

/-! ## runs -/

theorem books_of_empty (hpending : w.slashes.pending = []) (hhistory : w.slashes.history = []) :
    Books [] w := by
  have hget : ∀ id, w.getSlash id = none := by
    intro id
    unfold World.getSlash
    rw [hpending]
    rfl
  refine ⟨fun id _ => ⟨hget id, by rw [hhistory]; rfl, fun e he => nomatch he⟩, fun id => Or.inl (hget id),
    fun id e he => ?_, fun id e he => ?_⟩
  · rw [hget] at he
    cases he
  · rw [hhistory] at he
    cases he

/-- **When reversal slashes are paid alone, vindications restore exactly what was taken.** -/
theorem vindication_exact (env : Environment) (hpending : w.slashes.pending = [])
    (hhistory : w.slashes.history = []) {ops : List Operation}
    (halone : Along (step env) (PaidAlone env) w ops) : VindicationExact env w ops := by
  have hkeyed : w.Keyed := by
    unfold World.Keyed
    rw [hpending]
    exact List.nodup_nil
  refine ⟨?_, fun n resolver => (stakes_judged env).run hkeyed (ops.take n) resolver⟩
  exact ((books_judged env).run hkeyed ops [] (books_of_empty hpending hhistory)
    (emitted_forall halone)).2

end

/-- a dispute whose first resolver has a stake of 1000 and a senior with that much coverage -/
def coveredJudge (coverage : ℤ) : World :=
  { emptyWorld { params := { maxDisputeLevel := 5 } } 0 with
    escrows :=
      { transfers := [(0, { token := "USDC", sender := "s", recipient := "r", amountAfterFee := 100
                            disputeResolver := some "judge", escrowState := .disputed })]
        snapshots := fun _ => { appealWindowDuration := some 100, reversalSlashBps := 1000 }
        nextWorkflowId := 1 }
    resolvers :=
      { stakes := fun r => if r = "judge" then 1000 else 0
        registered := fun r => r = "judge"
        senior := fun r => if r = "judge" then some "senior" else none
        reservedCoverage := fun r => if r = "senior" then coverage else 0 } }

/-- the judge releases, the next level refunds, and the level after it releases again -/
def twiceEscalated : List Operation :=
  [.executeResolution 0 "judge" true "h0" none,
    .escalateDispute 0 "r" (some fun _ _ _ _ => .ok (some "second")),
    .executeResolution 0 "second" false "h1" none,
    .escalateDispute 0 "s" (some fun _ _ _ _ => .ok (some "third")),
    .executeResolution 0 "third" true "h2" none]

theorem vindication_exact_uncovered :
    VindicationExact bareEnvironment (coveredJudge 0) twiceEscalated :=
  vindication_exact bareEnvironment rfl rfl (by decide +kernel)

/-- Of a slash of 100 the senior covers 60; the vindicated judge is credited 100. -/
theorem vindication_exact_counterexample :
    ¬ VindicationExact bareEnvironment (coveredJudge 60) twiceEscalated := by
  rintro ⟨hrestores, _⟩
  revert hrestores
  decide +kernel

end PRF.Sew
