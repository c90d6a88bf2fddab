import ProtocolRobustness.Publication.Lane

/-!
# One finalizer, one write

* `Role`, `Stage`      what each caller is doing, and how far the finalization has come;
* `Stage.call`, `Stage.gate`, `Stage.writeFn`   the moves that take it from one stage to the next;
* `Bound`, `Granted`   what a lane keeps from its opening, and what its ticket says of the call that
                       won the gate;
* `one_write`          every interleaving runs at most one write function, and its result stays;
* `Tallied`            a lane counts the writes that made it;
* `closed_for_good`    what was written before the closure of a lane, and what comes after.
-/

set_option linter.unusedSectionVars false

namespace PRF.Finalization
open CompareAndSet Callers

section
variable {κ ι ρ : Type*} [DecidableEq κ] [DecidableEq ι]

/-! ## roles -/

inductive Role (ι ρ : Type*)
  | bystander
  | holder (ticket : Ticket ι)
  | settler (ticket : Ticket ι) (w : WriteResult ι ρ)
  | told (a : Answer ι ρ)

/-- what an answer makes of the caller -/
def roleOf : Answer ι ρ → Role ι ρ
  | .gated ticket => .holder ticket
  | .committed result ticket => .told (.committed result ticket)
  | .aborted reason => .told (.aborted reason)
  | _ => .bystander

def opRole : Op ι ρ → Role ι ρ
  | .settle ticket w => .settler ticket w
  | .request _ => .bystander

def role : Turn (LaneState ι ρ) (Op ι ρ) (Answer ι ρ) → Role ι ρ
  | .idle => .bystander
  | .called d => opRole d
  | .holding d _ _ => opRole d
  | .done _ a => roleOf a

def roles (c : Cell (LaneState ι ρ) κ (Op ι ρ) (Answer ι ρ)) (client : κ) : Role ι ρ :=
  role (c.phase client)

variable {c : Cell (LaneState ι ρ) κ (Op ι ρ) (Answer ι ρ)} {client : κ}
  {s s' : LaneState ι ρ} {d : Op ι ρ} {a : Answer ι ρ} {ticket : Ticket ι}

theorem roles_update {p : Turn (LaneState ι ρ) (Op ι ρ) (Answer ι ρ)} :
    (fun t => role (Function.update c.phase client p t))
      = Function.update (roles c) client (role p) := by
  funext t
  by_cases ht : t = client
  · subst ht
    rw [Function.update_self, Function.update_self]
  · rw [Function.update_of_ne ht, Function.update_of_ne ht]
    rfl

theorem roles_moved {p : Turn (LaneState ι ρ) (Op ι ρ) (Answer ι ρ)} :
    roles (c.moved client p) = Function.update (roles c) client (role p) :=
  roles_update

theorem roles_write {v : LaneState ι ρ} :
    roles (c.write client d v a) = Function.update (roles c) client (roleOf a) :=
  roles_update

theorem holder_iff {p : Turn (LaneState ι ρ) (Op ι ρ) (Answer ι ρ)} :
    role p = .holder ticket ↔ ticketOf p = some ticket := by
  cases p with
  | idle => simp [role, ticketOf]
  | called d => cases d <;> simp [role, opRole, ticketOf]
  | holding d n v => cases d <;> simp [role, opRole, ticketOf]
  | done d a => cases a <;> simp [role, roleOf, ticketOf]

theorem role_pending {p : Turn (LaneState ι ρ) (Op ι ρ) (Answer ι ρ)} (h : p.pending = some d) :
    role p = opRole d := by
  cases p with
  | idle => cases h
  | called d' => cases h; rfl
  | holding d' n v => cases h; rfl
  | done d' a => cases h

theorem roleOf_answer (h : attempt d s = .answer a) :
    opRole d = .bystander ∧ roleOf a = .bystander := by
  cases d with
  | settle ticket w => cases h
  | request r =>
    refine ⟨rfl, ?_⟩
    cases r with
    | beginContributor | endContributor | recordExecutorDispatch | recordQuiesced =>
      simp only [attempt] at h
      split at h <;> cases h <;> rfl
    | closeExecution =>
      simp only [attempt] at h
      split at h
      · split at h <;> cases h
        rfl
      · cases h
        rfl
    | finalizeLane id opts =>
      simp only [attempt] at h
      split at h <;> cases h
      rfl

/-- **A turn either leaves the lane and the roles alone or is a write of a call under way.** -/
theorem turn_cases {first : LaneState ι ρ} (h : Linear attempt first c) (client : κ) :
    ((c.turn attempt client).value = c.value ∧ roles (c.turn attempt client) = roles c)
      ∨ ∃ d v a, (c.phase client).pending = some d ∧ Change d c.value v a
        ∧ c.turn attempt client = c.write client d v a := by
  have hsame : ∀ p, role p = roles c client → roles (c.moved client p) = roles c := by
    intro p hp
    rw [roles_moved, hp, Function.update_eq_self]
  unfold Cell.turn
  cases hphase : c.phase client with
  | idle => exact Or.inl ⟨rfl, rfl⟩
  | done d a => exact Or.inl ⟨rfl, rfl⟩
  | called d =>
    refine Or.inl ⟨rfl, hsame _ ?_⟩
    rw [roles, hphase]
    rfl
  | holding d n v =>
    have hrole : roles c client = opRole d := by
      rw [roles, hphase]
      rfl
    dsimp only
    cases hattempt : attempt d v with
    | answer a =>
      obtain ⟨hop, hanswer⟩ := roleOf_answer hattempt
      refine Or.inl ⟨rfl, hsame _ ?_⟩
      rw [hrole, hop]
      exact hanswer
    | write v' a =>
      by_cases hn : n = c.stamp
      · rw [(h.snapshot client d n v hphase).2.1 hn] at hattempt
        exact Or.inr ⟨d, v', a, rfl, attempt_change hattempt, if_pos hn⟩
      · have hstale : c.settle client d n (.write v' a) = c.moved client (.called d) := if_neg hn
        rw [hstale]
        exact Or.inl ⟨rfl, hsame _ (by rw [hrole]; rfl)⟩

/-! ## stages -/

/-- what the write function left of a lane -/
def Closes (s : LaneState ι ρ) : WriteResult ι ρ → Prop
  | .returned (some result) _ => s.lifecycle = .finalized ∧ s.result = some result
  | w => s.lifecycle = .aborted ∧ s.result = none ∧ s.abortReason = some w.reason

/-- the answer to the call that settled a lane -/
def WriteResult.answer (ticket : Ticket ι) : WriteResult ι ρ → Answer ι ρ
  | .returned (some result) _ => .committed result ticket
  | w => .aborted w.reason

inductive Stage (s : LaneState ι ρ) (written : List (κ × Ticket ι)) (roles : κ → Role ι ρ) : Prop
  | awaited (hlifecycle : s.lifecycle = .opened ∨ s.lifecycle = .executionClosed)
      (hfinalizer : s.finalizer = none) (hresult : s.result = none) (hwritten : written = [])
      (hroles : ∀ t, roles t = .bystander)
  | elected (client : κ) (ticket : Ticket ι) (hlifecycle : s.lifecycle = .finalizing)
      (hfinalizer : s.finalizer = some ticket) (hresult : s.result = none) (hwritten : written = [])
      (hrole : roles client = .holder ticket) (hothers : ∀ t, t ≠ client → roles t = .bystander)
  | writing (client : κ) (ticket : Ticket ι) (w : WriteResult ι ρ)
      (hlifecycle : s.lifecycle = .finalizing) (hfinalizer : s.finalizer = some ticket)
      (hresult : s.result = none) (hwritten : written = [(client, ticket)])
      (hrole : roles client = .settler ticket w)
      (hothers : ∀ t, t ≠ client → roles t = .bystander)
  | lost (client : κ) (ticket : Ticket ι) (hlifecycle : s.lifecycle = .finalizing)
      (hfinalizer : s.finalizer = some ticket) (hresult : s.result = none)
      (hwritten : written = [(client, ticket)]) (hroles : ∀ t, roles t = .bystander)
  | settled (client : κ) (ticket : Ticket ι) (w : WriteResult ι ρ) (hcloses : Closes s w)
      (hfinalizer : s.finalizer = some ticket) (hwritten : written = [(client, ticket)])
      (hroles : ∀ t, roles t = .bystander ∨ roles t = .told (w.answer ticket))

variable {written : List (κ × Ticket ι)} {rs : κ → Role ι ρ}

theorem Closes.over {w : WriteResult ι ρ} (h : Closes s w) :
    s.lifecycle = .finalized ∨ s.lifecycle = .aborted := by
  unfold Closes at h
  split at h
  · exact Or.inl h.1
  · exact Or.inr h.1

theorem closes_settleLane (h : s.result = none) (ticket : Ticket ι) (w : WriteResult ι ρ) :
    Closes (settleLane s ticket w).1 w := by
  cases w with
  | threw message => exact ⟨rfl, h, rfl⟩
  | returned committed reason =>
    cases committed with
    | none => exact ⟨rfl, h, rfl⟩
    | some result => exact ⟨rfl, rfl⟩

theorem settleLane_answer (s : LaneState ι ρ) (ticket : Ticket ι) (w : WriteResult ι ρ) :
    (settleLane s ticket w).2 = w.answer ticket := by
  cases w with
  | threw message => rfl
  | returned committed reason => cases committed <;> rfl

theorem settleLane_finalizer (s : LaneState ι ρ) (ticket : Ticket ι) (w : WriteResult ι ρ) :
    (settleLane s ticket w).1.finalizer = s.finalizer := by
  cases w with
  | threw message => rfl
  | returned committed reason => cases committed <;> rfl

theorem roleOf_answer_told (ticket : Ticket ι) (w : WriteResult ι ρ) :
    roleOf (w.answer ticket) = .told (w.answer ticket) := by
  cases w with
  | threw message => rfl
  | returned committed reason => cases committed <;> rfl

/-- a request that is no gate leaves who finalizes alone, and can only close the lane -/
structure Quiet (s s' : LaneState ι ρ) (a : Answer ι ρ) : Prop where
  role : roleOf a = .bystander
  finalizer : s'.finalizer = s.finalizer
  result : s'.result = s.result
  lifecycle : s'.lifecycle = s.lifecycle ∧ s.lifecycle ≠ .finalized ∧ s.lifecycle ≠ .aborted
    ∨ s.lifecycle = .opened ∧ s'.lifecycle = .executionClosed

theorem Change.quiet_or_gated {r : Request ι} (h : Change (.request r) s s' a) :
    Quiet s s' a ∨ ∃ id opts, r = .finalizeLane id opts ∧ Admits s opts
      ∧ s' = { s with lifecycle := .finalizing, finalizer := some (makeTicket id s opts) }
      ∧ a = .gated (makeTicket id s opts) := by
  cases h with
  | begun _ hopen => exact Or.inl ⟨rfl, rfl, rfl, Or.inl ⟨rfl, by simp [hopen], by simp [hopen]⟩⟩
  | ended _ hopen =>
    refine Or.inl ⟨rfl, rfl, rfl, Or.inl ⟨rfl, ?_, ?_⟩⟩ <;>
      rcases hopen with hl | hl | hl <;> simp [hl]
  | dispatched _ hopen =>
    exact Or.inl ⟨rfl, rfl, rfl, Or.inl ⟨rfl, by simp [hopen], by simp [hopen]⟩⟩
  | quiesced _ hopen =>
    refine Or.inl ⟨rfl, rfl, rfl, Or.inl ⟨rfl, ?_, ?_⟩⟩ <;>
      rcases hopen with hl | hl <;> simp [hl]
  | closed _ hopen hready => exact Or.inl ⟨rfl, rfl, rfl, Or.inr ⟨hopen, rfl⟩⟩
  | gated _ id opts hadmits => exact Or.inr ⟨id, opts, rfl, hadmits, rfl, rfl⟩

/-- **A quiet request leaves the stage as it is.** -/
theorem Stage.quiet (h : Stage s written rs) (hq : Quiet s s' a) : Stage s' written rs := by
  have hfinalizing : s.lifecycle = .finalizing → s'.lifecycle = .finalizing := by
    intro hl
    rcases hq.lifecycle with ⟨hsame, -, -⟩ | ⟨hopen, -⟩
    · rw [hsame, hl]
    · rw [hl] at hopen
      cases hopen
  cases h with
  | awaited hl hf hr hw hroles =>
    refine .awaited ?_ (hq.finalizer.trans hf) (hq.result.trans hr) hw hroles
    rcases hq.lifecycle with ⟨hsame, -, -⟩ | ⟨-, hclosed⟩
    · rwa [hsame]
    · exact Or.inr hclosed
  | elected c t hl hf hr hw hrole hothers =>
    exact .elected c t (hfinalizing hl) (hq.finalizer.trans hf) (hq.result.trans hr) hw hrole hothers
  | writing c t w hl hf hr hw hrole hothers =>
    exact .writing c t w (hfinalizing hl) (hq.finalizer.trans hf) (hq.result.trans hr) hw hrole
      hothers
  | lost c t hl hf hr hw hroles =>
    exact .lost c t (hfinalizing hl) (hq.finalizer.trans hf) (hq.result.trans hr) hw hroles
  | settled c t w hcloses hf hw hroles =>
    rcases hq.lifecycle with ⟨-, hfinalized, haborted⟩ | ⟨hopen, -⟩
    · exact (hcloses.over.elim hfinalized haborted).elim
    · rcases hcloses.over with hl | hl <;> rw [hl] at hopen <;> cases hopen

/-- the gate is won once -/
theorem Stage.gate (h : Stage s written rs) {opts : FinalizeOpts ι} (hadmits : Admits s opts)
    (client : κ) (ticket : Ticket ι) :
    Stage { s with lifecycle := .finalizing, finalizer := some ticket } written
      (Function.update rs client (.holder ticket)) := by
  have hclosed := hadmits.lifecycle
  cases h with
  | awaited hl hf hr hw hroles =>
    refine .elected client ticket rfl rfl hr hw (Function.update_self _ _ _) ?_
    intro t ht
    rw [Function.update_of_ne ht]
    exact hroles t
  | elected c t hl => cases hl.symm.trans hclosed
  | writing c t w hl => cases hl.symm.trans hclosed
  | lost c t hl => cases hl.symm.trans hclosed
  | settled c t w hcloses =>
    rcases hcloses.over with hl | hl <;> rw [hl] at hclosed <;> cases hclosed

/-- **A write of a call takes the finalization one stage forward at most.** -/
theorem Stage.write (h : Stage s written rs) (hchange : Change d s s' a)
    (hclient : rs client = opRole d) : Stage s' written (Function.update rs client (roleOf a)) := by
  cases d with
  | request r =>
    rcases hchange.quiet_or_gated with hq | ⟨id, opts, -, hadmits, rfl, rfl⟩
    · rw [hq.role, ← show rs client = .bystander from hclient, Function.update_eq_self]
      exact h.quiet hq
    · exact h.gate hadmits client _
  | settle ticket w =>
    have hsettler : rs client = .settler ticket w := hclient
    cases hchange
    rw [settleLane_answer, roleOf_answer_told]
    have hnot : ∀ r : Role ι ρ, r = .bystander → rs client ≠ r := by
      rintro r rfl hr
      rw [hsettler] at hr
      cases hr
    cases h with
    | awaited hl hf hr hw hroles => exact absurd (hroles client) (hnot _ rfl)
    | lost c t hl hf hr hw hroles => exact absurd (hroles client) (hnot _ rfl)
    | elected c t hl hf hr hw hrole hothers =>
      by_cases hc : client = c
      · rw [hc, hrole] at hsettler
        cases hsettler
      · exact absurd (hothers client hc) (hnot _ rfl)
    | settled c t w' hcloses hf hw hroles =>
      rcases hroles client with hr | hr <;> rw [hsettler] at hr <;> cases hr
    | writing c t w' hl hf hr hw hrole hothers =>
      obtain rfl : client = c := by
        by_contra hc
        exact hnot _ rfl (hothers client hc)
      rw [hrole] at hsettler
      cases hsettler
      refine .settled client ticket w (closes_settleLane hr ticket w)
        ((settleLane_finalizer s ticket w).trans hf) hw fun u => ?_
      by_cases hu : u = client
      · subst hu
        exact Or.inr (Function.update_self _ _ _)
      · rw [Function.update_of_ne hu]
        exact Or.inl (hothers u hu)

/-- a caller that is not inside `finalize-lane!` calls -/
theorem Stage.call (h : Stage s written rs) (hclient : rs client = .bystander
    ∨ ∃ answer, rs client = .told answer) :
    Stage s written (Function.update rs client .bystander) := by
  have hsame : rs client = .bystander → Function.update rs client .bystander = rs := fun hr => by
    rw [← hr, Function.update_eq_self]
  cases h with
  | settled c t w hcloses hf hw hroles =>
    refine .settled c t w hcloses hf hw fun u => ?_
    by_cases hu : u = client
    · subst hu
      exact Or.inl (Function.update_self _ _ _)
    · rw [Function.update_of_ne hu]
      exact hroles u
  | awaited hl hf hr hw hroles =>
    rw [hsame (hroles client)]
    exact .awaited hl hf hr hw hroles
  | lost c t hl hf hr hw hroles =>
    rw [hsame (hroles client)]
    exact .lost c t hl hf hr hw hroles
  | elected c t hl hf hr hw hrole hothers =>
    have hc : client ≠ c := by
      rintro rfl
      rcases hclient with hc | ⟨answer, hc⟩ <;> rw [hrole] at hc <;> cases hc
    rw [hsame (hothers client hc)]
    exact .elected c t hl hf hr hw hrole hothers
  | writing c t w hl hf hr hw hrole hothers =>
    have hc : client ≠ c := by
      rintro rfl
      rcases hclient with hc | ⟨answer, hc⟩ <;> rw [hrole] at hc <;> cases hc
    rw [hsame (hothers client hc)]
    exact .writing c t w hl hf hr hw hrole hothers

theorem Stage.writeFn (h : Stage s written rs) (hclient : rs client = .holder ticket)
    (result : Option (WriteResult ι ρ)) :
    Stage s (written ++ [(client, ticket)])
      (Function.update rs client (result.elim .bystander (.settler ticket))) := by
  have hnot : rs client ≠ .bystander := by
    rw [hclient]
    nofun
  cases h with
  | awaited hl hf hr hw hroles => exact absurd (hroles client) hnot
  | lost c t hl hf hr hw hroles => exact absurd (hroles client) hnot
  | settled c t w hcloses hf hw hroles =>
    rcases hroles client with hr | hr <;> rw [hclient] at hr <;> cases hr
  | writing c t w hl hf hr hw hrole hothers =>
    by_cases hc : client = c
    · rw [hc, hrole] at hclient
      cases hclient
    · exact absurd (hothers client hc) hnot
  | elected c t hl hf hr hw hrole hothers =>
    obtain rfl : client = c := by
      by_contra hc
      exact hnot (hothers client hc)
    rw [hrole] at hclient
    cases hclient
    have hwritten : written ++ [(client, ticket)] = [(client, ticket)] := by rw [hw, List.nil_append]
    have hrest : ∀ (r : Role ι ρ) u, u ≠ client → Function.update rs client r u = .bystander := by
      intro r u hu
      rw [Function.update_of_ne hu]
      exact hothers u hu
    cases result with
    | some w => exact .writing client ticket w hl hf hr hwritten (Function.update_self _ _ _) (hrest _)
    | none =>
      refine .lost client ticket hl hf hr hwritten fun u => ?_
      by_cases hu : u = client
      · subst hu
        exact Function.update_self _ _ _
      · exact hrest _ u hu

/-! ## runs -/

/-- the lane and its callers, with the writes that made the lane -/
structure Finalizing (first : LaneState ι ρ) (w : World κ ι ρ) : Prop where
  linear : Linear attempt first w.cell
  stage : Stage w.cell.value w.written (roles w.cell)

variable {first : LaneState ι ρ} {w : World κ ι ρ}

theorem finalizing_start (generation : ℕ) (opts : OpenOpts ι) :
    Finalizing (laneOpen generation opts) (World.start (laneOpen generation opts) : World κ ι ρ) where
  linear := linear_start
  stage := .awaited (Or.inl rfl) rfl rfl rfl fun _ => rfl

/-- a ready caller that is not inside `finalize-lane!` was told something, or nothing -/
theorem role_of_ready {p : Turn (LaneState ι ρ) (Op ι ρ) (Answer ι ρ)} (h : p.pending = none)
    (hticket : ticketOf p = none) : role p = .bystander ∨ ∃ answer, role p = .told answer := by
  cases p with
  | idle => exact Or.inl rfl
  | called d => cases h
  | holding d n v => cases h
  | done d a =>
    cases a with
    | gated ticket => cases hticket
    | committed result ticket => exact Or.inr ⟨_, rfl⟩
    | aborted reason => exact Or.inr ⟨_, rfl⟩
    | _ => exact Or.inl rfl

theorem linear_moved_pending (h : Linear attempt first c) (client : κ)
    {p : Turn (LaneState ι ρ) (Op ι ρ) (Answer ι ρ)} (hp : p = .idle ∨ ∃ d, p = .called d) :
    Linear attempt first (c.moved client p) := by
  refine h.moved (fun d n v heq => ?_) fun d a heq => ?_
  · rcases hp with rfl | ⟨d', rfl⟩ <;> cases heq
  · rcases hp with rfl | ⟨d', rfl⟩ <;> cases heq

/-- **One move of one caller keeps the order of the writes and the stage.** -/
theorem Finalizing.move (h : Finalizing first w) (m : Move κ ι ρ) : Finalizing first (w.move m) := by
  cases m with
  | call client r =>
    show Finalizing first (if _ then _ else _)
    split
    · next hticket =>
      refine ⟨h.linear.call client _, ?_⟩
      show Stage (w.cell.call client (.request r)).value w.written
        (roles (w.cell.call client (.request r)))
      unfold Cell.call
      split
      · next hpending =>
        rw [roles_moved]
        exact h.stage.call (role_of_ready hpending hticket)
      · exact h.stage
    · exact h
  | turn client =>
    refine ⟨h.linear.turn client, ?_⟩
    show Stage (w.cell.turn attempt client).value w.written (roles (w.cell.turn attempt client))
    rcases turn_cases h.linear client with ⟨hvalue, hroles⟩ | ⟨d, v, a, hpending, hchange, hturn⟩
    · rw [hvalue, hroles]
      exact h.stage
    · rw [hturn, roles_write]
      exact h.stage.write hchange (role_pending hpending)
  | writeFn client result =>
    unfold World.move
    dsimp only
    cases hticket : ticketOf (w.cell.phase client) with
    | none => exact h
    | some ticket =>
      have hholder : roles w.cell client = .holder ticket := holder_iff.mpr hticket
      refine ⟨linear_moved_pending h.linear client ?_, ?_⟩
      · cases result with
        | none => exact Or.inl rfl
        | some r => exact Or.inr ⟨_, rfl⟩
      · have hstage := h.stage.writeFn hholder result
        show Stage w.cell.value _ (roles (w.cell.moved client _))
        rw [roles_moved]
        cases result with
        | none => exact hstage
        | some r => exact hstage

theorem Finalizing.after (h : Finalizing first w) (moves : List (Move κ ι ρ)) :
    Finalizing first (w.after moves) := by
  induction moves generalizing w with
  | nil => exact h
  | cons m moves ih => exact ih (h.move m)

/-! ## tickets -/

/-- a ticket of a lane, and the options it was issued for -/
structure Granted (first : LaneState ι ρ) (ticket : Ticket ι) (opts : FinalizeOpts ι) : Prop where
  generation : ticket.laneGeneration = first.generation
  expectedParent : ticket.expectedParent = first.expectedParentRoot
  closedRoot : ticket.closedRoot = opts.closedResultSetRoot
  basisRoot : ticket.basisRoot = opts.basisRoot
  parent : first.expectedParentRoot.isSome → opts.observedParentRoot = first.expectedParentRoot
  basis : opts.validBasis ≠ some false

/-- what a lane keeps from its opening -/
structure Bound (first s : LaneState ι ρ) : Prop where
  generation : s.generation = first.generation
  expectedParent : s.expectedParentRoot = first.expectedParentRoot
  requiresQuiescence : s.requiresQuiescence = first.requiresQuiescence

theorem Bound.change (h : Bound first s) (hchange : Change d s s' a) : Bound first s' := by
  cases hchange with
  | settled _ ticket w =>
    have hkept : (settleLane s ticket w).1.generation = s.generation
        ∧ (settleLane s ticket w).1.expectedParentRoot = s.expectedParentRoot
        ∧ (settleLane s ticket w).1.requiresQuiescence = s.requiresQuiescence := by
      cases w with
      | threw message => exact ⟨rfl, rfl, rfl⟩
      | returned committed reason => cases committed <;> exact ⟨rfl, rfl, rfl⟩
    exact ⟨hkept.1.trans h.generation, hkept.2.1.trans h.expectedParent,
      hkept.2.2.trans h.requiresQuiescence⟩
  | _ => exact ⟨h.generation, h.expectedParent, h.requiresQuiescence⟩

theorem bound_of_written {writes : List (Op ι ρ × Answer ι ρ)}
    (h : Written attempt first writes s) : Bound first s := by
  induction h with
  | nil => exact ⟨rfl, rfl, rfl⟩
  | snoc _ hattempt ih => exact ih.change (attempt_change hattempt)

/-- **The ticket that a lane keeps was granted by one of its writes**, for the options of that call. -/
theorem granted_of_written {writes : List (Op ι ρ × Answer ι ρ)}
    (h : Written attempt first writes s) (hfirst : first.finalizer = none) {ticket : Ticket ι}
    (hticket : s.finalizer = some ticket) :
    ∃ opts, (.request (.finalizeLane ticket.id opts), .gated ticket) ∈ writes
      ∧ Granted first ticket opts := by
  induction h with
  | nil =>
    rw [hfirst] at hticket
    cases hticket
  | @snoc writes v v' d a hbefore hattempt ih =>
    have hkept : v.finalizer = some ticket → ∃ opts,
        (.request (.finalizeLane ticket.id opts), .gated ticket) ∈ writes ++ [(d, a)]
          ∧ Granted first ticket opts := fun hsame => by
      obtain ⟨opts, hmem, hgranted⟩ := ih hsame
      exact ⟨opts, List.mem_append_left _ hmem, hgranted⟩
    have hbound := bound_of_written hbefore
    have hchange := attempt_change hattempt
    cases hchange with
    | gated _ id opts hadmits =>
      cases hticket
      refine ⟨opts, List.mem_append_right _ (List.mem_singleton_self _), hbound.generation,
        hbound.expectedParent, rfl, rfl, ?_, hadmits.basis⟩
      rw [← hbound.expectedParent]
      exact hadmits.parent
    | settled _ ticket' w => exact hkept ((settleLane_finalizer _ ticket' w).symm.trans hticket)
    | _ => exact hkept hticket

/-- the caller that was told of a commit -/
theorem Stage.committed (h : Stage s written rs) {result : ρ}
    (hclient : rs client = .told (.committed result ticket)) :
    s.lifecycle = .finalized ∧ s.result = some result ∧ s.finalizer = some ticket
      ∧ written.map Prod.snd = [ticket] := by
  have hnot : rs client ≠ .bystander := by
    rw [hclient]
    nofun
  cases h with
  | awaited hl hf hr hw hroles => exact absurd (hroles client) hnot
  | lost c t hl hf hr hw hroles => exact absurd (hroles client) hnot
  | elected c t hl hf hr hw hrole hothers =>
    by_cases hc : client = c
    · rw [hc, hrole] at hclient
      cases hclient
    · exact absurd (hothers client hc) hnot
  | writing c t w hl hf hr hw hrole hothers =>
    by_cases hc : client = c
    · rw [hc, hrole] at hclient
      cases hclient
    · exact absurd (hothers client hc) hnot
  | settled c t w hcloses hf hw hroles =>
    have htold : Role.told (w.answer t) = .told (.committed result ticket) :=
      ((hroles client).resolve_left hnot).symm.trans hclient
    cases w with
    | threw message => cases htold
    | returned committed reason =>
      cases committed with
      | none => cases htold
      | some x =>
        cases htold
        exact ⟨hcloses.1, hcloses.2, hf, by rw [hw]; rfl⟩

theorem Stage.written_once (h : Stage s written rs) :
    written = [] ∨ ∃ client ticket, written = [(client, ticket)] ∧ s.finalizer = some ticket := by
  cases h with
  | awaited hl hf hr hw hroles => exact Or.inl hw
  | elected c t hl hf hr hw hrole hothers => exact Or.inl hw
  | writing c t w hl hf hr hw hrole hothers => exact Or.inr ⟨c, t, hw, hf⟩
  | lost c t hl hf hr hw hroles => exact Or.inr ⟨c, t, hw, hf⟩
  | settled c t w hcloses hf hw hroles => exact Or.inr ⟨c, t, hw, hf⟩

theorem Stage.written_of_over (h : Stage s written rs)
    (hover : s.lifecycle = .finalized ∨ s.lifecycle = .aborted) : written.length = 1 := by
  have hnot : ∀ l, s.lifecycle = l → l ≠ .finalized → l ≠ .aborted → False := by
    rintro l rfl hfinalized haborted
    exact hover.elim hfinalized haborted
  cases h with
  | awaited hl =>
    rcases hl with hl | hl
    · exact (hnot _ hl nofun nofun).elim
    · exact (hnot _ hl nofun nofun).elim
  | elected c t hl => exact (hnot _ hl nofun nofun).elim
  | writing c t w hl => exact (hnot _ hl nofun nofun).elim
  | lost c t hl => exact (hnot _ hl nofun nofun).elim
  | settled c t w hcloses hf hw hroles =>
    rw [hw]
    rfl

/-- **Whatever the callers of a lane do and in whatever order, at most one write function runs, with
the ticket that one call wrote into the lane, which named the parent that the lane was opened for and
no invalid basis; the lane ends only after it, and a caller that hears of a commit hears of the result
that the lane keeps.** -/
theorem one_write (generation : ℕ) (opts : OpenOpts ι) (moves : List (Move κ ι ρ)) :
    let w := (World.start (laneOpen generation opts) : World κ ι ρ).after moves
    w.written.length ≤ 1
      ∧ (∀ client ticket, (client, ticket) ∈ w.written →
        w.cell.value.finalizer = some ticket
          ∧ ∃ o, (.request (.finalizeLane ticket.id o), .gated ticket) ∈ w.cell.writes
            ∧ Granted (laneOpen generation opts : LaneState ι ρ) ticket o)
      ∧ (w.cell.value.lifecycle = .finalized ∨ w.cell.value.lifecycle = .aborted →
        w.written.length = 1)
      ∧ ∀ client d result ticket, w.cell.phase client = .done d (.committed result ticket) →
        w.cell.value.lifecycle = .finalized ∧ w.cell.value.result = some result
          ∧ w.written.map Prod.snd = [ticket] := by
  intro w
  have hw : Finalizing (laneOpen generation opts) w := (finalizing_start generation opts).after moves
  refine ⟨?_, fun client ticket hmem => ?_, hw.stage.written_of_over,
    fun client d result ticket hphase => ?_⟩
  · rcases hw.stage.written_once with hnone | ⟨client, ticket, hone, -⟩
    · rw [hnone]
      exact Nat.zero_le 1
    · rw [hone]
      exact le_rfl
  · rcases hw.stage.written_once with hnone | ⟨client', ticket', hone, hfinalizer⟩
    · rw [hnone] at hmem
      cases hmem
    · rw [hone] at hmem
      cases List.mem_singleton.mp hmem
      exact ⟨hfinalizer, granted_of_written hw.linear.written rfl hfinalizer⟩
  · have hrole : roles w.cell client = .told (.committed result ticket) := by
      rw [roles, hphase]
      rfl
    obtain ⟨hlifecycle, hresult, -, hwritten⟩ := hw.stage.committed hrole
    exact ⟨hlifecycle, hresult, hwritten⟩

/-! ## closure -/

inductive Kind
  | begins
  | ends
  | dispatches
  | quiesces
  | closes
  | finalizes
  | settles
deriving DecidableEq

def Op.kind : Op ι ρ → Kind
  | .request .beginContributor => .begins
  | .request .endContributor => .ends
  | .request .recordExecutorDispatch => .dispatches
  | .request .recordQuiesced => .quiesces
  | .request .closeExecution => .closes
  | .request (.finalizeLane _ _) => .finalizes
  | .settle _ _ => .settles

/-- the writes of a kind -/
def tally (k : Kind) (writes : List (Op ι ρ × Answer ι ρ)) : ℕ :=
  (writes.map fun e => e.1.kind).count k

/-- what may be written while the lane is open -/
def Kind.isWork : Kind → Bool
  | .begins | .ends | .dispatches | .quiesces => true
  | _ => false

/-- no contributor has ended that has not begun -/
def Paired (writes : List (Op ι ρ × Answer ι ρ)) : Prop :=
  ∀ l, l <+: writes → tally .ends l ≤ tally .begins l

variable {writes : List (Op ι ρ × Answer ι ρ)}

theorem tally_concat (k : Kind) (writes : List (Op ι ρ × Answer ι ρ)) (e : Op ι ρ × Answer ι ρ) :
    tally k (writes ++ [e]) = tally k writes + if e.1.kind = k then 1 else 0 := by
  rw [tally, List.map_append, List.count_append, List.map_singleton, List.count_singleton]
  simp [tally]

/-- a lane counts the writes that made it -/
structure Tallied (writes : List (Op ι ρ × Answer ι ρ)) (s : LaneState ι ρ) : Prop where
  dispatched : s.executorBackedPhases = tally .dispatches writes
  quiesced : s.quiescedPhases = tally .quiesces writes
  contributing : Paired writes → s.contributingOpen + tally .ends writes = tally .begins writes

theorem Paired.before {e : Op ι ρ × Answer ι ρ} (h : Paired (writes ++ [e])) : Paired writes :=
  fun l hl => h l (hl.trans (List.prefix_append _ _))

/-- what a write adds to the counters of a lane -/
structure Counts (d : Op ι ρ) (s s' : LaneState ι ρ) : Prop where
  dispatched : s'.executorBackedPhases
    = s.executorBackedPhases + if d.kind = .dispatches then 1 else 0
  quiesced : s'.quiescedPhases = s.quiescedPhases + if d.kind = .quiesces then 1 else 0
  contributing : s'.contributingOpen
    = s.contributingOpen + (if d.kind = .begins then 1 else 0) - if d.kind = .ends then 1 else 0

theorem Change.counts (h : Change d s s' a) : Counts d s s' := by
  cases h with
  | settled _ ticket w =>
    cases w with
    | threw message => exact ⟨rfl, rfl, rfl⟩
    | returned committed reason => cases committed <;> exact ⟨rfl, rfl, rfl⟩
  | _ => exact ⟨rfl, rfl, rfl⟩

theorem Tallied.change (h : Tallied writes s) (hchange : Change d s s' a) :
    Tallied (writes ++ [(d, a)]) s' := by
  have hcounts := hchange.counts
  refine ⟨?_, ?_, fun hp => ?_⟩
  · rw [hcounts.dispatched, h.dispatched, tally_concat]
  · rw [hcounts.quiesced, h.quiesced, tally_concat]
  · have hbefore := h.contributing hp.before
    have hlast := hp _ List.prefix_rfl
    rw [tally_concat, tally_concat] at hlast
    rw [hcounts.contributing, tally_concat, tally_concat]
    dsimp only at hlast ⊢
    omega

theorem tallied_of_written {generation : ℕ} {opts : OpenOpts ι}
    (h : Written attempt (laneOpen generation opts) writes s) : Tallied writes s := by
  induction h with
  | nil => exact ⟨rfl, rfl, fun _ => rfl⟩
  | snoc _ hattempt ih => exact ih.change (attempt_change hattempt)

/-- a lane that is open after a write was open before it, and the write was work -/
theorem Change.opened (h : Change d s s' a) (hopen : s'.lifecycle = .opened) :
    s.lifecycle = .opened ∧ d.kind.isWork = true := by
  cases h with
  | begun _ hl => exact ⟨hl, rfl⟩
  | ended _ hl => exact ⟨hopen, rfl⟩
  | dispatched _ hl => exact ⟨hl, rfl⟩
  | quiesced _ hl => exact ⟨hopen, rfl⟩
  | closed _ hl hready => cases hopen
  | gated _ id opts hadmits => cases hopen
  | settled _ ticket w =>
    cases w with
    | threw message => cases hopen
    | returned committed reason => cases committed <;> cases hopen

/-- what is written to a lane that is not open -/
theorem Change.sealed (h : Change d s s' a) (hopen : s.lifecycle ≠ .opened) :
    d.kind ≠ .begins ∧ d.kind ≠ .dispatches ∧ d.kind ≠ .closes := by
  cases h with
  | begun _ hl => exact absurd hl hopen
  | dispatched _ hl => exact absurd hl hopen
  | closed _ hl hready => exact absurd hl hopen
  | ended _ hl => exact ⟨nofun, nofun, nofun⟩
  | quiesced _ hl => exact ⟨nofun, nofun, nofun⟩
  | gated _ id opts hadmits => exact ⟨nofun, nofun, nofun⟩
  | settled _ ticket w => exact ⟨nofun, nofun, nofun⟩

theorem work_of_opened (h : Written attempt first writes s) (hopen : s.lifecycle = .opened) :
    ∀ e ∈ writes, e.1.kind.isWork = true := by
  induction h with
  | nil => exact fun _ he => absurd he List.not_mem_nil
  | snoc _ hattempt ih =>
    obtain ⟨hbefore, hwork⟩ := (attempt_change hattempt).opened hopen
    intro e he
    rcases List.mem_append.mp he with he | he
    · exact ih hbefore e he
    · cases List.mem_singleton.mp he
      exact hwork

theorem sealed_of_closed (h : Written attempt first writes s) (hfirst : first.lifecycle ≠ .opened) :
    s.lifecycle ≠ .opened ∧ ∀ e ∈ writes,
      e.1.kind ≠ .begins ∧ e.1.kind ≠ .dispatches ∧ e.1.kind ≠ .closes := by
  induction h with
  | nil => exact ⟨hfirst, fun _ he => absurd he List.not_mem_nil⟩
  | snoc _ hattempt ih =>
    have hchange := attempt_change hattempt
    refine ⟨fun hopen => ih.1 (hchange.opened hopen).1, fun e he => ?_⟩
    rcases List.mem_append.mp he with he | he
    · exact ih.2 e he
    · cases List.mem_singleton.mp he
      exact hchange.sealed ih.1

/-- **A lane is closed after all its contributors have ended and its phases are quiesced, before
anyone finalizes it, and from then on nothing contributes to it.** -/
theorem closed_for_good (generation : ℕ) (opts : OpenOpts ι) (moves : List (Move κ ι ρ))
    {before after : List (Op ι ρ × Answer ι ρ)} {closure : Op ι ρ × Answer ι ρ}
    (hclosure : closure.1.kind = .closes)
    (hwrites : ((World.start (laneOpen generation opts) : World κ ι ρ).after moves).cell.writes
      = before ++ closure :: after) :
    (Paired before → tally .ends before = tally .begins before)
      ∧ (opts.requiresQuiescence ≠ some false →
        tally .quiesces before = tally .dispatches before)
      ∧ (∀ e ∈ before, e.1.kind.isWork = true)
      ∧ ∀ e ∈ after, e.1.kind ≠ .begins ∧ e.1.kind ≠ .dispatches ∧ e.1.kind ≠ .closes := by
  have hw := (finalizing_start (κ := κ) (ρ := ρ) generation opts).after moves
  have hwritten := hw.linear.written
  rw [hwrites] at hwritten
  obtain ⟨v, v₁, hbefore, hattempt, hafter⟩ := hwritten.at_write
  have htallied := tallied_of_written hbefore
  have hbound : Bound _ v := bound_of_written hbefore
  have hchange := attempt_change hattempt
  obtain ⟨d, a⟩ := closure
  cases hchange with
  | closed _ hopen hready =>
    refine ⟨fun hpaired => ?_, fun hrequired => ?_, work_of_opened hbefore hopen,
      (sealed_of_closed hafter (by nofun)).2⟩
    · have hcontributing := htallied.contributing hpaired
      rw [hready.contributors] at hcontributing
      omega
    · have hrequires : v.requiresQuiescence = true := by
        rw [hbound.requiresQuiescence]
        show opts.requiresQuiescence.getD true = true
        cases hopts : opts.requiresQuiescence with
        | none => rfl
        | some b =>
          rw [hopts] at hrequired
          cases b with
          | true => rfl
          | false => exact absurd rfl hrequired
      rw [← htallied.quiesced, ← htallied.dispatched, hready.quiesced hrequires]
  | _ => cases hclosure

end

/-- a contributor and a phase, the closure, and two finalizers -/
def laneSample : List (Move ℕ ℕ ℕ) :=
  let opts : FinalizeOpts ℕ := ⟨some 7, some 8, some 9, some true⟩
  let alone (client : ℕ) (r : Request ℕ) : List (Move ℕ ℕ ℕ) :=
    [.call client r, .turn client, .turn client]
  alone 0 .beginContributor ++ alone 1 .recordExecutorDispatch ++ alone 0 .endContributor
    ++ alone 1 .recordQuiesced ++ alone 2 .closeExecution
    ++ [.call 3 (.finalizeLane 30 opts), .call 4 (.finalizeLane 40 opts), .turn 3, .turn 4, .turn 4,
        .turn 3, .writeFn 4 (some (.returned (some 5) none)), .turn 4, .turn 4]

theorem closed_for_good_sample :
    let work : List (Op ℕ ℕ × Answer ℕ ℕ) :=
      [(.request .beginContributor, .accepted), (.request .recordExecutorDispatch, .accepted),
       (.request .endContributor, .accepted), (.request .recordQuiesced, .accepted)]
    (Paired work → tally .ends work = tally .begins work)
      ∧ tally .quiesces work = tally .dispatches work :=
  have h := closed_for_good 1 ⟨some 7, none⟩ laneSample (κ := ℕ) (ι := ℕ) (ρ := ℕ)
    (rfl : ((.request .closeExecution, .closed) : Op ℕ ℕ × Answer ℕ ℕ).1.kind = .closes) rfl
  ⟨h.1, h.2.1 nofun⟩

end PRF.Finalization
