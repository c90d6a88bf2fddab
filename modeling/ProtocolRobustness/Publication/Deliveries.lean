import ProtocolRobustness.Publication.CompletionRuns

/-!
# One delivery

* `Delivering`   each realization is delivered at most once, as its frozen record says;
* `Traced`       what is delivered was committed before;
* `Kept`, `frozen_once`   the record of a realization that is frozen stays;
* `delivered_once`   the three in every interleaving.
-/

set_option linter.unusedSectionVars false

namespace PRF.Publication
open CompareAndSet PRF.Finalization Table

section
variable {κ ι ε τ μ ν : Type} [DecidableEq κ] [DecidableEq ι] [DecidableEq τ] [DecidableEq μ]
  [DecidableEq ν] {R : Roots κ ι} {V : Validation κ ι ε} {C : Commitments ι ε}
  {w w' : Completion κ ι ε τ μ ν} {first : μ → LaneState ι (Reply ι)}

/-! ## deliveries -/

structure Delivering (w : Completion κ ι ε τ μ ν) : Prop where
  observed : ∀ r o, (w.realizations r).observation = some o →
    (w.realizations r).lifecycle = .finalized
      ∧ o.effective = effective (w.realizations r).phases
      ∧ (w.realizations r).executorBackedPhases = (w.realizations r).successfullyQuiescedPhases
  unemitted : ∀ r, (w.realizations r).emitted = false → r ∉ w.delivered.map Delivery.realization
  delivered : ∀ d ∈ w.delivered, (w.realizations d.realization).observation = some d.observation
  once : (w.delivered.map Delivery.realization).Nodup

/-- how a realization can change while its observation and its delivery stay -/
structure Steady (r r' : Realization ι) : Prop where
  emitted : r'.emitted = r.emitted
  observation : r.observation = none ∨ r' = r
  observed : ∀ o, r'.observation = some o → r' = r ∨ r'.lifecycle = .finalized
    ∧ o.effective = effective r'.phases ∧ r'.executorBackedPhases = r'.successfullyQuiescedPhases

theorem Delivering.steady (h : Delivering w) {r : ν} {r' : Realization ι}
    (hr : Steady (w.realizations r) r') : Delivering (w.realization r r') := by
  have hat : ∀ x, (w.realization r r').realizations x = if x = r then r' else w.realizations x := by
    intro x
    show Function.update w.realizations r r' x = _
    rw [Function.update_apply]
  refine ⟨fun x o ho => ?_, fun x hx => ?_, fun d hd => ?_, h.once⟩
  · rw [hat] at ho ⊢
    split at ho
    · next heq =>
      rw [if_pos heq]
      rcases hr.observed o ho with hsame | hnew
      · rw [hsame] at ho ⊢
        exact h.observed r o ho
      · exact hnew
    · next hne =>
      rw [if_neg hne]
      exact h.observed x o ho
  · rw [hat] at hx
    split at hx
    · next heq =>
      rw [hr.emitted] at hx
      rw [heq]
      exact h.unemitted r hx
    · exact h.unemitted x hx
  · have hold := h.delivered d hd
    rw [hat]
    split
    · next heq =>
      rw [heq] at hold
      rcases hr.observation with hnone | hsame
      · rw [hnone] at hold
        cases hold
      · rwa [hsame]
    · exact hold

/-- nothing of the realizations and the deliveries changes -/
theorem Delivering.same (h : Delivering w) (hrealizations : w'.realizations = w.realizations)
    (hdelivered : w'.delivered = w.delivered) : Delivering w' := by
  refine ⟨?_, ?_, ?_, ?_⟩
  · rw [hrealizations]
    exact h.observed
  · rw [hrealizations, hdelivered]
    exact h.unemitted
  · rw [hrealizations, hdelivered]
    exact h.delivered
  · rw [hdelivered]
    exact h.once

theorem Delivering.no_observation (h : Delivering w) {r : ν}
    (hr : (w.realizations r).lifecycle ≠ .finalized) : (w.realizations r).observation = none := by
  rw [Option.eq_none_iff_forall_ne_some]
  exact fun o ho => hr (h.observed r o ho).1

theorem record_cases (r : Realization ι) (fact : Fact) :
    fact.record r = r ∨ r.lifecycle = .opened ∧ (fact.record r).observation = r.observation
      ∧ (fact.record r).emitted = r.emitted ∧ (fact.record r).lifecycle = .opened := by
  cases fact with
  | fact phase =>
    by_cases hopen : r.lifecycle = .opened
    · exact Or.inr ⟨hopen, by simp [Fact.record, recordFact, hopen],
        by simp [Fact.record, recordFact, hopen], by simp [Fact.record, recordFact, hopen]⟩
    · exact Or.inl (if_neg hopen)
  | executorDispatch parallelism =>
    by_cases hopen : r.lifecycle = .opened
    · exact Or.inr ⟨hopen, by simp [Fact.record, recordExecutorDispatch, hopen],
        by simp [Fact.record, recordExecutorDispatch, hopen], by simp [Fact.record, recordExecutorDispatch, hopen]⟩
    · exact Or.inl (if_neg hopen)
  | quiesced =>
    by_cases hopen : r.lifecycle = .opened
    · exact Or.inr ⟨hopen, by simp [Fact.record, Publication.recordQuiesced, hopen],
        by simp [Fact.record, Publication.recordQuiesced, hopen], by simp [Fact.record, Publication.recordQuiesced, hopen]⟩
    · exact Or.inl (if_neg hopen)

theorem Delivering.report (h : Delivering w) (r : ν) (fact : Fact) :
    Delivering (w.realization r (fact.record (w.realizations r))) := by
  refine h.steady ?_
  rcases record_cases (w.realizations r) fact with hsame | ⟨hopen, hobservation, hemitted, -⟩
  · exact ⟨by rw [hsame], Or.inr hsame, fun o ho => Or.inl hsame⟩
  · have hnone := h.no_observation (r := r) (by rw [hopen]; nofun)
    refine ⟨hemitted, Or.inl hnone, fun o ho => ?_⟩
    rw [hobservation, hnone] at ho
    cases ho

theorem Delivering.freeze (h : Delivering w) {r : ν} {r' : Realization ι}
    (hr : freeze (w.realizations r) = some r') : Delivering (w.realization r r') := by
  unfold Publication.freeze at hr
  split at hr
  · next hopen =>
    cases hr
    have hnone := h.no_observation (r := r) (by rw [hopen]; nofun)
    refine h.steady ⟨rfl, Or.inl hnone, fun o ho => ?_⟩
    rw [show ({ w.realizations r with lifecycle := .frozen } : Realization ι).observation
      = (w.realizations r).observation from rfl, hnone] at ho
    cases ho
  · cases hr

theorem Delivering.finalize (h : Delivering w) {r : ν} {r' : Realization ι} {root : Option ι}
    (hr : finalize (w.realizations r) root = some r') : Delivering (w.realization r r') := by
  unfold Publication.finalize at hr
  split at hr
  · cases hr
  · next hfrozen =>
    split at hr
    · cases hr
    · next hquiesced =>
      cases hr
      have hnone := h.no_observation (r := r) (by rw [not_not.mp hfrozen]; nofun)
      refine h.steady ⟨rfl, Or.inl hnone, fun o ho => Or.inr ⟨rfl, ?_, not_not.mp hquiesced⟩⟩
      obtain ⟨root', -, rfl⟩ := Option.map_eq_some_iff.mp ho
      rfl

theorem emit_cases {r r' : Realization ι} {sink : Bool} {o : Option (Observation ι)}
    (h : emit r sink = some (r', o)) :
    r' = r ∧ o = none ∨ ∃ observation, r.emitted = false ∧ r.observation = some observation
      ∧ r' = { r with emitted := true } ∧ o = some observation := by
  unfold emit at h
  split at h
  · cases h
  · split at h
    · cases h
      exact Or.inl ⟨rfl, rfl⟩
    · next hemitted =>
      cases ho : r.observation with
      | none =>
        rw [ho] at h
        cases h
        exact Or.inl ⟨rfl, rfl⟩
      | some observation =>
        rw [ho] at h
        dsimp only at h
        split at h <;> cases h
        · refine Or.inr ⟨observation, ?_, rfl, ?_, rfl⟩
          · simpa using hemitted
          · rfl
        · exact Or.inl ⟨rfl, rfl⟩

/-- **A realization is delivered once, with the observation it keeps.** -/
theorem Delivering.emit (h : Delivering w) {p : Projection κ ι ν} {r : Realization ι}
    {o : Option (Observation ι)} (hr : emit (w.realizations p.realization) p.sink = some (r, o)) :
    Delivering { w.realization p.realization r with
      delivered := w.delivered ++ o.toList.map fun o =>
        ⟨p.realization, o, p.conflictKey, p.orderingRoot⟩ } := by
  rcases emit_cases hr with ⟨rfl, rfl⟩ | ⟨observation, hemitted, hobservation, rfl, rfl⟩
  · refine h.same ?_ (List.append_nil _)
    exact Function.update_eq_self _ _
  · have hat : ∀ x, (w.realization p.realization
        { w.realizations p.realization with emitted := true }).realizations x
          = if x = p.realization then { w.realizations p.realization with emitted := true }
            else w.realizations x := by
      intro x
      show Function.update w.realizations _ _ x = _
      rw [Function.update_apply]
    have hkept : ∀ x, ((w.realization p.realization
        { w.realizations p.realization with emitted := true }).realizations x).observation
          = (w.realizations x).observation := by
      intro x
      rw [hat]
      split
      · next heq => rw [heq]
      · rfl
    refine ⟨fun x o ho => ?_, fun x hx => ?_, fun d hd => ?_, ?_⟩
    · have ho' := (hkept x).symm.trans ho
      have hold := h.observed x o ho'
      dsimp only
      rw [hat]
      split
      · next heq =>
        rw [heq] at hold
        exact hold
      · exact hold
    · dsimp only at hx ⊢
      rw [hat] at hx
      split at hx
      · cases hx
      · next hne =>
        rw [List.map_append, List.mem_append, not_or]
        refine ⟨h.unemitted x hx, ?_⟩
        simpa using hne
    · dsimp only at hd ⊢
      rw [hkept]
      rcases List.mem_append.mp hd with hd | hd
      · exact h.delivered d hd
      · obtain rfl := List.mem_singleton.mp hd
        exact hobservation
    · dsimp only
      rw [List.map_append]
      refine List.nodup_append'.mpr ⟨h.once, List.nodup_singleton _, ?_⟩
      intro x hx hx'
      obtain rfl := List.mem_singleton.mp hx'
      exact h.unemitted _ hemitted hx

theorem Delivering.effect (h : Delivering w) (heffect : Effect R V C w w') : Delivering w' := by
  cases heffect with
  | froze t job parent version r ht hr => exact (h.freeze hr).same rfl rfl
  | finalized t p r ht hr => exact (h.finalize hr).same rfl rfl
  | emitted t p r o ht hr => exact (h.emit hr).same rfl rfl
  | reported r fact => exact h.report r fact
  | _ => exact h.same rfl rfl

/-! ## what is delivered was committed -/

/-- the conflict keys with the ordering roots that a thread goes by -/
def Thread.cites : Thread κ ι ε μ ν → List (κ × ι)
  | .resolvingBinding p head => head.lastOrderingRoot.toList.map (p.conflictKey, ·)
  | .resolvingOrdering p head _ => head.lastOrderingRoot.toList.map (p.conflictKey, ·)
  | .recovering p => [(p.conflictKey, p.expectedOrderingRoot)]
  | .finalizing p => [(p.conflictKey, p.orderingRoot)]
  | .emitting p => [(p.conflictKey, p.orderingRoot)]
  | _ => []

def InHistory (w : Completion κ ι ε τ μ ν) (k : κ) (orderingRoot : ι) : Prop :=
  ∃ e ∈ history w.log k, e.ordering.hash = orderingRoot

structure Traced (w : Completion κ ι ε τ μ ν) : Prop where
  cited : ∀ t, ∀ e ∈ (w.threads t).cites, InHistory w e.1 e.2
  delivered : ∀ d ∈ w.delivered, InHistory w d.conflictKey d.orderingRoot

/-- what was published stays, and so does what the threads have in hand -/
theorem Traced.mono (h : Traced w) (hlog : ∀ k, history w.log k <+: history w'.log k)
    (hthreads : ∀ t, ∀ e ∈ (w'.threads t).cites, e ∈ (w.threads t).cites ∨ InHistory w e.1 e.2)
    (hdelivered : ∀ d ∈ w'.delivered, d ∈ w.delivered
      ∨ InHistory w d.conflictKey d.orderingRoot) : Traced w' := by
  have hgrow : ∀ k root, InHistory w k root → InHistory w' k root :=
    fun k root ⟨e, he, hroot⟩ => ⟨e, (hlog k).subset he, hroot⟩
  refine ⟨fun t e he => ?_, fun d hd => ?_⟩
  · rcases hthreads t e he with he | he
    · exact hgrow _ _ (h.cited t e he)
    · exact hgrow _ _ he
  · rcases hdelivered d hd with hd | hd
    · exact hgrow _ _ (h.delivered d hd)
    · exact hgrow _ _ hd

/-- one thread moves on, and goes by publications that are in the history -/
theorem Traced.thread (h : Traced w) (t : τ) {next : Thread κ ι ε μ ν}
    (hnext : ∀ e ∈ next.cites, InHistory w e.1 e.2) : Traced (w.thread t next) := by
  refine h.mono (fun k => List.prefix_rfl) (fun t' e he => ?_) fun d hd => Or.inl hd
  rcases thread_cases (w := w) (q := (w.thread t next).threads t') rfl with ⟨-, hq⟩ | hq
  · rw [← hq] at he
    exact Or.inr (hnext e he)
  · rw [← hq] at he
    exact Or.inl he

/-- one thread moves on, and goes by no publication -/
theorem Traced.moved (h : Traced w) (t : τ) {next : Thread κ ι ε μ ν} (hnext : next.cites = []) :
    Traced (w.thread t next) := by
  refine h.thread t fun e he => ?_
  rw [hnext] at he
  cases he

theorem Traced.publish (h : Traced w) (l : Option μ) (q : Submission κ ι ε) :
    Traced (w.publish R V l q).1 := by
  refine h.mono (fun k => ?_) (fun t e he => Or.inl he) fun d hd => Or.inl hd
  show _ <+: history ((w.published ++ [_]).map Prod.snd) k
  rw [List.map_append, history_append]
  exact List.prefix_append _ _

theorem inHistory_of_mem {l : Option μ} {q : Submission κ ι ε} {head : Head ι} {o b : ι}
    (h : (l, q, .ok (.committed head o b)) ∈ w.published) :
    InHistory w q.ordering.conflictKey q.ordering.hash := by
  refine ⟨⟨head, q.binding, q.ordering⟩, ?_, rfl⟩
  exact List.mem_filterMap.mpr ⟨_, List.mem_map_of_mem h, if_pos rfl⟩

theorem Stored.head_cited (h : Stored R w) {k : κ} {head : Head ι} {version : ℕ} {root : ι}
    (hhead : currentHeadAndVersion R w.store k = some (head, version))
    (hroot : head.lastOrderingRoot = some root) : InHistory w k root := by
  rw [h.holds.head k] at hhead
  split at hhead
  · obtain ⟨rfl, -⟩ := Prod.mk.inj (Option.some.inj hhead)
    rw [(h.holds.chained k).tip.ordering] at hroot
    obtain ⟨e, he, rfl⟩ := Option.map_eq_some_iff.mp hroot
    exact ⟨e, List.mem_of_getLast? he, rfl⟩
  · cases hhead

theorem Traced.effect (h : Traced w) (hlawful : Lawful R first w) (heffect : Effect R V C w w') :
    Traced w' := by
  cases heffect with
  | stayed => exact h
  | parked t p hp => rcases hp with rfl | rfl <;> exact h.moved t rfl
  | fenced t job parent version hparent => exact h.moved t rfl
  | headRead t p head version hhead =>
    refine h.thread t fun e he => ?_
    obtain ⟨root, hroot, rfl⟩ := List.mem_map.mp he
    exact hlawful.stored.head_cited hhead (Option.mem_toList.mp hroot)
  | bindingRead t p head binding ht =>
    refine h.thread t fun e he => h.cited t e ?_
    rwa [ht]
  | orderingRead t p head binding ht hordering =>
    refine h.thread t fun e he => h.cited t e ?_
    rw [ht, List.mem_singleton.mp he]
    exact List.mem_map_of_mem (Option.mem_toList.mpr hordering)
  | recovered t p next hnext ht =>
    refine h.thread t fun e he => h.cited t e ?_
    rw [ht]
    rcases hnext with rfl | rfl <;> exact he
  | froze t job parent version r ht hr =>
    have h₁ : Traced (w.realization job.realization r) := ⟨h.cited, h.delivered⟩
    exact h₁.moved t rfl
  | closed t job parent version s a ht hs =>
    have h₁ : Traced (w.lane job.lane s) := ⟨h.cited, h.delivered⟩
    exact h₁.moved t rfl
  | elected t job parent version ticket s ht hs =>
    have h₁ : Traced (w.lane job.lane s) := ⟨h.cited, h.delivered⟩
    exact h₁.moved t rfl
  | committed t job parent version ticket ht => exact (h.publish _ _).moved t rfl
  | settled t job ticket told ht =>
    have h₁ : Traced (w.lane job.lane
        (settleLane (w.lanes job.lane) ticket (writeResult told)).1) := ⟨h.cited, h.delivered⟩
    refine h₁.thread t fun e he => ?_
    rcases afterLane_cases job (w.lanes job.lane) ticket told with
      ⟨head, o, b, rfl, heq⟩ | heq | heq <;> rw [heq] at he
    · obtain ⟨q, hq, hmem⟩ := hlawful.laned.told t job ticket _ ht
      have hin := inHistory_of_mem hmem
      rw [List.mem_singleton.mp he]
      rw [hq] at hin
      exact hin
    · cases he
    · cases he
  | finalized t p r ht hr =>
    have h₁ : Traced (w.realization p.realization r) := ⟨h.cited, h.delivered⟩
    refine h₁.thread t fun e he => h.cited t e ?_
    rwa [ht]
  | emitted t p r o ht hr =>
    have h₁ : Traced ((w.realization p.realization r).thread t .returned) :=
      (⟨h.cited, h.delivered⟩ : Traced (w.realization p.realization r)).moved t rfl
    refine h₁.mono (fun k => List.prefix_rfl) (fun t' e he => Or.inl he) fun d hd => ?_
    rcases List.mem_append.mp hd with hd | hd
    · exact Or.inl hd
    · obtain ⟨o', -, rfl⟩ := List.mem_map.mp hd
      exact Or.inr (h.cited t (p.conflictKey, p.orderingRoot) (by rw [ht]; exact List.mem_singleton_self _))
  | called l call s a hs => exact ⟨h.cited, h.delivered⟩
  | reported r fact => exact ⟨h.cited, h.delivered⟩
  | published q => exact h.publish none q

/-! ## what a realization was frozen with -/

/-- an open realization is frozen with its record, and one that is not open keeps it -/
structure Kept (r r' : Realization ι) : Prop where
  sealed : r'.lifecycle = .opened → r.lifecycle = .opened
  record : r'.lifecycle ≠ .opened → r'.record = r.record

theorem Kept.refl (r : Realization ι) : Kept r r := ⟨id, fun _ => rfl⟩

theorem kept_update {r' : Realization ι} {x : ν} (h : Kept (w.realizations x) r') (y : ν) :
    Kept (w.realizations y) ((w.realization x r').realizations y) := by
  show Kept _ (Function.update w.realizations x r' y)
  by_cases hy : y = x
  · subst hy
    rwa [Function.update_self]
  · rw [Function.update_of_ne hy]
    exact .refl _

theorem kept_report (r : Realization ι) (fact : Fact) : Kept r (fact.record r) := by
  rcases record_cases r fact with hsame | ⟨hopen, -, -, hstill⟩
  · rw [hsame]
    exact .refl r
  · exact ⟨fun _ => hopen, fun hne => absurd hstill hne⟩

/-- **One move freezes a realization with its record, or leaves the record of a frozen one.** -/
theorem Effect.kept (h : Effect R V C w w') (r : ν) : Kept (w.realizations r) (w'.realizations r) := by
  cases h with
  | froze t job parent version r' ht hr =>
    refine kept_update (w := w) ?_ r
    unfold freeze at hr
    split at hr
    · next hopen =>
      cases hr
      exact ⟨fun _ => hopen, fun _ => rfl⟩
    · cases hr
  | finalized t p r' ht hr =>
    refine kept_update (w := w) ?_ r
    unfold finalize at hr
    split at hr
    · cases hr
    · split at hr <;> cases hr
      exact ⟨nofun, fun _ => rfl⟩
  | emitted t p r' o ht hr =>
    refine kept_update (w := w) ?_ r
    rcases emit_cases hr with ⟨rfl, -⟩ | ⟨observation, -, -, rfl, -⟩
    · exact .refl _
    · exact ⟨id, fun _ => rfl⟩
  | reported r' fact => exact kept_update (kept_report _ fact) r
  | _ => exact .refl _

theorem after_concat (w : Completion κ ι ε τ μ ν) (steps : List (Step κ ι ε τ μ ν))
    (step : Step κ ι ε τ μ ν) :
    w.after R V C (steps ++ [step]) = (w.after R V C steps).move R V C step :=
  List.foldl_concat ..

/-- **A realization that is not open any more was frozen by one of the moves, and its record has been
the same ever since.** -/
theorem frozen_once {r : ν} (hfirst : (w.realizations r).lifecycle = .opened)
    (steps : List (Step κ ι ε τ μ ν))
    (hlast : ((w.after R V C steps).realizations r).lifecycle ≠ .opened) :
    ∃ before step rest, steps = before ++ step :: rest
      ∧ ((w.after R V C before).realizations r).lifecycle = .opened
      ∧ ∀ l, l <+: rest → ((w.after R V C (before ++ step :: l)).realizations r).lifecycle ≠ .opened
        ∧ ((w.after R V C (before ++ step :: l)).realizations r).record
          = ((w.after R V C before).realizations r).record := by
  induction steps using List.reverseRecOn with
  | nil => exact absurd hfirst hlast
  | append_singleton steps step ih =>
    have hkept : Kept ((w.after R V C steps).realizations r)
        ((w.after R V C (steps ++ [step])).realizations r) := by
      rw [after_concat]
      exact (move_effect _ step).kept r
    by_cases hopen : ((w.after R V C steps).realizations r).lifecycle = .opened
    · refine ⟨steps, step, [], rfl, hopen, fun l hl => ?_⟩
      rw [List.prefix_nil.mp hl]
      exact ⟨hlast, hkept.record hlast⟩
    · obtain ⟨before, step', rest, rfl, hbefore, hrest⟩ := ih hopen
      refine ⟨before, step', rest ++ [step], by simp, hbefore, fun l hl => ?_⟩
      rcases List.prefix_concat_iff.mp hl with rfl | hl
      · have hall : before ++ step' :: (rest ++ [step]) = before ++ step' :: rest ++ [step] := by simp
        rw [hall]
        exact ⟨hlast, (hkept.record hlast).trans (hrest rest List.prefix_rfl).2⟩
      · exact hrest l hl

/-! ## runs -/

/-- the whole invariant -/
structure Sound (R : Roots κ ι) (first : μ → LaneState ι (Reply ι))
    (w : Completion κ ι ε τ μ ν) : Prop extends Lawful R first w where
  delivering : Delivering w
  traced : Traced w

theorem sound_start (generation : μ → ℕ) (opts : μ → OpenOpts ι) :
    Sound R (fun l => laneOpen (generation l) (opts l))
      (Completion.start fun l => laneOpen (generation l) (opts l) : Completion κ ι ε τ μ ν) where
  toLawful := lawful_start generation opts
  delivering :=
    { observed := fun _ _ h => by cases h
      unemitted := fun _ _ h => by cases h
      delivered := fun _ h => by cases h
      once := List.nodup_nil }
  traced :=
    { cited := fun _ _ h => by cases h
      delivered := fun _ h => by cases h }

theorem Sound.after (hR : Function.Injective R.partitionId) (h : Sound R first w)
    (steps : List (Step κ ι ε τ μ ν)) : Sound R first (w.after R V C steps) := by
  induction steps generalizing w with
  | nil => exact h
  | cons step steps ih =>
    have heffect : Effect R V C w (w.move R V C step) := move_effect w step
    exact ih ⟨h.toLawful.effect hR heffect, h.delivering.effect heffect,
      h.traced.effect h.toLawful heffect⟩

variable (V C) in
/-- **A realization is delivered at most once, after the publication it belongs to was committed; one
move froze it, and from then on its record stays: the observation says what it said then, with all
executors quiesced.** -/
theorem delivered_once (hR : Function.Injective R.partitionId) (generation : μ → ℕ)
    (opts : μ → OpenOpts ι) (steps : List (Step κ ι ε τ μ ν)) :
    let start : Completion κ ι ε τ μ ν := Completion.start fun l => laneOpen (generation l) (opts l)
    let w := start.after R V C steps
    (w.delivered.map Delivery.realization).Nodup
      ∧ ∀ d ∈ w.delivered,
        (∃ e ∈ history (w.published.map Prod.snd) d.conflictKey, e.ordering.hash = d.orderingRoot)
          ∧ ∃ before step rest, steps = before ++ step :: rest
            ∧ let frozen := (start.after R V C before).realizations d.realization
              frozen.lifecycle = .opened
              ∧ d.observation.effective = effective frozen.phases
              ∧ frozen.executorBackedPhases = frozen.successfullyQuiescedPhases
              ∧ ∀ l, l <+: rest →
                let later := (start.after R V C (before ++ step :: l)).realizations d.realization
                later.lifecycle ≠ .opened ∧ later.record = frozen.record := by
  intro start w
  have h : Sound R _ w := (sound_start generation opts).after hR steps
  refine ⟨h.delivering.once, fun d hd => ⟨h.traced.delivered d hd, ?_⟩⟩
  obtain ⟨hlifecycle, heffective, hquiesced⟩ :=
    h.delivering.observed _ _ (h.delivering.delivered d hd)
  have hlast : (w.realizations d.realization).lifecycle ≠ .opened := by
    rw [hlifecycle]
    nofun
  obtain ⟨before, step, rest, hsteps, hopen, hrest⟩ := frozen_once (w := start) rfl steps hlast
  have hend : (w.realizations d.realization).record
      = ((start.after R V C before).realizations d.realization).record := by
    have hall := (hrest rest List.prefix_rfl).2
    rwa [← hsteps] at hall
  obtain ⟨hphases, hcounts⟩ := Prod.mk.inj hend
  obtain ⟨hbacked, hquiescedAt⟩ := Prod.mk.inj hcounts
  refine ⟨before, step, rest, hsteps, hopen, ?_, ?_, hrest⟩
  · rw [heffective, hphases]
  · rw [← hbacked, hquiesced, hquiescedAt]

end

theorem delivered_once_sample :
    let w := (Completion.start fun l => laneOpen l (sampleOpts l)).after sampleRoots sampleValidation
      sampleCommitments sampleSteps
    (w.delivered.map Delivery.realization).Nodup
      ∧ w.delivered.map Delivery.realization = [0] :=
  have h := delivered_once (R := sampleRoots) sampleValidation sampleCommitments (fun _ _ h => h)
    (fun l => l) sampleOpts sampleSteps
  ⟨h.1, by decide⟩

end PRF.Publication
