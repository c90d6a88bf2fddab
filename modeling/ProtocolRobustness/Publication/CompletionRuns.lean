import ProtocolRobustness.Publication.Completion

/-!
# One lane, one publication

* `Effect`, `move_effect`   all that one move can do to the system;
* `Stored`       the store holds the history of what was published, and callers were told the truth;
* `Laned`        each lane publishes at most once, for the parent it was opened for;
* `published_once`   the two in every interleaving.
-/

set_option linter.unusedSectionVars false

namespace PRF.Publication
open CompareAndSet PRF.Finalization Table

section
variable {κ ι ε τ μ ν : Type} [DecidableEq κ] [DecidableEq ι] [DecidableEq τ] [DecidableEq μ]
  [DecidableEq ν] {R : Roots κ ι} {V : Validation κ ι ε} {C : Commitments ι ε}

/-! ## moves -/

inductive Effect (R : Roots κ ι) (V : Validation κ ι ε) (C : Commitments ι ε)
    (w : Completion κ ι ε τ μ ν) : Completion κ ι ε τ μ ν → Prop
  | stayed : Effect R V C w w
  | parked (t : τ) (p : Thread κ ι ε μ ν) (hp : p = .threw ∨ p = .returned) :
      Effect R V C w (w.thread t p)
  | fenced (t : τ) (job : Job κ ι ε μ ν) (parent : ι) (version : ℕ)
      (hparent : some parent = (w.lanes job.lane).expectedParentRoot) :
      Effect R V C w (w.thread t (.freezing job parent version))
  | headRead (t : τ) (p : Repair κ ι ν) (head : Head ι) (version : ℕ)
      (hhead : currentHeadAndVersion R w.store p.conflictKey = some (head, version)) :
      Effect R V C w (w.thread t (.resolvingBinding p head))
  | bindingRead (t : τ) (p : Repair κ ι ν) (head : Head ι) (binding : Binding ι)
      (ht : w.threads t = .resolvingBinding p head) :
      Effect R V C w (w.thread t (.resolvingOrdering p head binding))
  | orderingRead (t : τ) (p : Repair κ ι ν) (head : Head ι) (binding : Binding ι)
      (ht : w.threads t = .resolvingOrdering p head binding)
      (hordering : head.lastOrderingRoot = some p.expectedOrderingRoot) :
      Effect R V C w (w.thread t (.recovering p))
  | recovered (t : τ) (p : Repair κ ι ν) (next : Thread κ ι ε μ ν)
      (hnext : next = .finalizing p.projection ∨ next = .emitting p.projection)
      (ht : w.threads t = .recovering p) : Effect R V C w (w.thread t next)
  | froze (t : τ) (job : Job κ ι ε μ ν) (parent : ι) (version : ℕ) (r : Realization ι)
      (ht : w.threads t = .freezing job parent version)
      (hr : freeze (w.realizations job.realization) = some r) :
      Effect R V C w ((w.realization job.realization r).thread t (.closing job parent version))
  | closed (t : τ) (job : Job κ ι ε μ ν) (parent : ι) (version : ℕ) (s : LaneState ι (Reply ι))
      (a : Finalization.Answer ι (Reply ι)) (ht : w.threads t = .closing job parent version)
      (hs : Change (.request .closeExecution) (w.lanes job.lane) s a) :
      Effect R V C w ((w.lane job.lane s).thread t (.electing job parent version))
  | elected (t : τ) (job : Job κ ι ε μ ν) (parent : ι) (version : ℕ) (ticket : Ticket ι)
      (s : LaneState ι (Reply ι)) (ht : w.threads t = .electing job parent version)
      (hs : Change (.request (.finalizeLane job.ticketId (job.options C parent)))
        (w.lanes job.lane) s (.gated ticket)) :
      Effect R V C w ((w.lane job.lane s).thread t (.committing job parent version ticket))
  | committed (t : τ) (job : Job κ ι ε μ ν) (parent : ι) (version : ℕ) (ticket : Ticket ι)
      (ht : w.threads t = .committing job parent version ticket) :
      Effect R V C w ((w.publish R V (some job.lane) (job.submission parent version)).1.thread t
        (.settling job ticket (w.publish R V (some job.lane) (job.submission parent version)).2))
  | settled (t : τ) (job : Job κ ι ε μ ν) (ticket : Ticket ι) (told : Except Failure (Reply ι))
      (ht : w.threads t = .settling job ticket told) :
      Effect R V C w
        ((w.lane job.lane (settleLane (w.lanes job.lane) ticket (writeResult told)).1).thread t
          (afterLane job (settleLane (w.lanes job.lane) ticket (writeResult told)).2))
  | finalized (t : τ) (p : Projection κ ι ν) (r : Realization ι) (ht : w.threads t = .finalizing p)
      (hr : finalize (w.realizations p.realization) p.runtimeProfileRoot = some r) :
      Effect R V C w ((w.realization p.realization r).thread t (.emitting p))
  | emitted (t : τ) (p : Projection κ ι ν) (r : Realization ι) (o : Option (Observation ι))
      (ht : w.threads t = .emitting p)
      (hr : emit (w.realizations p.realization) p.sink = some (r, o)) :
      Effect R V C w { (w.realization p.realization r).thread t .returned with
        delivered := w.delivered ++ o.toList.map fun o =>
          ⟨p.realization, o, p.conflictKey, p.orderingRoot⟩ }
  | called (l : μ) (call : LaneCall) (s : LaneState ι (Reply ι))
      (a : Finalization.Answer ι (Reply ι))
      (hs : Change (.request call.request) (w.lanes l) s a) : Effect R V C w (w.lane l s)
  | reported (r : ν) (fact : Fact) :
      Effect R V C w (w.realization r (fact.record (w.realizations r)))
  | published (q : Submission κ ι ε) : Effect R V C w (w.publish R V none q).1

variable {w w' : Completion κ ι ε τ μ ν}

theorem advanceThread_effect (w : Completion κ ι ε τ μ ν) (t : τ) :
    Effect R V C w (advanceThread R V C w t) := by
  unfold advanceThread
  cases ht : w.threads t with
  | ready | returned | threw => exact .stayed
  | freezing job parent version =>
    dsimp only
    cases hr : freeze (w.realizations job.realization) with
    | none => exact .parked t _ (Or.inl rfl)
    | some r => exact .froze t job parent version r ht hr
  | closing job parent version =>
    dsimp only
    cases hs : attempt (.request .closeExecution) (w.lanes job.lane) with
    | answer a => exact .parked t _ (Or.inl rfl)
    | write s a => exact .closed t job parent version s a ht (attempt_change hs)
  | electing job parent version =>
    dsimp only
    cases hs : attempt (.request (.finalizeLane job.ticketId (job.options C parent)))
        (w.lanes job.lane) with
    | answer a => exact .parked t _ (Or.inl rfl)
    | write s a =>
      cases a with
      | gated ticket => exact .elected t job parent version ticket s ht (attempt_change hs)
      | _ => exact .parked t _ (Or.inl rfl)
  | committing job parent version ticket => exact .committed t job parent version ticket ht
  | settling job ticket told => exact .settled t job ticket told ht
  | resolvingBinding p head =>
    dsimp only
    cases head.applicationBindingRoot.bind (resolveBinding R w.store) with
    | none => exact .parked t _ (Or.inl rfl)
    | some binding => exact .bindingRead t p head binding ht
  | resolvingOrdering p head binding =>
    dsimp only
    cases head.lastOrderingRoot.bind (resolveOrdering R w.store) with
    | none => exact .parked t _ (Or.inl rfl)
    | some ordering =>
      dsimp only
      split
      · next hidentifies =>
        exact .orderingRead t p head binding ht hidentifies.2.2.2.2.1
      · exact .parked t _ (Or.inl rfl)
  | recovering p =>
    dsimp only
    unfold recover
    cases (w.realizations p.realization).lifecycle with
    | opened => exact .parked t _ (Or.inl rfl)
    | frozen => exact .recovered t p _ (Or.inl rfl) ht
    | finalized => exact .recovered t p _ (Or.inr rfl) ht
  | finalizing p =>
    dsimp only
    cases hr : finalize (w.realizations p.realization) p.runtimeProfileRoot with
    | none => exact .parked t _ (Or.inl rfl)
    | some r => exact .finalized t p r ht hr
  | emitting p =>
    dsimp only
    cases hr : emit (w.realizations p.realization) p.sink with
    | none => exact .parked t _ (Or.inl rfl)
    | some result => exact .emitted t p result.1 result.2 ht hr

theorem beginFinalize_effect (w : Completion κ ι ε τ μ ν) (t : τ) (job : Job κ ι ε μ ν) :
    Effect R V C w (w.thread t (beginFinalize R V C w job)) := by
  unfold beginFinalize
  dsimp only
  split
  · exact .parked t _ (Or.inl rfl)
  · split
    · exact .parked t _ (Or.inl rfl)
    · next hparent => exact .fenced t job _ _ (not_not.mp hparent)

theorem beginReconcile_effect (w : Completion κ ι ε τ μ ν) (t : τ) (p : Repair κ ι ν) :
    Effect R V C w (w.thread t (beginReconcile R w p)) := by
  unfold beginReconcile
  cases hhead : currentHeadAndVersion R w.store p.conflictKey with
  | none => exact .parked t _ (Or.inl rfl)
  | some read => exact .headRead t p read.1 read.2 hhead

/-- **All that one move can do to the system.** -/
theorem move_effect (w : Completion κ ι ε τ μ ν) (step : Step κ ι ε τ μ ν) :
    Effect R V C w (w.move R V C step) := by
  cases step with
  | beginFinalize t job =>
    unfold Completion.move
    dsimp only
    split
    · exact beginFinalize_effect w t job
    · exact beginFinalize_effect w t job
    · exact beginFinalize_effect w t job
    · exact .stayed
  | beginReconcile t p =>
    unfold Completion.move
    dsimp only
    split
    · exact beginReconcile_effect w t p
    · exact beginReconcile_effect w t p
    · exact beginReconcile_effect w t p
    · exact .stayed
  | advance t => exact advanceThread_effect w t
  | die t => exact .parked t _ (Or.inl rfl)
  | lane l call =>
    unfold Completion.move
    dsimp only
    cases hs : attempt (.request call.request) (w.lanes l) with
    | answer a => exact .stayed
    | write s a => exact .called l call s a (attempt_change hs)
  | report r fact => exact .reported r fact
  | publish q => exact .published q

/-! ## the store -/

def Completion.log (w : Completion κ ι ε τ μ ν) : Log κ ι ε := w.published.map Prod.snd

structure Stored (R : Roots κ ι) (w : Completion κ ι ε τ μ ν) : Prop where
  holds : Holds R w.store (history w.log)
  truthful : Truthful (fun _ => []) w.log

theorem Truthful.concat {H : κ → List (Resolution κ ι)} {log : Log κ ι ε} (h : Truthful H log)
    {q : Submission κ ι ε} {told : Except Failure (Reply ι)}
    (hfailure : ∀ f, told = .error f → ¬ f.unexpected)
    (hcommitted : ∀ e, committedOf q.ordering.conflictKey (q, told) = some e →
      e.head.predecessorRoot = q.expectedParentRoot
        ∧ q.expectedStoreVersion
          = some (H q.ordering.conflictKey ++ history log q.ordering.conflictKey).length) :
    Truthful H (log ++ [(q, told)]) := by
  induction log generalizing H with
  | nil =>
    refine ⟨hfailure, fun e he => ?_, trivial⟩
    have h' := hcommitted e he
    rwa [history, List.filterMap_nil, List.append_nil] at h'
  | cons entry log ih =>
    obtain ⟨hf, hc, hrest⟩ := h
    refine ⟨hf, hc, ih hrest fun e he => ?_⟩
    have h' := hcommitted e he
    rwa [history_cons, ← List.append_assoc] at h'

theorem Stored.publish (hR : Function.Injective R.partitionId) (h : Stored R w) (l : Option μ)
    (q : Submission κ ι ε) : Stored R (w.publish R V l q).1 := by
  have hpublished : Published R q (history w.log) (w.store.publish R V q).1
      (w.store.publish R V q).2 := h.holds.publish hR q
  have hlog : (w.publish R V l q).1.log = w.log ++ [(q, (w.store.publish R V q).2)] := by
    show (w.published ++ [_]).map Prod.snd = _
    rw [List.map_append]
    rfl
  refine ⟨?_, ?_⟩
  · rw [hlog]
    have heq : history (w.log ++ [(q, (w.store.publish R V q).2)])
        = fun k => history w.log k ++ (committedOf k (q, (w.store.publish R V q).2)).toList := by
      funext k
      rw [history_append, history_cons]
      exact congrArg _ (List.append_nil _)
    rw [heq]
    exact hpublished.holds
  · rw [hlog]
    exact h.truthful.concat hpublished.truthful.1 hpublished.truthful.2

theorem Stored.effect (hR : Function.Injective R.partitionId) (h : Stored R w)
    (heffect : Effect R V C w w') : Stored R w' := by
  cases heffect with
  | committed t job parent version ticket ht => exact ⟨(h.publish hR _ _).1, (h.publish hR _ _).2⟩
  | published q => exact h.publish hR _ q
  | _ => exact ⟨h.holds, h.truthful⟩

/-! ## lanes -/

/-- the lane that a thread has won the gate of -/
def Thread.holds : Thread κ ι ε μ ν → Option μ
  | .committing job _ _ _ => some job.lane
  | .settling job _ _ => some job.lane
  | _ => none

/-- the parent that a thread goes by, and its lane -/
def Thread.fence : Thread κ ι ε μ ν → Option (μ × ι)
  | .freezing job parent _ => some (job.lane, parent)
  | .closing job parent _ => some (job.lane, parent)
  | .electing job parent _ => some (job.lane, parent)
  | .committing job parent _ _ => some (job.lane, parent)
  | _ => none

/-- the publications that went through a lane -/
def Completion.writes (w : Completion κ ι ε τ μ ν) (l : μ) : ℕ :=
  (w.published.map Prod.fst).count (some l)

def Early (s : LaneState ι (Reply ι)) : Prop :=
  s.lifecycle = .opened ∨ s.lifecycle = .executionClosed

structure Laned (first : μ → LaneState ι (Reply ι)) (w : Completion κ ι ε τ μ ν) : Prop where
  bound : ∀ l, Bound (first l) (w.lanes l)
  early : ∀ l, Early (w.lanes l) → w.writes l = 0
  finalizing : ∀ t l, (w.threads t).holds = some l → (w.lanes l).lifecycle = .finalizing
  committing : ∀ t job parent version ticket,
    w.threads t = .committing job parent version ticket → w.writes job.lane = 0
  unique : ∀ t t' l, (w.threads t).holds = some l → (w.threads t').holds = some l → t = t'
  once : ∀ l, w.writes l ≤ 1
  fence : ∀ t l parent, (w.threads t).fence = some (l, parent) →
    some parent = (first l).expectedParentRoot
  parents : ∀ l q told, (some l, q, told) ∈ w.published →
    q.expectedParentRoot = (first l).expectedParentRoot
  told : ∀ t job ticket told, w.threads t = .settling job ticket told →
    ∃ q, q.ordering = job.ordering ∧ (some job.lane, q, told) ∈ w.published
  result : ∀ l reply, (w.lanes l).result = some reply → ∃ q, (some l, q, .ok reply) ∈ w.published

variable {first : μ → LaneState ι (Reply ι)}

theorem thread_cases {t t' : τ} {p q : Thread κ ι ε μ ν} (h : (w.thread t p).threads t' = q) :
    t' = t ∧ p = q ∨ w.threads t' = q := by
  have hupdate : Function.update w.threads t p t' = q := h
  rw [Function.update_apply] at hupdate
  split at hupdate
  · next ht => exact Or.inl ⟨ht, hupdate⟩
  · exact Or.inr hupdate

theorem thread_self (w : Completion κ ι ε τ μ ν) (t : τ) (p : Thread κ ι ε μ ν) :
    (w.thread t p).threads t = p := by
  show Function.update w.threads t p t = p
  rw [Function.update_self]

/-- a thread that holds no lane moves on -/
theorem Laned.thread (h : Laned first w) (t : τ) {p : Thread κ ι ε μ ν} (hholds : p.holds = none)
    (hfence : ∀ l parent, p.fence = some (l, parent) → some parent = (first l).expectedParentRoot) :
    Laned first (w.thread t p) := by
  have hback : ∀ t' l, ((w.thread t p).threads t').holds = some l → (w.threads t').holds = some l := by
    intro t' l hl
    rcases thread_cases (w := w) (q := (w.thread t p).threads t') rfl with ⟨-, hq⟩ | hq
    · rw [← hq, hholds] at hl
      cases hl
    · rwa [hq]
  refine ⟨h.bound, h.early, fun t' l hl => h.finalizing t' l (hback t' l hl), ?_,
    fun t₁ t₂ l h₁ h₂ => h.unique t₁ t₂ l (hback t₁ l h₁) (hback t₂ l h₂), h.once, ?_, h.parents, ?_,
    h.result⟩
  · intro t' job parent version ticket ht'
    rcases thread_cases ht' with ⟨-, hq⟩ | hq
    · rw [hq] at hholds
      cases hholds
    · exact h.committing t' job parent version ticket hq
  · intro t' l parent hl
    rcases thread_cases (w := w) (q := (w.thread t p).threads t') rfl with ⟨-, hq⟩ | hq
    · rw [← hq] at hl
      exact hfence l parent hl
    · rw [← hq] at hl
      exact h.fence t' l parent hl
  · intro t' job ticket told ht'
    rcases thread_cases ht' with ⟨-, hq⟩ | hq
    · rw [hq] at hholds
      cases hholds
    · exact h.told t' job ticket told hq

theorem Laned.quiet (h : Laned first w) {l : μ} {s : LaneState ι (Reply ι)}
    {a : Finalization.Answer ι (Reply ι)} {r : Finalization.Request ι}
    (hchange : Change (.request r) (w.lanes l) s a) (hquiet : Quiet (w.lanes l) s a) :
    Laned first (w.lane l s) := by
  have hlane : ∀ l', (w.lane l s).lanes l' = if l' = l then s else w.lanes l' := by
    intro l'
    show Function.update w.lanes l s l' = _
    rw [Function.update_apply]
  refine ⟨fun l' => ?_, fun l' he => ?_, fun t l' hl => ?_, h.committing, h.unique, h.once, h.fence,
    h.parents, h.told, fun l' reply hr => ?_⟩
  · rw [hlane]
    split
    · next heq =>
      rw [heq]
      exact (h.bound l).change hchange
    · exact h.bound l'
  · rw [hlane] at he
    split at he
    · next heq =>
      rw [heq]
      refine h.early l ?_
      rcases hquiet.lifecycle with ⟨hsame, -⟩ | ⟨hopen, -⟩
      · rwa [Early, hsame] at he
      · exact Or.inl hopen
    · exact h.early l' he
  · have hf := h.finalizing t l' hl
    rw [hlane]
    split
    · next heq =>
      rw [heq] at hf
      rcases hquiet.lifecycle with ⟨hsame, -⟩ | ⟨hopen, -⟩
      · rw [hsame, hf]
      · rw [hopen] at hf
        cases hf
    · exact hf
  · rw [hlane] at hr
    split at hr
    · next heq =>
      rw [hquiet.result] at hr
      rw [heq]
      exact h.result l reply hr
    · exact h.result l' reply hr

theorem quiet_of_ne {s s' : LaneState ι (Reply ι)} {a : Finalization.Answer ι (Reply ι)}
    {r : Finalization.Request ι} (hchange : Change (.request r) s s' a)
    (hr : ∀ id opts, r ≠ .finalizeLane id opts) : Quiet s s' a := by
  rcases hchange.quiet_or_gated with hq | ⟨id, opts, heq, -⟩
  · exact hq
  · exact absurd heq (hr id opts)

theorem LaneCall.not_finalize (call : LaneCall) (id : ι) (opts : FinalizeOpts ι) :
    call.request ≠ .finalizeLane id opts := by
  cases call <;> nofun

/-- a thread wins the gate of a lane that nothing went through -/
theorem Laned.elect (h : Laned first w) {t : τ} {job : Job κ ι ε μ ν} {parent : ι} {version : ℕ}
    {ticket : Ticket ι} {s : LaneState ι (Reply ι)} {opts : FinalizeOpts ι} {id : ι}
    (ht : w.threads t = .electing job parent version)
    (hchange : Change (.request (.finalizeLane id opts)) (w.lanes job.lane) s (.gated ticket)) :
    Laned first ((w.lane job.lane s).thread t (.committing job parent version ticket)) := by
  have hadmits : Admits (w.lanes job.lane) opts ∧ s.lifecycle = .finalizing
      ∧ s.result = (w.lanes job.lane).result := by
    rcases hchange.quiet_or_gated with hq | ⟨id', opts', heq, hadmits, rfl, -⟩
    · cases hq.role
    · cases heq
      exact ⟨hadmits, rfl, rfl⟩
  obtain ⟨hadmits, hlifecycle, hresult⟩ := hadmits
  have hnone : ∀ t', (w.threads t').holds ≠ some job.lane := by
    intro t' hl
    have hf := h.finalizing t' _ hl
    rw [hadmits.lifecycle] at hf
    cases hf
  have hzero : w.writes job.lane = 0 := h.early _ (Or.inr hadmits.lifecycle)
  have hlane : ∀ l', (w.lane job.lane s).lanes l' = if l' = job.lane then s else w.lanes l' := by
    intro l'
    show Function.update w.lanes job.lane s l' = _
    rw [Function.update_apply]
  have hholds : ∀ t' l', (((w.lane job.lane s).thread t
      (.committing job parent version ticket)).threads t').holds = some l' →
      t' = t ∧ l' = job.lane ∨ l' ≠ job.lane ∧ (w.threads t').holds = some l' := by
    intro t' l' hl
    rcases thread_cases (w := w.lane job.lane s) (q := _) rfl with ⟨ht', hq⟩ | hq
    · rw [← hq] at hl
      exact Or.inl ⟨ht', (Option.some.inj hl).symm⟩
    · rw [← hq] at hl
      refine Or.inr ⟨?_, hl⟩
      rintro rfl
      exact hnone t' hl
  refine ⟨fun l' => ?_, fun l' he => ?_, fun t' l' hl => ?_, fun t' job' p' v' k' ht' => ?_,
    fun t₁ t₂ l' h₁ h₂ => ?_, h.once, fun t' l' p' hl => ?_, h.parents, fun t' job' k' told ht' => ?_,
    fun l' reply hr => ?_⟩
  · show Bound (first l') ((w.lane job.lane s).lanes l')
    rw [hlane]
    split
    · next heq =>
      rw [heq]
      exact (h.bound _).change hchange
    · exact h.bound l'
  · have he' : Early ((w.lane job.lane s).lanes l') := he
    rw [hlane] at he'
    split at he'
    · rw [Early, hlifecycle] at he'
      rcases he' with he' | he' <;> cases he'
    · exact h.early l' he'
  · show ((w.lane job.lane s).lanes l').lifecycle = _
    rw [hlane]
    rcases hholds t' l' hl with ⟨-, heq⟩ | ⟨hne, hl⟩
    · rw [if_pos heq, hlifecycle]
    · rw [if_neg hne]
      exact h.finalizing t' l' hl
  · rcases thread_cases ht' with ⟨-, hq⟩ | hq
    · cases hq
      exact hzero
    · exact h.committing t' job' p' v' k' hq
  · rcases hholds t₁ l' h₁ with ⟨rfl, heq⟩ | ⟨hne, h₁⟩ <;>
      rcases hholds t₂ l' h₂ with ⟨rfl, heq'⟩ | ⟨hne', h₂⟩
    · rfl
    · exact absurd heq hne'
    · exact absurd heq' hne
    · exact h.unique t₁ t₂ l' h₁ h₂
  · rcases thread_cases (w := w.lane job.lane s) (q := _) rfl with ⟨-, hq⟩ | hq
    · rw [← hq] at hl
      cases hl
      exact h.fence t _ _ (by rw [ht]; rfl)
    · rw [← hq] at hl
      exact h.fence t' l' p' hl
  · rcases thread_cases ht' with ⟨-, hq⟩ | hq
    · cases hq
    · exact h.told t' job' k' told hq
  · have hr' : ((w.lane job.lane s).lanes l').result = some reply := hr
    rw [hlane] at hr'
    split at hr'
    · next heq =>
      rw [heq]
      exact h.result _ reply (hresult ▸ hr')
    · exact h.result l' reply hr'

theorem writes_publish (l : Option μ) (q : Submission κ ι ε) (l' : μ) :
    (w.publish R V l q).1.writes l' = w.writes l' + if l = some l' then 1 else 0 := by
  show ((w.published ++ [_]).map Prod.fst).count (some l') = _
  rw [List.map_append, List.count_append, List.map_singleton, List.count_singleton]
  simp [Completion.writes]

theorem mem_publish {l l' : Option μ} {q q' : Submission κ ι ε} {told : Except Failure (Reply ι)}
    (h : (l', q', told) ∈ (w.publish R V l q).1.published) :
    (l', q', told) ∈ w.published ∨ l' = l ∧ q' = q := by
  rcases List.mem_append.mp h with h | h
  · exact Or.inl h
  · cases List.mem_singleton.mp h
    exact Or.inr ⟨rfl, rfl⟩

/-- a publication that goes through no lane -/
theorem Laned.publish (h : Laned first w) (q : Submission κ ι ε) :
    Laned first (w.publish R V none q).1 := by
  have hwrites : ∀ l, (w.publish R V none q).1.writes l = w.writes l := by
    intro l
    rw [writes_publish, if_neg (by nofun), Nat.add_zero]
  refine ⟨h.bound, fun l he => ?_, h.finalizing, fun t job p v k ht => ?_, h.unique, fun l => ?_,
    h.fence, fun l q' told hmem => ?_, fun t job ticket told ht => ?_, fun l reply hr => ?_⟩
  · rw [hwrites]
    exact h.early l he
  · rw [hwrites]
    exact h.committing t job p v k ht
  · rw [hwrites]
    exact h.once l
  · rcases mem_publish hmem with hmem | ⟨hnone, -⟩
    · exact h.parents l q' told hmem
    · cases hnone
  · obtain ⟨q', hq', hmem⟩ := h.told t job ticket told ht
    exact ⟨q', hq', List.mem_append_left _ hmem⟩
  · obtain ⟨q', hmem⟩ := h.result l reply hr
    exact ⟨q', List.mem_append_left _ hmem⟩

/-- the thread that won the gate publishes -/
theorem Laned.commit (h : Laned first w) {t : τ} {job : Job κ ι ε μ ν} {parent : ι} {version : ℕ}
    {ticket : Ticket ι} (ht : w.threads t = .committing job parent version ticket) :
    Laned first ((w.publish R V (some job.lane) (job.submission parent version)).1.thread t
      (.settling job ticket (w.publish R V (some job.lane) (job.submission parent version)).2)) := by
  set w₁ := (w.publish R V (some job.lane) (job.submission parent version)).1 with hw₁
  set told := (w.publish R V (some job.lane) (job.submission parent version)).2 with htold
  have hthold : (w.threads t).holds = some job.lane := by rw [ht]; rfl
  have hlane : (w.lanes job.lane).lifecycle = .finalizing := h.finalizing t _ hthold
  have hwrites : ∀ l, w₁.writes l = w.writes l + if some job.lane = some l then 1 else 0 :=
    fun l => writes_publish _ _ l
  have hother : ∀ l, l ≠ job.lane → w₁.writes l = w.writes l := by
    intro l hl
    rw [hwrites, if_neg fun heq => hl (Option.some.inj heq).symm, Nat.add_zero]
  have hholds : ∀ t' l, ((w₁.thread t (.settling job ticket told)).threads t').holds = some l →
      (w.threads t').holds = some l := by
    intro t' l hl
    rcases thread_cases (w := w₁) (q := _) rfl with ⟨heq, hq⟩ | hq
    · rw [← hq] at hl
      rw [heq, hthold]
      exact hl
    · rw [← hq] at hl
      exact hl
  refine ⟨h.bound, fun l he => ?_, fun t' l hl => h.finalizing t' l (hholds t' l hl),
    fun t' job' p' v' k' ht' => ?_,
    fun t₁ t₂ l h₁ h₂ => h.unique t₁ t₂ l (hholds t₁ l h₁) (hholds t₂ l h₂), fun l => ?_,
    fun t' l p' hl => ?_, fun l q told' hmem => ?_, fun t' job' k' told' ht' => ?_,
    fun l reply hr => ?_⟩
  · have hl : l ≠ job.lane := by
      rintro rfl
      have he' : Early (w.lanes job.lane) := he
      rw [Early, hlane] at he'
      rcases he' with he' | he' <;> cases he'
    exact (hother l hl).trans (h.early l he)
  · rcases thread_cases ht' with ⟨-, hq⟩ | hq
    · cases hq
    · have ht'' : w.threads t' = .committing job' p' v' k' := hq
      have hl : job'.lane ≠ job.lane := by
        intro heq
        have heq' : t' = t := h.unique t' t job.lane (by rw [ht'', ← heq]; rfl) hthold
        rw [heq', ht] at ht''
        rw [heq', thread_self] at ht'
        cases ht'
      exact (hother _ hl).trans (h.committing t' job' p' v' k' ht'')
  · by_cases hl : l = job.lane
    · have hzero := h.committing t job parent version ticket ht
      show w₁.writes l ≤ 1
      rw [hl, hwrites, if_pos rfl, hzero]
    · exact (hother l hl).le.trans (h.once l)
  · rcases thread_cases (w := w₁) (q := _) rfl with ⟨-, hq⟩ | hq
    · rw [← hq] at hl
      cases hl
    · rw [← hq] at hl
      exact h.fence t' l p' hl
  · rcases mem_publish hmem with hmem | ⟨heq, hq⟩
    · exact h.parents l q told' hmem
    · cases heq
      rw [hq]
      exact h.fence t job.lane parent (by rw [ht]; rfl)
  · rcases thread_cases ht' with ⟨-, hq⟩ | hq
    · cases hq
      exact ⟨job.submission parent version, rfl, List.mem_append_right _ List.mem_cons_self⟩
    · obtain ⟨q, hq', hmem⟩ := h.told t' job' k' told' hq
      exact ⟨q, hq', List.mem_append_left _ hmem⟩
  · obtain ⟨q, hmem⟩ := h.result l reply hr
    exact ⟨q, List.mem_append_left _ hmem⟩

theorem settleLane_over (s : LaneState ι (Reply ι)) (ticket : Ticket ι)
    (w : WriteResult ι (Reply ι)) :
    (settleLane s ticket w).1.lifecycle = .finalized
      ∨ (settleLane s ticket w).1.lifecycle = .aborted := by
  cases w with
  | threw message => exact Or.inr rfl
  | returned committed reason =>
    cases committed with
    | none => exact Or.inr rfl
    | some result => exact Or.inl rfl

theorem settleLane_result {s : LaneState ι (Reply ι)} {ticket : Ticket ι}
    {told : Except Failure (Reply ι)} {reply : Reply ι}
    (h : (settleLane s ticket (writeResult told)).1.result = some reply) :
    s.result = some reply ∨ told = .ok reply := by
  cases told with
  | error f => exact Or.inl h
  | ok r =>
    cases r with
    | committed head o b =>
      cases h
      exact Or.inr rfl
    | idempotent head o b =>
      cases h
      exact Or.inr rfl
    | _ => exact Or.inl h

theorem afterLane_cases (job : Job κ ι ε μ ν) (s : LaneState ι (Reply ι)) (ticket : Ticket ι)
    (told : Except Failure (Reply ι)) :
    (∃ head o b, told = .ok (.committed head o b)
        ∧ afterLane job (settleLane s ticket (writeResult told)).2 = .finalizing job.projection)
      ∨ afterLane job (settleLane s ticket (writeResult told)).2 = .returned
      ∨ afterLane job (settleLane s ticket (writeResult told)).2 = .threw := by
  cases told with
  | error f => exact Or.inr (Or.inr rfl)
  | ok r =>
    cases r with
    | committed head o b => exact Or.inl ⟨head, o, b, rfl, rfl⟩
    | idempotent head o b => exact Or.inr (Or.inl rfl)
    | _ => exact Or.inr (Or.inr rfl)

/-- the thread that published settles its lane -/
theorem Laned.settle (h : Laned first w) {t : τ} {job : Job κ ι ε μ ν} {ticket : Ticket ι}
    {told : Except Failure (Reply ι)} (ht : w.threads t = .settling job ticket told) :
    Laned first
      ((w.lane job.lane (settleLane (w.lanes job.lane) ticket (writeResult told)).1).thread t
        (afterLane job (settleLane (w.lanes job.lane) ticket (writeResult told)).2)) := by
  set s := (settleLane (w.lanes job.lane) ticket (writeResult told)).1 with hs
  set next := afterLane job (settleLane (w.lanes job.lane) ticket (writeResult told)).2 with hnext
  have hthold : (w.threads t).holds = some job.lane := by rw [ht]; rfl
  have hnone : next.holds = none ∧ next.fence = none := by
    rcases afterLane_cases job (w.lanes job.lane) ticket told with ⟨-, -, -, -, heq⟩ | heq | heq <;>
      rw [hnext, heq] <;> exact ⟨rfl, rfl⟩
  have hlane : ∀ l', (w.lane job.lane s).lanes l' = if l' = job.lane then s else w.lanes l' := by
    intro l'
    show Function.update w.lanes job.lane s l' = _
    rw [Function.update_apply]
  have hholds : ∀ t' l', (((w.lane job.lane s).thread t next).threads t').holds = some l' →
      l' ≠ job.lane ∧ (w.threads t').holds = some l' := by
    intro t' l' hl
    rcases thread_cases (w := w.lane job.lane s) (q := _) rfl with ⟨-, hq⟩ | hq
    · rw [← hq, hnone.1] at hl
      cases hl
    · have hold : (w.threads t').holds = some l' := by
        rw [← hq] at hl
        exact hl
      refine ⟨?_, hold⟩
      rintro rfl
      have heq := h.unique t' t _ hold hthold
      rw [heq, thread_self, hnone.1] at hl
      cases hl
  have hchange : Change (.settle ticket (writeResult told)) (w.lanes job.lane) s
      (settleLane (w.lanes job.lane) ticket (writeResult told)).2 := .settled _ _ _
  refine ⟨fun l' => ?_, fun l' he => ?_, fun t' l' hl => ?_, fun t' job' p' v' k' ht' => ?_,
    fun t₁ t₂ l' h₁ h₂ => h.unique t₁ t₂ l' (hholds t₁ l' h₁).2 (hholds t₂ l' h₂).2, h.once,
    fun t' l' p' hl => ?_, h.parents, fun t' job' k' told' ht' => ?_, fun l' reply hr => ?_⟩
  · show Bound (first l') ((w.lane job.lane s).lanes l')
    rw [hlane]
    split
    · next heq =>
      rw [heq]
      exact (h.bound _).change hchange
    · exact h.bound l'
  · have he' : Early ((w.lane job.lane s).lanes l') := he
    rw [hlane] at he'
    split at he'
    · rcases settleLane_over (w.lanes job.lane) ticket (writeResult told) with hover | hover <;>
        rw [Early, hs, hover] at he' <;> rcases he' with he' | he' <;> cases he'
    · exact h.early l' he'
  · obtain ⟨hne, hl⟩ := hholds t' l' hl
    show ((w.lane job.lane s).lanes l').lifecycle = _
    rw [hlane, if_neg hne]
    exact h.finalizing t' l' hl
  · rcases thread_cases ht' with ⟨-, hq⟩ | hq
    · rw [hq] at hnone
      cases hnone.1
    · exact h.committing t' job' p' v' k' hq
  · rcases thread_cases (w := w.lane job.lane s) (q := _) rfl with ⟨-, hq⟩ | hq
    · rw [← hq, hnone.2] at hl
      cases hl
    · rw [← hq] at hl
      exact h.fence t' l' p' hl
  · rcases thread_cases ht' with ⟨-, hq⟩ | hq
    · rw [hq] at hnone
      cases hnone.1
    · exact h.told t' job' k' told' hq
  · have hr' : ((w.lane job.lane s).lanes l').result = some reply := hr
    rw [hlane] at hr'
    split at hr'
    · next heq =>
      rcases settleLane_result hr' with hold | hnew
      · rw [heq]
        exact h.result _ reply hold
      · obtain ⟨q, -, hmem⟩ := h.told t job ticket told ht
        rw [heq]
        exact ⟨q, hnew ▸ hmem⟩
    · exact h.result l' reply hr'

/-- nothing but a realization or the deliveries changes -/
theorem Laned.same (h : Laned first w) (hlanes : w'.lanes = w.lanes)
    (hthreads : w'.threads = w.threads) (hpublished : w'.published = w.published) :
    Laned first w' := by
  have hwrites : ∀ l, w'.writes l = w.writes l := fun l => by
    rw [Completion.writes, hpublished]
    rfl
  refine ⟨?_, ?_, ?_, ?_, ?_, ?_, ?_, ?_, ?_, ?_⟩
  · rw [hlanes]
    exact h.bound
  · rw [hlanes]
    exact fun l he => (hwrites l).trans (h.early l he)
  · rw [hlanes, hthreads]
    exact h.finalizing
  · rw [hthreads]
    exact fun t job p v k ht => (hwrites _).trans (h.committing t job p v k ht)
  · rw [hthreads]
    exact h.unique
  · exact fun l => (hwrites l).le.trans (h.once l)
  · rw [hthreads]
    exact h.fence
  · rw [hpublished]
    exact h.parents
  · rw [hthreads, hpublished]
    exact h.told
  · rw [hlanes, hpublished]
    exact h.result

/-- **Each move keeps one publication to a lane.** -/
theorem Laned.effect (h : Laned first w) (heffect : Effect R V C w w') : Laned first w' := by
  cases heffect with
  | stayed => exact h
  | parked t p hp => rcases hp with rfl | rfl <;> exact h.thread t rfl nofun
  | fenced t job parent version hparent =>
    refine h.thread t rfl fun l p heq => ?_
    cases heq
    rw [hparent]
    exact (h.bound job.lane).expectedParent
  | headRead t p head version hhead => exact h.thread t rfl nofun
  | bindingRead t p head binding ht => exact h.thread t rfl nofun
  | orderingRead t p head binding ht hordering => exact h.thread t rfl nofun
  | recovered t p next hnext ht => rcases hnext with rfl | rfl <;> exact h.thread t rfl nofun
  | froze t job parent version r ht hr =>
    have h₁ : Laned first (w.realization job.realization r) := h.same rfl rfl rfl
    refine h₁.thread t rfl fun l p heq => ?_
    cases heq
    exact h.fence t _ _ (by rw [ht]; rfl)
  | closed t job parent version s a ht hs =>
    refine (h.quiet hs (quiet_of_ne hs nofun)).thread t rfl fun l p heq => ?_
    cases heq
    exact h.fence t _ _ (by rw [ht]; rfl)
  | elected t job parent version ticket s ht hs => exact h.elect ht hs
  | committed t job parent version ticket ht => exact h.commit ht
  | settled t job ticket told ht => exact h.settle ht
  | finalized t p r ht hr =>
    have h₁ : Laned first (w.realization p.realization r) := h.same rfl rfl rfl
    exact h₁.thread t rfl nofun
  | emitted t p r o ht hr =>
    have h₁ : Laned first (w.realization p.realization r) := h.same rfl rfl rfl
    have h₂ : Laned first ((w.realization p.realization r).thread t .returned) :=
      h₁.thread t rfl nofun
    exact h₂.same rfl rfl rfl
  | called l call s a hs => exact h.quiet hs (quiet_of_ne hs call.not_finalize)
  | reported r fact => exact h.same rfl rfl rfl
  | published q => exact h.publish q

/-! ## runs -/

/-- what the store and the lanes keep -/
structure Lawful (R : Roots κ ι) (first : μ → LaneState ι (Reply ι))
    (w : Completion κ ι ε τ μ ν) : Prop where
  stored : Stored R w
  laned : Laned first w

theorem lawful_start (generation : μ → ℕ) (opts : μ → OpenOpts ι) :
    Lawful R (fun l => laneOpen (generation l) (opts l))
      (Completion.start fun l => laneOpen (generation l) (opts l) : Completion κ ι ε τ μ ν) where
  stored := ⟨holds_empty, trivial⟩
  laned :=
    { bound := fun l => ⟨rfl, rfl, rfl⟩
      early := fun _ _ => rfl
      finalizing := fun _ _ h => by cases h
      committing := fun _ _ _ _ _ h => by cases h
      unique := fun _ _ _ h => by cases h
      once := fun _ => Nat.zero_le 1
      fence := fun _ _ _ h => by cases h
      parents := fun _ _ _ h => by cases h
      told := fun _ _ _ _ h => by cases h
      result := fun _ _ h => by cases h }

theorem Lawful.effect (hR : Function.Injective R.partitionId) (h : Lawful R first w)
    (heffect : Effect R V C w w') : Lawful R first w' :=
  ⟨h.stored.effect hR heffect, h.laned.effect heffect⟩

theorem Lawful.after (hR : Function.Injective R.partitionId) (h : Lawful R first w)
    (steps : List (Step κ ι ε τ μ ν)) : Lawful R first (w.after R V C steps) := by
  induction steps generalizing w with
  | nil => exact h
  | cons step steps ih => exact ih (h.effect hR (move_effect w step))

variable (V C) in
/-- **However the threads, the workers and the other publishers are interleaved, a lane publishes at
most once, what it commits follows the parent it was opened for, and the result it keeps is what that
publication was told.** -/
theorem published_once (hR : Function.Injective R.partitionId) (generation : μ → ℕ)
    (opts : μ → OpenOpts ι) (steps : List (Step κ ι ε τ μ ν)) :
    let w := (Completion.start fun l => laneOpen (generation l) (opts l)).after R V C steps
    (∀ l, w.writes l ≤ 1)
      ∧ (∀ l q told e, (some l, q, told) ∈ w.published →
        committedOf q.ordering.conflictKey (q, told) = some e →
          e.head.predecessorRoot = (opts l).expectedParentRoot)
      ∧ ∀ l reply, (w.lanes l).result = some reply → ∃ q, (some l, q, .ok reply) ∈ w.published := by
  intro w
  have h : Lawful R _ w := (lawful_start generation opts).after hR steps
  refine ⟨h.laned.once, fun l q told e hmem he => ?_, h.laned.result⟩
  have hparent := h.stored.truthful.parents _ (List.mem_map_of_mem hmem) _ e he
  exact hparent.trans (h.laned.parents l q told hmem)

end

def sampleCommitments : Commitments ℕ Unit := ⟨fun _ => true, fun _ => 9⟩

/-- lanes for the initial head -/
def sampleOpts (_ : ℕ) : OpenOpts ℕ := ⟨some 200, none⟩

def sampleJob (t : ℕ) : Job ℕ ℕ Unit ℕ ℕ where
  realization := 0
  lane := 0
  ordering := (sampleSubmission 0).ordering
  binding := (sampleSubmission 0).binding
  resolved := ()
  runtimeProfileRoot := some 500
  sink := true
  ticketId := 600 + t

/-- a phase on four workers, and two threads that finalize the same execution -/
def sampleSteps : List (Step ℕ ℕ Unit ℕ ℕ ℕ) :=
  [.lane 0 .recordExecutorDispatch, .report 0 (.executorDispatch 4), .lane 0 .recordQuiesced,
    .report 0 .quiesced, .beginFinalize 1 (sampleJob 1), .beginFinalize 2 (sampleJob 2)]
    ++ List.replicate 7 (.advance 1) ++ List.replicate 7 (.advance 2)

theorem published_once_sample :
    let w := (Completion.start fun l => laneOpen l (sampleOpts l)).after sampleRoots sampleValidation
      sampleCommitments sampleSteps
    (∀ l, w.writes l ≤ 1) ∧ w.writes 0 = 1 :=
  have h := published_once (R := sampleRoots) sampleValidation sampleCommitments (fun _ _ h => h)
    (fun l => l) sampleOpts sampleSteps
  ⟨h.1, by decide⟩

end PRF.Publication
