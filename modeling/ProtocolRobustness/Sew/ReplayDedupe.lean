import ProtocolRobustness.Library.Once
import ProtocolRobustness.Sew.RelatedClaims

/-!
# Redelivered events

`dispatch-action` and `dedupe-op-key` of `sew.clj` over `idempotency.clj`.  What an action does is a
parameter; worlds of the core profile, which pass through an extension, are left out.

* `Value`, `Param`, `ReplayEvent`     an event with its ids, given or taken from what earlier events bound;
* `dedupeOpKey`                 under which key an event is deduplicated;
* `dispatchAction`              the admission of an event, and its application;
* `SucceededBefore`             the same event succeeded before, at the same hop scope;
* `dispatch_duplicate_iff`      an event is answered as a duplicate exactly then.
-/

namespace PRF.Sew
open Table Fallible Runs Once

/-! ## events -/

/-- an id, as a scenario writes it -/
inductive Value
  | int (n : ℤ)
  | text (s : String)
  | keyword (space : Option String) (name : String)
deriving DecidableEq

/-- an id, or a reference to one that the world knows -/
inductive Param
  | value (v : Value)
  | fromBinding (key : String)
  | slashRef (workflowId : ℕ) (kind : SlashKind) (level : ℕ)
deriving DecidableEq

/-- an event over its parameters; some ids have two spellings -/
structure ReplayEvent (α : Type) where
  action : String
  agent : α
  workflowId : Option α := none
  legacyId : Option α := none
  slashId : Option α := none
  eventId : Option α := none
  eventIdSnake : Option α := none
  hopId : Option α := none
  hopIdSnake : Option α := none
  others : List (String × α) := []
  bind : List (String × String) := []
deriving DecidableEq

inductive DispatchFailure
  | bindingNotAvailable
  | slashReferenceNotAvailable
  | bindingTargetAbsent
  | actionNotPermitted
  | stateRegionViolation
  | missingEventId
  | invalidId (failure : ClaimsFailure)
  | action (failure : Failure)
deriving DecidableEq

/-- the world that replay runs on: the protocol's, and `:scenario-bindings` -/
structure ReplayWorld where
  world : World
  bindings : List (String × Value)

/-! ## references -/

section
variable (r : ReplayWorld)

/-- `resolve-scenario-bindings` -/
def Param.resolve : Param → Except DispatchFailure Value
  | .value v => .ok v
  | .fromBinding key =>
    match find r.bindings key with
    | some v => .ok v
    | none => .error .bindingNotAvailable
  | .slashRef workflowId kind level =>
    match r.world.slashes.byContext workflowId kind level with
    | some slashId => .ok (.int slashId)
    | none => .error .slashReferenceNotAvailable

def resolveOptional : Option Param → Except DispatchFailure (Option Value)
  | none => .ok none
  | some p => (p.resolve r).map some

def ReplayEvent.resolve (event : ReplayEvent Param) : Except DispatchFailure (ReplayEvent Value) := do
  let agent ← event.agent.resolve r
  let workflowId ← resolveOptional r event.workflowId
  let legacyId ← resolveOptional r event.legacyId
  let slashId ← resolveOptional r event.slashId
  let eventId ← resolveOptional r event.eventId
  let eventIdSnake ← resolveOptional r event.eventIdSnake
  let hopId ← resolveOptional r event.hopId
  let hopIdSnake ← resolveOptional r event.hopIdSnake
  let others ← event.others.mapM fun e => (e.2.resolve r).map fun v => (e.1, v)
  .ok
    { action := event.action
      agent := agent
      workflowId := workflowId
      legacyId := legacyId
      slashId := slashId
      eventId := eventId
      eventIdSnake := eventIdSnake
      hopId := hopId
      hopIdSnake := hopIdSnake
      others := others
      bind := event.bind }

end

/-- what a result binds under the keys that the event names -/
def bindScenarioResult (bindings : List (String × Value)) (bind : List (String × String))
    (results : List (String × Value)) : Except DispatchFailure (List (String × Value)) :=
  bind.foldlM (fun bindings b =>
    match find results b.2 with
    | some v => .ok (put bindings b.1 v)
    | none => .error .bindingTargetAbsent) bindings

/-! ## identities -/

def Value.normalizeId : Value → Value
  | .keyword _ name => .text name
  | v => v

def Value.workflowRef : Value → WorkflowRef
  | .int n => .int n
  | .text s => .text s
  | .keyword _ name => .text name

def spellingAlias (action : String) : String :=
  if action = "grant-force-authorization" then "grant-force-authorisation"
  else if action = "revoke-force-authorization" then "revoke-force-authorisation"
  else if action = "execute-force-authorized-action" then "execute-force-authorised-action"
  else action

/-- `compat/canonical-action` -/
def canonicalAction (action : String) : String :=
  spellingAlias (String.ofList (action.toList.map fun c => if c = '_' then '-' else c))

def replaySensitiveActions : List String :=
  ["escalate-dispute", "challenge-resolution", "execute-resolution", "execute-pending-settlement",
    "rotate-dispute-resolver", "declare-fraud-incident", "propose-fraud-slash",
    "propose-fraud-group-slash", "appeal-fraud-group-slash", "resolve-fraud-group-appeal",
    "resolve-appeal", "execute-fraud-slash", "execute-fraud-group-slash", "force-reversal-slash",
    "grant-force-authorisation", "grant-consensus-force-authorisation",
    "revoke-force-authorisation", "execute-force-authorised-action", "grant-force-authorization",
    "revoke-force-authorization", "execute-force-authorized-action"]

namespace ReplayEvent
variable (event : ReplayEvent Value)

def canonical : String := canonicalAction event.action

/-- `event-workflow-id` -/
def workflow : Option Value := event.workflowId.or event.legacyId

/-- `event-slash-id` -/
def slash : Option Value := event.slashId.or event.workflow

/-- `compat/event-id` -/
def logicalId : Option Value := (event.eventId.or event.eventIdSnake).map Value.normalizeId

/-- `compat/hop-id` -/
def hop : Option Value := (event.hopId.or event.hopIdSnake).map Value.normalizeId

/-- `replay-sensitive-action?` -/
def replaySensitive : Bool := event.canonical ∈ replaySensitiveActions

/-- whether a hop of the event is a dispute level -/
def escalates : Bool :=
  event.canonical = "escalate-dispute" || event.canonical = "challenge-resolution"

end ReplayEvent

/-- `dispute-level` of a workflow that an event names -/
def World.levelOf (w : World) (workflow : Option Value) : Except DispatchFailure ℕ :=
  match workflow with
  | none => .ok 0
  | some v =>
    match v.workflowRef.normalize with
    | .error failure => .error (.invalidId failure)
    | .ok (.int n) => .ok (if 0 ≤ n then w.disputeLevel n.toNat else 0)
    | .ok (.text _) => .ok 0

/-- the explicit hop of an event, else the level of its dispute if it escalates -/
def hopScope (w : World) (event : ReplayEvent Value) : Except DispatchFailure (Option Value) :=
  match event.hop with
  | some hop => .ok (some hop)
  | none =>
    if event.escalates then (w.levelOf event.workflow).map fun level => some (.int level)
    else .ok none

structure OpKey where
  action : String
  agent : Value
  workflowId : Option Value
  slashId : Option Value
  hopScope : Option Value
  eventId : Option Value
deriving DecidableEq

def ReplayEvent.opKey (event : ReplayEvent Value) (scope : Option Value) : OpKey where
  action := event.canonical
  agent := event.agent
  workflowId := event.workflow
  slashId := event.slash
  hopScope := scope
  eventId := event.logicalId

def dedupeOpKey (w : World) (event : ReplayEvent Value) : Except DispatchFailure OpKey :=
  (hopScope w event).map event.opKey

/-! ## dispatch -/

/-- `applyAction` is the action of an event on a world, with what its result can bind -/
structure ReplayContext where
  permitted : String → Bool
  authoritative : Bool
  regionViolated : World → Bool
  requireEventId : Bool
  applyAction : World → ReplayEvent Value → Except Failure (World × List (String × Value))

abbrev Replay := Marked ReplayWorld OpKey

namespace ReplayContext
variable (ctx : ReplayContext)

def apply (event : ReplayEvent Value) (r : ReplayWorld) : Except DispatchFailure ReplayWorld :=
  match ctx.applyAction r.world event with
  | .error failure => .error (.action failure)
  | .ok (w, results) =>
    (bindScenarioResult r.bindings event.bind results).map fun bindings => ⟨w, bindings⟩

/-- `dispatch!`: once under its key for a replay-sensitive event with an id, else as it is -/
def dispatch (m : Replay) (event : ReplayEvent Value) : Except DispatchFailure (Answer × Replay) :=
  if event.logicalId.isSome && event.replaySensitive then do
    let key ← dedupeOpKey m.state.world event
    once m key (ctx.apply event)
  else always m (ctx.apply event)

def letThrough (r : ReplayWorld) (event : ReplayEvent Param) : Except DispatchFailure (ReplayEvent Value) := do
  let event ← event.resolve r
  if !ctx.permitted event.action then .error .actionNotPermitted
  else if ctx.authoritative && ctx.regionViolated r.world then .error .stateRegionViolation
  else if ctx.requireEventId && event.replaySensitive && event.logicalId.isNone then
    .error .missingEventId
  else .ok event

def dispatchAction (m : Replay) (event : ReplayEvent Param) : Except DispatchFailure (Answer × Replay) :=
  match ctx.letThrough m.state event with
  | .error failure => .error failure
  | .ok event => ctx.dispatch m event

end ReplayContext

/-- events are delivered, and time passes -/
inductive ReplayTurn
  | deliver (event : ReplayEvent Param)
  | advanceTime (time : ℤ)

def replayStep (ctx : ReplayContext) (m : Replay) : ReplayTurn → Except DispatchFailure Replay
  | .deliver event => (ctx.dispatchAction m event).map Prod.snd
  | .advanceTime time =>
    match m.state.world.advanceTime time with
    | .error failure => .error (.action failure)
    | .ok w => .ok { m with state := { m.state with world := w } }

/-! ## deliveries under a key -/

section
variable {ctx : ReplayContext} {m : Replay} {raw : ReplayEvent Param} {event : ReplayEvent Value}

/-- the key of a turn, if it has one -/
def turnKey (ctx : ReplayContext) (r : ReplayWorld) : ReplayTurn → Except DispatchFailure (Option OpKey)
  | .advanceTime _ => .ok none
  | .deliver raw =>
    match ctx.letThrough r raw with
    | .error failure => .error failure
    | .ok event =>
      if event.logicalId.isSome && event.replaySensitive then (dedupeOpKey r.world event).map some
      else .ok none

/-- what a turn does to the world that replay runs on -/
def turnAct (ctx : ReplayContext) : ReplayTurn → ReplayWorld → Except DispatchFailure ReplayWorld
  | .advanceTime time, r =>
    match r.world.advanceTime time with
    | .error failure => .error (.action failure)
    | .ok w => .ok { r with world := w }
  | .deliver raw, r =>
    match ctx.letThrough r raw with
    | .error failure => .error failure
    | .ok event => ctx.apply event r

theorem turnKey_refused {r : ReplayWorld} {failure : DispatchFailure}
    (h : ctx.letThrough r raw = .error failure) : turnKey ctx r (.deliver raw) = .error failure := by
  simp only [turnKey, h]

theorem turnKey_admitted {r : ReplayWorld} (h : ctx.letThrough r raw = .ok event) :
    turnKey ctx r (.deliver raw)
      = if event.logicalId.isSome && event.replaySensitive then (dedupeOpKey r.world event).map some
        else .ok none := by
  simp only [turnKey, h]

theorem turnKey_eq_some {r : ReplayWorld} {turn : ReplayTurn} {key : OpKey} :
    turnKey ctx r turn = .ok (some key) ↔ ∃ raw event, turn = .deliver raw ∧
      ctx.letThrough r raw = .ok event ∧ event.logicalId.isSome ∧ event.replaySensitive ∧
      dedupeOpKey r.world event = .ok key := by
  cases turn with
  | advanceTime time =>
    show (Except.ok none : Except DispatchFailure (Option OpKey)) = .ok (some key) ↔ _
    simp
  | deliver raw =>
    cases hthrough : ctx.letThrough r raw with
    | error failure =>
      rw [turnKey_refused hthrough]
      simp [hthrough]
    | ok event =>
      rw [turnKey_admitted hthrough]
      split
      · next hboth =>
        obtain ⟨hid, hsensitive⟩ := Bool.and_eq_true_iff.mp hboth
        rw [map_eq_ok]
        simp [hthrough, hid, hsensitive]
      · next hnot =>
        simp only [Except.ok.injEq, reduceCtorEq, false_iff]
        rintro ⟨raw', event', hraw, hevent, hid, hsensitive, -⟩
        obtain rfl := ReplayTurn.deliver.inj hraw
        obtain rfl := Except.ok.inj (hthrough.symm.trans hevent)
        simp [hid, hsensitive] at hnot

theorem dispatchAction_eq_deliver (ctx : ReplayContext) (m : Replay) (raw : ReplayEvent Param) :
    ctx.dispatchAction m raw = Once.deliver (turnKey ctx) (turnAct ctx) m (.deliver raw) := by
  unfold ReplayContext.dispatchAction Once.deliver
  cases hthrough : ctx.letThrough m.state raw with
  | error failure => rw [turnKey_refused hthrough]
  | ok event =>
    have hact : turnAct ctx (.deliver raw) m.state = ctx.apply event m.state := by
      simp only [turnAct, hthrough]
    rw [turnKey_admitted hthrough]
    simp only [ReplayContext.dispatch]
    split
    · cases hkey : dedupeOpKey m.state.world event with
      | error failure => rfl
      | ok key =>
        show once m key (ctx.apply event) = once m key (turnAct ctx (.deliver raw))
        simp only [once, attempt, hact]
    · simp only [always, hact]

theorem replayStep_eq (ctx : ReplayContext) :
    replayStep ctx = deliverStep (turnKey ctx) (turnAct ctx) := by
  funext m turn
  cases turn with
  | deliver raw =>
    show (ctx.dispatchAction m raw).map Prod.snd = _
    rw [dispatchAction_eq_deliver]
    rfl
  | advanceTime time =>
    unfold replayStep deliverStep Once.deliver turnKey always turnAct
    dsimp only
    cases m.state.world.advanceTime time with
    | error failure => rfl
    | ok w => rfl

/-! ## duplicates -/

structure SameEvent (event event' : ReplayEvent Value) : Prop where
  action : event'.canonical = event.canonical
  agent : event'.agent = event.agent
  workflow : event'.workflow = event.workflow
  slash : event'.slash = event.slash
  logicalId : event'.logicalId = event.logicalId

/-- the same event succeeded in a run, at the same hop scope -/
def SucceededBefore (ctx : ReplayContext) (start : Replay) (turns : List ReplayTurn)
    (event : ReplayEvent Value) (scope : Option Value) : Prop :=
  ∃ n raw' event', turns[n]? = some (.deliver raw') ∧
    ctx.letThrough (run (replayStep ctx) start (turns.take n)).state raw' = .ok event' ∧
    SameEvent event event' ∧
    hopScope (run (replayStep ctx) start (turns.take n)).state.world event' = .ok scope ∧
    ∃ answer m', ctx.dispatchAction (run (replayStep ctx) start (turns.take n)) raw'
      = .ok (answer, m')

theorem dedupeOpKey_eq_iff {w : World} {event' : ReplayEvent Value} {scope : Option Value} :
    dedupeOpKey w event' = .ok (event.opKey scope)
      ↔ SameEvent event event' ∧ hopScope w event' = .ok scope := by
  rw [dedupeOpKey, map_eq_ok]
  simp only [ReplayEvent.opKey, OpKey.mk.injEq]
  constructor
  · rintro ⟨scope', hscope', haction, hagent, hworkflow, hslash, rfl, hid⟩
    exact ⟨⟨haction, hagent, hworkflow, hslash, hid⟩, hscope'⟩
  · rintro ⟨hsame, hscope'⟩
    exact ⟨scope, hscope', hsame.action, hsame.agent, hsame.workflow, hsame.slash, rfl,
      hsame.logicalId⟩

theorem mem_applied_iff {start : Replay} (hstart : start.applied = []) (turns : List ReplayTurn)
    (hsensitive : event.replaySensitive) (hid : event.logicalId.isSome) (scope : Option Value) :
    event.opKey scope ∈ (run (replayStep ctx) start turns).applied
      ↔ SucceededBefore ctx start turns event scope := by
  unfold SucceededBefore
  simp only [dispatchAction_eq_deliver, replayStep_eq, mem_applied_run, hstart, List.not_mem_nil,
    false_or, Succeeds, turnKey_eq_some]
  constructor
  · rintro ⟨n, turn, hturn, ⟨raw', event', rfl, hthrough', -, -, hkey'⟩, hok⟩
    obtain ⟨hsame, hscope'⟩ := dedupeOpKey_eq_iff.mp hkey'
    exact ⟨n, raw', event', hturn, hthrough', hsame, hscope', hok⟩
  · rintro ⟨n, raw', event', hturn, hthrough', hsame, hscope', hok⟩
    refine ⟨n, _, hturn, ⟨raw', event', rfl, hthrough', ?_, ?_, ?_⟩, hok⟩
    · rw [hsame.logicalId, hid]
    · rw [ReplayEvent.replaySensitive, hsame.action]
      exact hsensitive
    · exact dedupeOpKey_eq_iff.mpr ⟨hsame, hscope'⟩

/-- **An event is answered as a duplicate iff it succeeded before at the same hop scope; in every
other case it is attempted.** -/
theorem dispatch_duplicate_iff (ctx : ReplayContext) {start : Replay} (hstart : start.applied = [])
    (turns : List ReplayTurn) {raw : ReplayEvent Param} {event : ReplayEvent Value} {scope : Option Value}
    (hthrough : ctx.letThrough (run (replayStep ctx) start turns).state raw = .ok event)
    (hsensitive : event.replaySensitive) (hid : event.logicalId.isSome)
    (hscope : hopScope (run (replayStep ctx) start turns).state.world event = .ok scope) :
    (ctx.dispatchAction (run (replayStep ctx) start turns) raw
        = .ok (.duplicate, run (replayStep ctx) start turns)
      ↔ SucceededBefore ctx start turns event scope) ∧
    (¬ SucceededBefore ctx start turns event scope →
      ctx.dispatchAction (run (replayStep ctx) start turns) raw
        = attempt (run (replayStep ctx) start turns) (event.opKey scope) (ctx.apply event)) := by
  have hdispatch : ctx.dispatchAction (run (replayStep ctx) start turns) raw
      = once (run (replayStep ctx) start turns) (event.opKey scope) (ctx.apply event) := by
    rw [ReplayContext.dispatchAction, hthrough]
    show (if event.logicalId.isSome && event.replaySensitive then _ else _) = _
    rw [if_pos (by simp [hid, hsensitive]), dedupeOpKey, hscope]
    rfl
  rw [hdispatch, ← mem_applied_iff hstart turns hsensitive hid scope]
  exact ⟨once_duplicate_iff, fun hnot => once_of_not_mem hnot _⟩

end

/-! ## an escalation delivered twice -/

/-- escalations to `"second"` and then to `"third"`, and decisions to release -/
def operationOf (event : ReplayEvent Value) : Option Operation :=
  match event.agent, event.workflow with
  | .text agent, some (.int n) =>
    if event.canonical = "escalate-dispute" then
      some (.escalateDispute n.toNat agent
        (some fun _ _ _ level => .ok (some (if level = 0 then "second" else "third"))))
    else if event.canonical = "execute-resolution" then
      some (.executeResolution n.toNat agent true "hash" none)
    else none
  | _, _ => none

def plainContext : ReplayContext where
  permitted := fun _ => true
  authoritative := false
  regionViolated := fun _ => false
  requireEventId := false
  applyAction := fun w event =>
    match operationOf event with
    | some operation => (step bareEnvironment w operation).map fun w => (w, [])
    | none => .error .invalidWorkflowId

/-- a dispute with a long time to appeal, and the event `"evt"` -/
def disputed : Replay where
  state :=
    { world :=
        { emptyWorld { params := { maxDisputeLevel := 5 } } 0 with
          escrows :=
            { transfers := [(0, { token := "USDC", sender := "s", recipient := "r"
                                  amountAfterFee := 100, disputeResolver := some "first"
                                  escrowState := .disputed })]
              snapshots := fun _ => { appealWindowDuration := some 100000 }
              nextWorkflowId := 1 } }
      bindings := [] }
  applied := []

def decision (agent : String) : ReplayEvent Param where
  action := "execute_resolution"
  agent := .value (.text agent)
  workflowId := some (.value (.int 0))
  eventId := some (.value (.text agent))

def escalation : ReplayEvent Param where
  action := "escalate_dispute"
  agent := .value (.text "s")
  workflowId := some (.value (.int 0))
  eventId := some (.value (.text "evt"))

/-- the first decision and its escalation, and a day after it the second decision -/
def escalatedOnce : List ReplayTurn :=
  [.deliver (decision "first"), .deliver escalation, .advanceTime 90000,
    .deliver (decision "second")]

/-- the escalation succeeds, and succeeds once more when it is delivered again -/
theorem escalation_applied_twice :
    (plainContext.dispatchAction (run (replayStep plainContext) disputed (escalatedOnce.take 1))
      escalation).map Prod.fst = .ok .applied ∧
    (plainContext.dispatchAction (run (replayStep plainContext) disputed escalatedOnce)
      escalation).map (fun a => (a.1, a.2.state.world.disputeLevel 0)) = .ok (.applied, 2) := by
  decide +kernel

def firstDecision : ReplayEvent Value where
  action := "execute_resolution"
  agent := .text "first"
  workflowId := some (.int 0)
  eventId := some (.text "first")

/-- the first decision delivered again -/
theorem decision_duplicate :
    plainContext.dispatchAction (run (replayStep plainContext) disputed escalatedOnce)
      (decision "first") = .ok (.duplicate, run (replayStep plainContext) disputed escalatedOnce) := by
  obtain ⟨⟨answer, m⟩, hok⟩ := exists_ok
    (show (plainContext.dispatchAction disputed (decision "first")).isOk by decide +kernel)
  have hthrough : plainContext.letThrough (run (replayStep plainContext) disputed
      escalatedOnce).state (decision "first") = .ok firstDecision := by decide +kernel
  have hscope : hopScope (run (replayStep plainContext) disputed escalatedOnce).state.world
      firstDecision = .ok none := by decide +kernel
  apply (dispatch_duplicate_iff plainContext rfl escalatedOnce hthrough (by decide +kernel)
    (by decide +kernel) hscope).1.mpr
  exact ⟨0, decision "first", firstDecision, rfl, by decide +kernel, ⟨rfl, rfl, rfl, rfl, rfl⟩,
    by decide +kernel, answer, m, hok⟩

end PRF.Sew
