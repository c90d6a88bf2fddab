import ProtocolRobustness.Sew.Judged

/-!
# The bonds of appeals against slashes

An appeal puts a bond in custody, for the slash or for one member of a group, and three operations
take it out again: an upheld appeal and a vindication refund it, a rejected appeal forfeits it.  The
entry of the slash, the custody and the held ledger record the same bonds, and between two postings
for the same slash and appellant there is one refund or one forfeiture.

* `World.appealBond`     the bond in custody for a slash and an appellant;
* `follow`               the bond that is open after a list of events, if they fit together;
* `AppealBondsKept`      entries, custody and held positions agree;
* `AppealEffect`         what an operation does to bonds, claims and forfeitures;
* `appeal_bonds_conserved`   all bonds are accounted for after every run.
-/

namespace PRF.Sew
open Table Fallible Runs

/-! ## bonds in custody -/

structure AppealBond where
  workflowId : ℕ
  token : Token
  amount : ℤ
deriving DecidableEq

def AppealCustody.bond (custody : AppealCustody) : Option AppealBond :=
  if 0 < custody.amount then custody.token.map fun token => ⟨custody.workflowId, token, custody.amount⟩
  else none

/-- the bond of an appellant, given the custody of a slash and of its members -/
def slotBond (custody : Option AppealCustody) (members : Address → Option AppealCustody)
    (actor : Address) : Option AppealBond :=
  match custody with
  | some c => if c.resolver = actor then c.bond else none
  | none => (members actor).bind AppealCustody.bond

/-- the amount of a bond in a token and on a workflow -/
def bondAt (bond : Option AppealBond) (token : Token) (workflowId : ℕ) : ℤ :=
  match bond with
  | some b => if b.token = token ∧ b.workflowId = workflowId then b.amount else 0
  | none => 0

/-- `:appeal-bond-held` of an entry and of its members -/
def SlashEntry.bonds (entry : SlashEntry) : ℤ :=
  entry.appealBondHeld + sumBy (fun _ appeal => appeal.appealBondHeld) entry.appeals

def PositionId.ofAppeal (position : PositionId) : Bool :=
  match position.account, position.scope with
  | .appealBond, [.id _, .id _, .address _] => true
  | _, _ => false

namespace World
variable (w : World)

def appealBond (slashId : ℕ) (actor : Address) : Option AppealBond :=
  slotBond (w.slashes.custody slashId) (w.slashes.memberCustody slashId) actor

/-- the amounts in `:appeal-bond-custody` -/
def custodySum : ℤ :=
  sumBy (fun slashId entry => ((w.slashes.custody slashId).map AppealCustody.amount).getD 0
    + sumBy (fun member _ => w.memberBond slashId member) entry.appeals) w.slashes.pending

/-- the bonds that the entries and their members record -/
def bondsHeld : ℤ := sumBy (fun _ entry => entry.bonds) w.slashes.pending

/-- the part of the held ledger that bonds of appeals are in -/
def appealPositions : ℤ :=
  sumBy (fun position amount => if position.ofAppeal then amount else 0) w.held.positions

end World

/-! ## events -/

inductive AppealEvent
  | posted (slashId : ℕ) (actor : Address) (bond : AppealBond)
  | refunded (slashId : ℕ) (actor : Address) (bond : AppealBond)
  | forfeited (slashId : ℕ) (actor : Address) (bond : AppealBond)
deriving DecidableEq

/-- the open bond of a slash and an appellant after one more event; none when the event does not fit -/
def followOne (slashId : ℕ) (actor : Address) (bond : Option AppealBond) :
    AppealEvent → Option (Option AppealBond)
  | .posted id a b => if id = slashId ∧ a = actor then (if bond = none then some (some b) else none)
    else some bond
  | .refunded id a b | .forfeited id a b =>
    if id = slashId ∧ a = actor then (if bond = some b then some none else none) else some bond

/-- the open bond after a list of events: each posting finds none, and each end finds the bond that
was posted -/
def follow (slashId : ℕ) (actor : Address) (bond : Option AppealBond) (events : List AppealEvent) :
    Option (Option AppealBond) :=
  events.foldlM (followOne slashId actor) bond

def AppealEvent.postedIn (token : Token) : AppealEvent → ℤ
  | .posted _ _ b => if b.token = token then b.amount else 0
  | _ => 0

def AppealEvent.refundedTo (workflowId : ℕ) (address : Address) : AppealEvent → ℤ
  | .refunded _ a b => if b.workflowId = workflowId ∧ a = address then b.amount else 0
  | _ => 0

def AppealEvent.forfeits : AppealEvent → ℤ
  | .forfeited _ _ b => b.amount
  | _ => 0

/-- what an event adds to the bonds in custody -/
def AppealEvent.change : AppealEvent → ℤ
  | .posted _ _ b => b.amount
  | .refunded _ _ b | .forfeited _ _ b => -b.amount

def sumOver (f : AppealEvent → ℤ) (events : List AppealEvent) : ℤ := (events.map f).sum

/-- the event of a bond, when there is one and it is known whose it is and in what token -/
def bondEvent (event : ℕ → Address → AppealBond → AppealEvent) (slashId : ℕ)
    (actor : Option Address) (workflowId : ℕ) (token : Option Token) (amount : ℤ) :
    List AppealEvent :=
  match actor, token with
  | some actor, some token =>
    if 0 < amount then [event slashId actor ⟨workflowId, token, amount⟩] else []
  | _, _ => []

/-! ## operations -/

/-- how a resolved appeal ends its bond -/
def ended (upheld : Bool) : ℕ → Address → AppealBond → AppealEvent :=
  if upheld then .refunded else .forfeited

/-- the operations on slashes, on stakes and the clock -/
def Operation.onSlashes : Operation → Bool
  | .proposeFraudSlash .. | .proposeFraudGroupSlash .. | .appealSlash .. | .resolveAppeal ..
  | .appealFraudGroupSlash .. | .resolveFraudGroupAppeal .. | .executeFraudSlash ..
  | .executeFraudGroupSlash .. | .registerStake .. | .withdrawStake .. | .advanceTime .. => true
  | _ => false

inductive AppealOperation
  | on (op : Operation) (h : op.onSlashes = true)
  | vindicate (workflowId : ℕ) (isRelease : Bool)

def appealStep (env : Environment) (w : World) : AppealOperation → Except Failure World
  | .on op _ => step env w op
  | .vindicate workflowId isRelease => w.vindicate workflowId isRelease

namespace World

/-- the event of a vindicated slash that was not enforced -/
def voidEvents (w : World) (slashId : ℕ) (entry : SlashEntry) : List AppealEvent :=
  if entry.enforced then []
  else bondEvent .refunded slashId entry.resolver
    (((w.slashes.custody slashId).map AppealCustody.workflowId).getD entry.workflowId)
    ((w.slashes.custody slashId).bind AppealCustody.token <|> entry.token) entry.appealBondHeld

def vindicateEvents (workflowId : ℕ) (isRelease : Bool) : List ℕ → World → List AppealEvent
  | [], _ => []
  | level :: levels, w =>
    ((w.vindicatedSlash workflowId isRelease level).elim [] fun e => w.voidEvents e.1 e.2) ++
    match vindicateLevel workflowId isRelease w level with
    | .error _ => []
    | .ok w' => vindicateEvents workflowId isRelease levels w'

/-- **The events of an operation**, when it is accepted. -/
def appealEvents (w : World) : AppealOperation → List AppealEvent
  | .on (.appealSlash workflowId caller slashId) _
  | .on (.appealFraudGroupSlash workflowId caller slashId) _ =>
    bondEvent .posted slashId (some caller) workflowId
      ((w.getTransfer workflowId).map Transfer.token) (w.slashAppealBond workflowId)
  | .on (.resolveAppeal _ _ upheld slashId _) _ =>
    (w.getSlash slashId).elim [] fun entry =>
      bondEvent (ended upheld) slashId (w.custodyResolver slashId entry)
        (w.custodyWorkflow slashId entry) (w.custodyToken slashId entry) entry.appealBondHeld
  | .on (.resolveFraudGroupAppeal workflowId _ member upheld slashId _) _ =>
    bondEvent (ended upheld) slashId (some member) workflowId
      ((w.slashes.memberCustody slashId member).bind AppealCustody.token)
      (w.memberBond slashId member)
  | .on _ _ => []
  | .vindicate workflowId isRelease =>
    vindicateEvents workflowId isRelease (List.range (w.disputeLevel workflowId - 1)) w

end World

/-! ## entries, custody and positions agree -/

/-- the custody of a slash against one resolver -/
def SingleKept (entry : SlashEntry) : Option AppealCustody → Prop
  | none => entry.appealBondHeld = 0
  | some c => 0 < entry.appealBondHeld ∧ entry.status ≠ .pending ∧ entry.resolver = some c.resolver ∧
    c.workflowId = entry.workflowId ∧ c.amount = entry.appealBondHeld ∧ c.token.isSome

/-- the custody of a member of a group -/
def MemberKept (workflowId : ℕ) (member : Address) :
    Option MemberAppeal → Option AppealCustody → Prop
  | none, none => True
  | none, some _ => False
  | some appeal, none => appeal.appealBondHeld = 0 ∧ appeal.status ≠ .appealed
  | some appeal, some c => appeal.status = .appealed ∧ c.resolver = member ∧
    c.workflowId = workflowId ∧ c.amount = appeal.appealBondHeld ∧ 0 ≤ appeal.appealBondHeld ∧
    (0 < appeal.appealBondHeld → c.token.isSome)

/-- the custody of an id of the registry -/
def SlotKept (entry : Option SlashEntry) (custody : Option AppealCustody)
    (members : Address → Option AppealCustody) : Prop :=
  match entry with
  | none => custody = none ∧ ∀ a, members a = none
  | some e =>
    if e.kind = .fraudGroup then
      custody = none ∧ e.resolver = none ∧ e.appealBondHeld = 0 ∧ (e.appeals.map Prod.fst).Nodup ∧
        ∀ a, MemberKept e.workflowId a (find e.appeals a) (members a)
    else e.appeals = [] ∧ (∀ a, members a = none) ∧ SingleKept e custody

structure AppealBondsKept (w : World) : Prop where
  keyed : w.Keyed
  heldKeys : (w.held.positions.map Prod.fst).Nodup
  slots : ∀ id, SlotKept (w.getSlash id) (w.slashes.custody id) (w.slashes.memberCustody id)
  history : ∀ id e, find w.slashes.history id = some e → e.appealBondHeld = 0
  positions : ∀ token workflowId id actor,
    w.held.position (appealPosition token workflowId id actor)
      = bondAt (w.appealBond id actor) token workflowId

/-- what an operation does to bonds, claims and forfeitures -/
structure AppealEffect (w : World) (events : List AppealEvent) (w' : World) : Prop where
  kept : AppealBondsKept w'
  followed : ∀ id actor, follow id actor (w.appealBond id actor) events
    = some (w'.appealBond id actor)
  posted : ∀ token, w'.totals.bondsPosted token
    = w.totals.bondsPosted token + sumOver (AppealEvent.postedIn token) events
  refunds : ∀ workflowId address, w'.claims.amount workflowId .bondRefund address
    = w.claims.amount workflowId .bondRefund address
      + sumOver (AppealEvent.refundedTo workflowId address) events
  forfeits : w'.slashes.forfeitedInsurance
    = w.slashes.forfeitedInsurance + sumOver AppealEvent.forfeits events
  bonds : w'.bondsHeld = w.bondsHeld + sumOver AppealEvent.change events
  held : w'.appealPositions = w.appealPositions + sumOver AppealEvent.change events

section
variable {w w' w₁ : World} {slashId workflowId : ℕ} {actor : Address} {token : Token} {amount : ℤ}
  {entry entry' : SlashEntry} {events events' : List AppealEvent} {bond : AppealBond}

theorem sumOver_append (f : AppealEvent → ℤ) (events events' : List AppealEvent) :
    sumOver f (events ++ events') = sumOver f events + sumOver f events' := by
  simp [sumOver]

@[simp] theorem sumOver_singleton (f : AppealEvent → ℤ) (event : AppealEvent) :
    sumOver f [event] = f event := by
  simp [sumOver]

theorem AppealEffect.trans (h₁ : AppealEffect w events w₁) (h₂ : AppealEffect w₁ events' w') :
    AppealEffect w (events ++ events') w' where
  kept := h₂.kept
  followed id actor := by
    have hfirst := h₁.followed id actor
    unfold follow at hfirst ⊢
    rw [List.foldlM_append, hfirst]
    exact h₂.followed id actor
  posted token := by
    rw [h₂.posted, h₁.posted, sumOver_append, add_assoc]
  refunds workflowId address := by
    rw [h₂.refunds, h₁.refunds, sumOver_append, add_assoc]
  forfeits := by
    rw [h₂.forfeits, h₁.forfeits, sumOver_append, add_assoc]
  bonds := by
    rw [h₂.bonds, h₁.bonds, sumOver_append, add_assoc]
  held := by
    rw [h₂.held, h₁.held, sumOver_append, add_assoc]

theorem AppealEffect.refl (h : AppealBondsKept w) : AppealEffect w [] w where
  kept := h
  followed _ _ := rfl
  posted _ := (add_zero _).symm
  refunds _ _ := (add_zero _).symm
  forfeits := (add_zero _).symm
  bonds := (add_zero _).symm
  held := (add_zero _).symm

/-! ## ledgers that a slash of a stake leaves alone -/

/-- nothing of the bonds of appeals changes outside the registry -/
structure LedgersKept (w w' : World) : Prop where
  heldKeys : (w.held.positions.map Prod.fst).Nodup → (w'.held.positions.map Prod.fst).Nodup
  position : ∀ p : PositionId, p.account = .appealBond →
    w'.held.position p = w.held.position p
  appealPositions : (w.held.positions.map Prod.fst).Nodup → w'.appealPositions = w.appealPositions
  bondsPosted : w'.totals.bondsPosted = w.totals.bondsPosted
  refunds : ∀ workflowId address, w'.claims.amount workflowId .bondRefund address
    = w.claims.amount workflowId .bondRefund address

theorem LedgersKept.trans (h₁ : LedgersKept w w₁) (h₂ : LedgersKept w₁ w') : LedgersKept w w' where
  heldKeys hw := h₂.heldKeys (h₁.heldKeys hw)
  position p hp := (h₂.position p hp).trans (h₁.position p hp)
  appealPositions hw := (h₂.appealPositions (h₁.heldKeys hw)).trans (h₁.appealPositions hw)
  bondsPosted := h₂.bondsPosted.trans h₁.bondsPosted
  refunds _ _ := (h₂.refunds _ _).trans (h₁.refunds _ _)

theorem LedgersKept.of_eq (hheld : w'.held = w.held) (htotals : w'.totals = w.totals)
    (hclaims : w'.claims = w.claims) : LedgersKept w w' where
  heldKeys hw := by
    rw [hheld]
    exact hw
  position p _ := by
    rw [hheld]
  appealPositions _ := by
    unfold World.appealPositions
    rw [hheld]
  bondsPosted := by
    rw [htotals]
  refunds _ _ := by
    rw [hclaims]

theorem appealPositions_move (h : (w.held.positions.map Prod.fst).Nodup) (position : PositionId)
    (hheld : w'.held = w.held.move position amount) : w'.appealPositions
      = w.appealPositions + if position.ofAppeal then amount else 0 := by
  unfold World.appealPositions
  rw [hheld]
  exact sumBy_add h (fun p : PositionId => p.ofAppeal = true) (position, amount)

/-- a movement of another account -/
theorem LedgersKept.moved (position : PositionId) (haccount : position.account ≠ .appealBond)
    (hheld : w'.held = w.held.move position amount) (htotals : w'.totals = w.totals)
    (hclaims : w'.claims = w.claims) : LedgersKept w w' where
  heldKeys hw := by
    rw [hheld]
    exact GroupSum.nodup_add hw _
  position p hp := by
    rw [hheld, Held.position_move, if_neg]
    intro heq
    exact haccount (heq ▸ hp)
  appealPositions hw := by
    have hno : position.ofAppeal = false := by
      unfold PositionId.ofAppeal
      split
      · next haccount' _ => exact absurd haccount' haccount
      · rfl
    rw [appealPositions_move hw position hheld, hno, if_neg Bool.false_ne_true, add_zero]
  bondsPosted := by
    rw [htotals]
  refunds _ _ := by
    rw [hclaims]

variable {hash : Distribution → String}

theorem distributeSlashedFunds_ledgers {bountyBps : ℤ} {challenger : Option Address}
    {wf : Option ℕ} (h : w.distributeSlashedFunds hash amount challenger bountyBps wf = .ok w') :
    LedgersKept w w' := by
  obtain ⟨dist, _, hcase⟩ := World.distributeSlashedFunds_ok h
  split at hcase
  · subst hcase
    exact .of_eq rfl rfl rfl
  · subst hcase
    refine ⟨id, fun _ _ => rfl, fun _ => rfl, rfl, fun wf' a => ?_⟩
    show Claims.amount (Claims.recordBounty _ _ _) _ _ _ = _
    unfold Claims.recordBounty
    split
    · rw [Claims.amount_record, if_neg (by simp), add_zero]
    · rfl

theorem slashResolverStake_ledgers {resolver : Address} {bountyBps : ℤ}
    {challenger : Option Address} {skip : Bool} {slashed : World.Slashed}
    (h : w.slashResolverStake hash resolver amount challenger bountyBps workflowId skip
      = .ok (w', slashed)) : LedgersKept w w' := by
  unfold World.slashResolverStake at h
  simp only [bind_eq_ok, refuse_eq_ok, Except.ok.injEq, Prod.mk.injEq] at h
  obtain ⟨actual, _, _, w₁, h₁, w₃, h₃, rfl, rfl⟩ := h
  have hfirst := distributeSlashedFunds_ledgers h₁
  have hcovered : LedgersKept w w₁ := by
    refine LedgersKept.trans ?_ hfirst
    cases w.resolvers.senior resolver with
    | none => exact .of_eq rfl rfl rfl
    | some senior =>
      -- the share of the coverage, and whether there is one
      refine .of_eq ?_ ?_ ?_ <;>
      · dsimp only [World.addStake]
        split <;> split <;> rfl
  refine hcovered.trans ?_
  split at h₃
  · obtain ⟨_, _, _, rfl⟩ := World.subHeld_ok.mp h₃
    exact .moved _ (by simp [positionId, HeldReason.account]) rfl rfl rfl
  · rw [← Except.ok.inj h₃]
    exact .of_eq rfl rfl rfl

/-! ## effects on the registry -/

/-- an entry with the bonds of another, on the same resolver and workflow -/
structure SameBond (entry entry' : SlashEntry) : Prop where
  kind : entry'.kind = entry.kind
  workflow : entry'.workflowId = entry.workflowId
  resolver : entry'.resolver = entry.resolver
  held : entry'.appealBondHeld = entry.appealBondHeld
  appeals : entry'.appeals = entry.appeals
  status : entry'.status = .pending → entry.status = .pending

theorem SlotKept.sameBond {custody : Option AppealCustody} {members : Address → Option AppealCustody}
    (h : SlotKept (some entry) custody members) (hsame : SameBond entry entry') :
    SlotKept (some entry') custody members := by
  unfold SlotKept at h ⊢
  dsimp only at h ⊢
  rw [hsame.kind, hsame.workflow, hsame.held, hsame.appeals, hsame.resolver]
  split
  · next hkind =>
    rw [if_pos hkind] at h
    exact h
  · next hkind =>
    rw [if_neg hkind] at h
    refine ⟨h.1, h.2.1, ?_⟩
    have hsingle := h.2.2
    unfold SingleKept at hsingle ⊢
    cases custody with
    | none => exact hsame.held.trans hsingle
    | some c =>
      dsimp only at hsingle ⊢
      rw [hsame.held, hsame.resolver, hsame.workflow]
      exact ⟨hsingle.1, fun hpending => hsingle.2.1 (hsame.status hpending), hsingle.2.2⟩

theorem bondsHeld_put (h : w.Keyed) (hfound : w.getSlash slashId = some entry)
    (hpending : w'.slashes.pending = put w.slashes.pending slashId entry') :
    w'.bondsHeld = w.bondsHeld + (entry'.bonds - entry.bonds) := by
  unfold World.bondsHeld
  rw [hpending, sumBy_put h, entryBy_some hfound]
  ring

theorem AppealEffect.quiet (h : AppealBondsKept w) (hkeyed : w'.Keyed) (hledgers : LedgersKept w w')
    (hcustody : w'.slashes.custody = w.slashes.custody)
    (hmembers : w'.slashes.memberCustody = w.slashes.memberCustody)
    (hforfeited : w'.slashes.forfeitedInsurance = w.slashes.forfeitedInsurance)
    (hslots : ∀ id, SlotKept (w'.getSlash id) (w.slashes.custody id) (w.slashes.memberCustody id))
    (hhistory : ∀ id e, find w'.slashes.history id = some e → e.appealBondHeld = 0)
    (hbonds : w'.bondsHeld = w.bondsHeld) : AppealEffect w [] w' := by
  have hbond : ∀ id a, w'.appealBond id a = w.appealBond id a := by
    intro id a
    unfold World.appealBond
    rw [hcustody, hmembers]
  refine ⟨⟨hkeyed, hledgers.heldKeys h.heldKeys, fun id => ?_, hhistory, fun t wf id a => ?_⟩,
    fun id a => ?_, fun t => ?_, fun wf a => ?_, ?_, ?_, ?_⟩
  · rw [hcustody, hmembers]
    exact hslots id
  · rw [hledgers.position _ rfl, h.positions, hbond]
  · rw [hbond]
    rfl
  · rw [hledgers.bondsPosted]
    exact (add_zero _).symm
  · rw [hledgers.refunds]
    exact (add_zero _).symm
  · rw [hforfeited]
    exact (add_zero _).symm
  · rw [hbonds]
    exact (add_zero _).symm
  · rw [hledgers.appealPositions h.heldKeys]
    exact (add_zero _).symm

theorem AppealEffect.updated (entry' : SlashEntry) (h : AppealBondsKept w)
    (hfound : w.getSlash slashId = some entry) (hledgers : LedgersKept w w')
    (hslashes : w'.slashes
      = { w.slashes with pending := put w.slashes.pending slashId entry' })
    (hslot : SlotKept (some entry') (w.slashes.custody slashId) (w.slashes.memberCustody slashId))
    (hbonds : entry'.bonds = entry.bonds) : AppealEffect w [] w' := by
  have hpending : w'.slashes.pending = put w.slashes.pending slashId entry' := by
    rw [hslashes]
  have hput : (w.putSlash slashId entry').Keyed := h.keyed.putSlash slashId entry'
  refine AppealEffect.quiet h (hput.of_slashes hpending) hledgers (by rw [hslashes])
    (by rw [hslashes]) (by rw [hslashes]) (fun id => ?_) (fun id e he => ?_) ?_
  · rw [getSlash_put hpending]
    split
    · next hid => exact hid ▸ hslot
    · exact h.slots id
  · rw [hslashes] at he
    exact h.history id e he
  · rw [bondsHeld_put h.keyed hfound hpending, hbonds, sub_self, add_zero]

theorem AppealEffect.sameBond (entry' : SlashEntry) (h : AppealBondsKept w)
    (hfound : w.getSlash slashId = some entry) (hledgers : LedgersKept w w')
    (hslashes : w'.slashes
      = { w.slashes with pending := put w.slashes.pending slashId entry' })
    (hsame : SameBond entry entry') : AppealEffect w [] w' := by
  refine AppealEffect.updated entry' h hfound hledgers hslashes ?_ ?_
  · have hslot := h.slots slashId
    rw [hfound] at hslot
    exact hslot.sameBond hsame
  · unfold SlashEntry.bonds
    rw [hsame.held, hsame.appeals]

/-! ## effects of one bond -/

theorem appealPosition_inj {token' : Token} {workflowId' slashId' : ℕ} {actor' : Address} :
    appealPosition token workflowId slashId actor = appealPosition token' workflowId' slashId' actor'
      ↔ token = token' ∧ workflowId = workflowId' ∧ slashId = slashId' ∧ actor = actor' := by
  simp only [appealPosition, PositionId.mk.injEq, List.cons.injEq, ScopeValue.id.injEq,
    ScopeValue.address.injEq, and_true, true_and]
  tauto

theorem positions_changed {new : Option AppealBond} (h : AppealBondsKept w)
    (hnew : ∀ id a, w'.appealBond id a
      = if id = slashId ∧ a = actor then new else w.appealBond id a)
    (hheld : w'.held
      = w.held.move (appealPosition bond.token bond.workflowId slashId actor) amount)
    (hchange : ∀ t wf, bondAt new t wf = bondAt (w.appealBond slashId actor) t wf
      + if bond.token = t ∧ bond.workflowId = wf then amount else 0) (t : Token) (wf id : ℕ)
    (a : Address) :
    w'.held.position (appealPosition t wf id a) = bondAt (w'.appealBond id a) t wf := by
  rw [hheld, Held.position_move, hnew, h.positions]
  simp only [appealPosition_inj]
  by_cases hid : id = slashId ∧ a = actor
  · obtain ⟨rfl, rfl⟩ := hid
    rw [if_pos (⟨rfl, rfl⟩ : id = id ∧ a = a), hchange]
    by_cases hscope : bond.token = t ∧ bond.workflowId = wf
    · rw [if_pos ⟨hscope.1, hscope.2, rfl, rfl⟩, if_pos hscope]
    · rw [if_neg fun hs => hscope ⟨hs.1, hs.2.1⟩, if_neg hscope, add_zero]
  · rw [if_neg fun hs => hid ⟨hs.2.2.1.symm, hs.2.2.2.symm⟩, if_neg hid]

theorem AppealEffect.of_posted (h : AppealBondsKept w) (hkeyed : w'.Keyed)
    (hslots : ∀ id, SlotKept (w'.getSlash id) (w'.slashes.custody id) (w'.slashes.memberCustody id))
    (hhistory : w'.slashes.history = w.slashes.history)
    (hold : w.appealBond slashId actor = none)
    (hnew : ∀ id a, w'.appealBond id a
      = if id = slashId ∧ a = actor then some bond else w.appealBond id a)
    (hheld : w'.held
      = w.held.move (appealPosition bond.token bond.workflowId slashId actor) bond.amount)
    (hposted : w'.totals.bondsPosted = addAt w.totals.bondsPosted bond.token bond.amount)
    (hclaims : w'.claims = w.claims)
    (hforfeited : w'.slashes.forfeitedInsurance = w.slashes.forfeitedInsurance)
    (hbonds : w'.bondsHeld = w.bondsHeld + bond.amount) :
    AppealEffect w [.posted slashId actor bond] w' := by
  refine ⟨⟨hkeyed, ?_, hslots, ?_, positions_changed h hnew hheld fun t wf => ?_⟩, fun id a => ?_,
    fun t => ?_, fun wf a => ?_, ?_, ?_, ?_⟩
  · rw [hheld]
    exact GroupSum.nodup_add h.heldKeys _
  · rw [hhistory]
    exact h.history
  · rw [hold]
    simp [bondAt]
  · rw [hnew, follow, List.foldlM_cons, followOne]
    by_cases hid : id = slashId ∧ a = actor
    · obtain ⟨rfl, rfl⟩ := hid
      rw [if_pos (⟨rfl, rfl⟩ : id = id ∧ a = a), if_pos hold, if_pos ⟨rfl, rfl⟩]
      rfl
    · rw [if_neg fun hs => hid ⟨hs.1.symm, hs.2.symm⟩, if_neg hid]
      rfl
  · rw [hposted, addAt_apply, sumOver_singleton]
    simp only [AppealEvent.postedIn]
    split <;> simp
  · rw [hclaims, sumOver_singleton]
    exact (add_zero _).symm
  · rw [hforfeited, sumOver_singleton]
    exact (add_zero _).symm
  · rw [hbonds, sumOver_singleton]
    rfl
  · rw [appealPositions_move h.heldKeys _ hheld, sumOver_singleton]
    rfl

theorem AppealEffect.of_ended {upheld : Bool} (h : AppealBondsKept w) (hkeyed : w'.Keyed)
    (hslots : ∀ id, SlotKept (w'.getSlash id) (w'.slashes.custody id) (w'.slashes.memberCustody id))
    (hhistory : w'.slashes.history = w.slashes.history)
    (hold : w.appealBond slashId actor = some bond)
    (hnew : ∀ id a, w'.appealBond id a
      = if id = slashId ∧ a = actor then none else w.appealBond id a)
    (hheld : w'.held
      = w.held.move (appealPosition bond.token bond.workflowId slashId actor) (-bond.amount))
    (hposted : w'.totals = w.totals)
    (hclaims : w'.claims
      = if upheld then w.claims.record bond.workflowId .bondRefund actor bond.amount else w.claims)
    (hforfeited : w'.slashes.forfeitedInsurance
      = w.slashes.forfeitedInsurance + if upheld then 0 else bond.amount)
    (hbonds : w'.bondsHeld = w.bondsHeld - bond.amount) :
    AppealEffect w [ended upheld slashId actor bond] w' := by
  refine ⟨⟨hkeyed, ?_, hslots, ?_, positions_changed h hnew hheld fun t wf => ?_⟩, fun id a => ?_,
    fun t => ?_, fun wf a => ?_, ?_, ?_, ?_⟩
  · rw [hheld]
    exact GroupSum.nodup_add h.heldKeys _
  · rw [hhistory]
    exact h.history
  · rw [hold]
    simp only [bondAt]
    split <;> simp
  · have hone : followOne id a (w.appealBond id a) (ended upheld slashId actor bond)
        = if slashId = id ∧ actor = a then (if w.appealBond id a = some bond then some none else none)
          else some (w.appealBond id a) := by
      cases upheld <;> rfl
    rw [hnew, follow, List.foldlM_cons, hone]
    by_cases hid : id = slashId ∧ a = actor
    · obtain ⟨rfl, rfl⟩ := hid
      rw [if_pos (⟨rfl, rfl⟩ : id = id ∧ a = a), if_pos hold, if_pos ⟨rfl, rfl⟩]
      rfl
    · rw [if_neg fun hs => hid ⟨hs.1.symm, hs.2.symm⟩, if_neg hid]
      rfl
  · rw [hposted, sumOver_singleton]
    cases upheld <;> exact (add_zero _).symm
  · rw [hclaims, sumOver_singleton]
    cases upheld with
    | true =>
      rw [if_pos rfl, Claims.amount_record]
      show _ = _ + if bond.workflowId = wf ∧ actor = a then bond.amount else 0
      simp only [true_and]
    | false => exact (add_zero _).symm
  · rw [hforfeited, sumOver_singleton]
    cases upheld <;> rfl
  · rw [hbonds, sumOver_singleton]
    cases upheld <;> exact sub_eq_add_neg _ _
  · rw [appealPositions_move h.heldKeys _ hheld, sumOver_singleton]
    cases upheld <;> rfl

end

end PRF.Sew
