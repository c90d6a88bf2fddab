import ProtocolRobustness.Library.Fallible
import ProtocolRobustness.Library.GroupSum
import ProtocolRobustness.Sew.World

/-!
# The held ledger

`add-held` and `sub-held` of `sew/accounting.clj`, with the positions of
`accounting/held_position_policy.clj`.  The reason of a movement selects the account, the account
and the scope of the movement select the position.  The other dimensions of the ledger index are
written alongside and read by nothing here.

* `positionId`           the position of a movement;
* `Held.add`, `Held.sub`   the movements, with the guards of a debit;
* `Held.move`            what both do to the ledger.
-/

namespace PRF.Sew
open Table Fallible

/-! ## positions -/

inductive HeldReason
  | escrowPrincipalDeposited | escrowSettlementReleased | escrowSettlementRefunded
  | deferredYieldReclassifiedOut | deferredYieldReserved | yieldDistributed
  | appealBondPosted | appealBondReturned | appealBondDistributed | appealBondSlashed
  | appealBondForfeited | resolverSlashCustodyDebited
deriving DecidableEq

/-- `held-position-policy` -/
def HeldReason.account : HeldReason → HeldAccount
  | .escrowPrincipalDeposited | .escrowSettlementReleased | .escrowSettlementRefunded
  | .deferredYieldReclassifiedOut => .escrowPrincipal
  | .deferredYieldReserved | .yieldDistributed => .yieldCustody
  | .appealBondPosted | .appealBondReturned | .appealBondDistributed | .appealBondSlashed
  | .appealBondForfeited => .appealBond
  | .resolverSlashCustodyDebited => .resolverSlashCustody

/-- the scope of a movement; every caller names the workflow -/
structure HeldScope where
  workflowId : ℕ
  slashId : Option ℕ := none
  bondId : Option BondId := none
  actor : Option Address := none
  resolver : Option Address := none

/-- the values of the scope keys of an account, absent ones left out -/
def HeldAccount.scopeValues (account : HeldAccount) (scope : HeldScope) : List ScopeValue :=
  match account with
  | .escrowPrincipal | .yieldCustody => [.id scope.workflowId]
  | .appealBond =>
    [scope.slashId.map .id, scope.bondId.map .bond, some (.id scope.workflowId),
      scope.actor.map .address].reduceOption
  | .resolverSlashCustody => [scope.resolver.map .address, some (.id scope.workflowId)].reduceOption

def positionId (token : Token) (reason : HeldReason) (scope : HeldScope) : PositionId :=
  ⟨token, reason.account, reason.account.scopeValues scope⟩

def principalPosition (token : Token) (workflowId : ℕ) : PositionId :=
  ⟨token, .escrowPrincipal, [.id workflowId]⟩

/-- an open appeal bond -/
def bondPosition (token : Token) (bondId : BondId) (workflowId : ℕ) (actor : Address) : PositionId :=
  ⟨token, .appealBond, [.bond bondId, .id workflowId, .address actor]⟩

/-! ## movements -/

/-- an amount added to what a token has and to one of its positions -/
def Held.move (held : Held) (position : PositionId) (amount : ℤ) : Held where
  total := Function.update held.total position.token (held.total position.token + amount)
  positions := GroupSum.add held.positions (position, amount)

/-- `add-held` -/
def Held.add (held : Held) (token : Token) (amount : ℤ) (reason : HeldReason) (scope : HeldScope) :
    Except Failure Held :=
  if amount < 0 then .error .invalidHeldAmount
  else .ok (held.move (positionId token reason scope) amount)

/-- `sub-held` -/
def Held.sub (held : Held) (token : Token) (amount : ℤ) (reason : HeldReason) (scope : HeldScope) :
    Except Failure Held :=
  if amount < 0 then .error .invalidHeldAmount
  else if held.total token < amount then .error .subHeldUnderflow
  else if held.position (positionId token reason scope) < amount then
    .error .subHeldPositionUnderflow
  else .ok (held.move (positionId token reason scope) (-amount))

def World.addHeld (w : World) (token : Token) (amount : ℤ) (reason : HeldReason)
    (scope : HeldScope) : Except Failure World :=
  (w.held.add token amount reason scope).map fun held => { w with held := held }

def World.subHeld (w : World) (token : Token) (amount : ℤ) (reason : HeldReason)
    (scope : HeldScope) : Except Failure World :=
  (w.held.sub token amount reason scope).map fun held => { w with held := held }

theorem World.addHeld_ok {w w' : World} {token : Token} {amount : ℤ} {reason : HeldReason}
    {scope : HeldScope} : w.addHeld token amount reason scope = .ok w' ↔ 0 ≤ amount ∧
      { w with held := w.held.move (positionId token reason scope) amount } = w' := by
  unfold World.addHeld Held.add
  simp only [map_eq_ok, refuse_eq_ok, not_lt, Except.ok.injEq, and_assoc, exists_and_left,
    exists_eq_left']

theorem World.subHeld_ok {w w' : World} {token : Token} {amount : ℤ} {reason : HeldReason}
    {scope : HeldScope} : w.subHeld token amount reason scope = .ok w' ↔
      0 ≤ amount ∧ amount ≤ w.held.total token ∧
      amount ≤ w.held.position (positionId token reason scope) ∧
      { w with held := w.held.move (positionId token reason scope) (-amount) } = w' := by
  unfold World.subHeld Held.sub
  simp only [map_eq_ok, refuse_eq_ok, not_lt, Except.ok.injEq, and_assoc, exists_and_left,
    exists_eq_left']

namespace Held
variable (held : Held) (position : PositionId) (amount : ℤ)

theorem position_move (other : PositionId) : (held.move position amount).position other
    = if position = other then held.position other + amount else held.position other := by
  unfold Held.position Held.move
  rw [GroupSum.find_add]
  by_cases h : position = other <;> simp [h]

theorem total_move (token : Token) : (held.move position amount).total token
    = if position.token = token then held.total token + amount else held.total token := by
  show Function.update held.total position.token _ token = _
  by_cases h : position.token = token
  · rw [if_pos h, ← h, Function.update_self]
  · rw [if_neg h, Function.update_of_ne (Ne.symm h)]

end Held

end PRF.Sew
