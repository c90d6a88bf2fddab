import ProtocolRobustness.Library.Fallible
import ProtocolRobustness.Lifecycle.Clojure
import ProtocolRobustness.Lifecycle.Machine
import ProtocolRobustness.Lifecycle.Rust

/-!
# Both kernels keep the accounts

* `Movement.read`             the custody a command reports, from its own fields;
* `Rust.handle_move`, `Clojure.transition_move`   an accepted command is a move of the machine;
* `account`, `history`        the state and the ledger after a list of commands, where a command
                              that is not accepted changes neither;
* `lifecycle_accounts`        every history of either kernel keeps the accounts.
-/

namespace PRF.Lifecycle
open Fallible

/-- what a command of a kind moves, by the fields that report it -/
def Movement.read (amountAt : String → Option ℤ) (entitlement : Option String) : Kind → Movement
  | .fund => ((amountAt "custody-received").map .received).getD .nothing
  | .cancel => ((amountAt "custody-refunded").map .refunded).getD .nothing
  | .withdraw => ((amountAt "custody-sent").map (.sent (entitlement.getD ""))).getD .nothing
  | .reserve | .release | .expire | .activate | .close => .nothing

/-! ## the Rust kernel -/

namespace Rust

section
variable (parseBigInt : String → Option ℤ)

def reported (value : Json) : Kind → Movement :=
  Movement.read (fun key => parseAmount parseBigInt value key none) (string value "entitlement-id")

def movement (value : Json) : Movement :=
  (((string value "type").bind Kind.ofString?).map (reported parseBigInt value)).getD .nothing

end

section
variable {parseBigInt : String → Option ℤ} {s s' : State ℕ} {v : Json}

theorem reserve_move (h : reserve parseBigInt s v = .ok s') : Move s .nothing s' := by
  simp only [reserve, bind_eq_ok, rejectIf_eq_ok, orReject_eq_ok, exists_const, pure, Except.pure,
    Except.ok.injEq] at h
  obtain ⟨hs, op, hop, _, hamount, _, asset, hasset, rfl⟩ := h
  have hne := Option.filter_eq_some_iff.mp hop
  have hobj := Option.filter_eq_some_iff.mp hasset
  exact Move.reserve (not_not.mp hs) (by simpa using hne.2) (by omega) (by simpa using hobj.2)

theorem release_move (h : release s v = .ok s') : Move s .nothing s' := by
  simp only [release, bind_eq_ok, rejectIf_eq_ok, exists_const, pure, Except.pure,
    Except.ok.injEq] at h
  obtain ⟨_, hs, _, rfl⟩ := h
  exact Move.release (not_not.mp hs)

theorem expire_move (h : expire s v = .ok s') : Move s .nothing s' := by
  simp only [expire, bind_eq_ok, rejectIf_eq_ok, exists_const, pure, Except.pure,
    Except.ok.injEq] at h
  obtain ⟨_, hs, _, rfl⟩ := h
  exact Move.expire (not_not.mp hs)

theorem fund_move (h : fund parseBigInt s v = .ok s') : Move s (reported parseBigInt v .fund) s' := by
  simp only [fund, bind_eq_ok, rejectIf_eq_ok, exists_const, pure, Except.pure, Except.ok.injEq,
    not_not] at h
  obtain ⟨_, hs, _, hamount, hcustody, rfl⟩ := h
  have hm : reported parseBigInt v .fund = .received s.reservedAmount := by
    simp [reported, Movement.read, hcustody]
  rw [hm, hamount]
  exact Move.fund hs

theorem activate_move (h : activate parseBigInt s v = .ok s') : Move s .nothing s' := by
  simp only [activate, bind_eq_ok, rejectIf_eq_ok, orReject_eq_ok, exists_const, pure, Except.pure,
    Except.ok.injEq] at h
  obtain ⟨_, hs, _, basis, _, _, basisRef, _, _, _, _, representationRef, _, hcount, rfl⟩ := h
  exact Move.activate (not_not.mp hs) (Nat.pos_of_ne_zero hcount)

theorem cancel_move (h : cancel parseBigInt s v = .ok s') :
    Move s (reported parseBigInt v .cancel) s' := by
  simp only [cancel, bind_eq_ok, rejectIf_eq_ok, exists_const, pure, Except.pure, Except.ok.injEq,
    not_not] at h
  obtain ⟨_, hs, _, hcustody, rfl⟩ := h
  have hm : reported parseBigInt v .cancel = .refunded s.fundedAmount := by
    simp [reported, Movement.read, hcustody]
  rw [hm]
  exact Move.cancel hs

theorem withdraw_move (h : withdraw parseBigInt s v = .ok s') :
    Move s (reported parseBigInt v .withdraw) s' := by
  simp only [withdraw, bind_eq_ok, rejectIf_eq_ok, exists_const, pure, Except.pure,
    Except.ok.injEq] at h
  obtain ⟨_, hs, hid, hne, _, hcount, hpos, hle, hcustody, rfl⟩ := h
  have hm : reported parseBigInt v .withdraw
      = .sent ((string v "entitlement-id").getD "") (requestedAmount parseBigInt v) := by
    simp [reported, Movement.read, not_not.mp hcustody]
  rw [hm]
  exact Move.withdraw (not_not.mp hs) hid hne (by omega) (by omega) (by omega)

theorem close_move (h : close s v = .ok s') : Move s .nothing s' := by
  simp only [close, bind_eq_ok, rejectIf_eq_ok, exists_const, pure, Except.pure,
    Except.ok.injEq, not_or, not_not] at h
  obtain ⟨_, hs, ⟨hcount, hzero⟩, rfl⟩ := h
  exact Move.close hs hcount hzero

theorem transition_move {command : Command} (h : transition parseBigInt s command = .ok s') :
    Move s (reported parseBigInt command.value command.kind) s' := by
  unfold transition at h
  cases hk : command.kind <;> rw [hk] at h
  case reserve => exact reserve_move h
  case release => exact release_move h
  case expire => exact expire_move h
  case fund => exact fund_move h
  case activate => exact activate_move h
  case cancel => exact cancel_move h
  case withdraw => exact withdraw_move h
  case close => exact close_move h

theorem tryFrom_value {command : Command} (h : Command.tryFrom v = .ok command) :
    command.value = v := by
  unfold Command.tryFrom at h
  split at h
  · cases h
  · split at h
    · cases h
    · split at h
      · cases h
        rfl
      · cases h

/-- **An accepted document is a move of the machine.** -/
theorem handle_move (h : handle parseBigInt s v = .ok s') : Move s (movement parseBigInt v) s' := by
  obtain ⟨command, hc, ht⟩ := bind_eq_ok.mp h
  have hm := transition_move ht
  have hnamed := command.named
  rw [tryFrom_value hc] at hm hnamed
  rw [movement, hnamed]
  exact hm

end

end Rust

/-! ## the Clojure kernel -/

namespace Clojure

section
variable (digit : Char → Option ℕ)

def reported (command : Json) : Kind → Movement :=
  Movement.read (fun key => amountValue digit (command.field key))
    (name? (command.field "entitlement-id"))

def movement (command : Json) : Movement :=
  ((kind? command).map (reported digit command)).getD .nothing

end

section
variable {digit : Char → Option ℕ} {toDouble : ℤ → ℚ} {s s' : State Json} {command : Json}

theorem name?_ne {x : Option Json} {id : String} (h : name? x = some id) : id ≠ "" := by
  have hf := Option.filter_eq_some_iff.mp h
  simpa using hf.2

theorem name?_eq {x : Option Json} {id : String} (h : name? x = some id) : x = some (.str id) := by
  obtain ⟨v, hv, hs⟩ := Option.bind_eq_some_iff.mp (Option.filter_eq_some_iff.mp h).1
  cases v with
  | str s =>
    cases hs
    exact hv
  | _ => cases hs

theorem posInt?_pos {x : Option Json} {n : ℕ} (h : posInt? x = some n) : 0 < n := by
  unfold posInt? at h
  split at h
  · split at h
    · cases h
      omega
    · cases h
  · cases h

theorem reserve_move (h : reserve digit toDouble s command = .ok s') : Move s .nothing s' := by
  simp only [reserve, bind_eq_ok, rejectIf_eq_ok, orReject_eq_ok, exists_const, pure, Except.pure,
    Except.ok.injEq] at h
  obtain ⟨hs, op, hop, _, hamount, late, _, _, hasset, rfl⟩ := h
  -- an asset reference that is an object is there
  have hobj : (nilable (command.field "asset-ref")).nonEmptyObject = true := by simpa using hasset
  cases hf : command.field "asset-ref" with
  | none => rw [hf] at hobj; cases hobj
  | some asset =>
    rw [hf] at hobj
    exact Move.reserve (not_not.mp hs) (name?_ne hop) (not_not.mp hamount) hobj

theorem release_move (h : release s command = .ok s') : Move s .nothing s' := by
  simp only [release, bind_eq_ok, rejectIf_eq_ok, exists_const, pure, Except.pure,
    Except.ok.injEq] at h
  obtain ⟨_, hs, _, rfl⟩ := h
  exact Move.release (not_not.mp hs)

theorem expire_move (h : expire toDouble s command = .ok s') : Move s .nothing s' := by
  simp only [expire, bind_eq_ok, rejectIf_eq_ok, exists_const, pure, Except.pure,
    Except.ok.injEq] at h
  obtain ⟨_, hs, _, _, _, rfl⟩ := h
  exact Move.expire (not_not.mp hs)

theorem fund_move (h : fund digit toDouble s command = .ok s') :
    Move s (reported digit command .fund) s' := by
  simp only [fund, bind_eq_ok, rejectIf_eq_ok, exists_const, pure, Except.pure, Except.ok.injEq,
    not_not] at h
  obtain ⟨_, hs, _, _, _, hamount, hcustody, rfl⟩ := h
  have hm : reported digit command .fund = .received s.reservedAmount := by
    simp [reported, Movement.read, ← hcustody]
  rw [hm, ← hamount]
  exact Move.fund hs

theorem activate_move (h : activate digit s command = .ok s') : Move s .nothing s' := by
  simp only [activate, bind_eq_ok, rejectIf_eq_ok, orReject_eq_ok, exists_const, pure, Except.pure,
    Except.ok.injEq] at h
  obtain ⟨_, hs, _, _, _, _, _, _, _, count, hcount, _, rfl⟩ := h
  exact Move.activate (not_not.mp hs) (posInt?_pos hcount)

theorem cancel_move (h : cancel digit s command = .ok s') :
    Move s (reported digit command .cancel) s' := by
  simp only [cancel, bind_eq_ok, rejectIf_eq_ok, exists_const, pure, Except.pure, Except.ok.injEq,
    not_not] at h
  obtain ⟨_, hs, _, hcustody, rfl⟩ := h
  have hm : reported digit command .cancel = .refunded s.fundedAmount := by
    simp [reported, Movement.read, ← hcustody]
  rw [hm]
  exact Move.cancel hs

theorem withdraw_move (h : withdraw digit s command = .ok s') :
    Move s (reported digit command .withdraw) s' := by
  simp only [withdraw, bind_eq_ok, rejectIf_eq_ok, orReject_eq_ok, exists_const, pure, Except.pure,
    Except.ok.injEq] at h
  obtain ⟨_, hs, hclaimed, id, hid, _, hcount, hpos, hle, hcustody, rfl⟩ := h
  have hm : reported digit command .withdraw = .sent id (amount digit command) := by
    simp [reported, Movement.read, ← not_not.mp hcustody, hid]
  have hnew : id ∉ s.claimedIds := fun hmem => hclaimed ⟨id, hmem, name?_eq hid⟩
  rw [hm]
  exact Move.withdraw (not_not.mp hs) hnew (name?_ne hid) (by omega) (by omega) (by omega)

theorem close_move (h : close s command = .ok s') : Move s .nothing s' := by
  simp only [close, bind_eq_ok, rejectIf_eq_ok, exists_const, pure, Except.pure,
    Except.ok.injEq, not_or, not_not] at h
  obtain ⟨_, hs, ⟨hcount, hzero⟩, rfl⟩ := h
  exact Move.close hs hcount hzero

theorem branch_move {kind : Kind} (h : branch digit toDouble s command kind = .ok s') :
    Move s (reported digit command kind) s' := by
  cases kind with
  | reserve => exact reserve_move h
  | release => exact release_move h
  | expire => exact expire_move h
  | fund => exact fund_move h
  | activate => exact activate_move h
  | cancel => exact cancel_move h
  | withdraw => exact withdraw_move h
  | close => exact close_move h

/-- **An accepted command is a move of the machine.** -/
theorem transition_move (h : transition digit toDouble s command = .ok s') :
    Move s (movement digit command) s' := by
  simp only [transition, bind_eq_ok, orReject_eq_ok] at h
  obtain ⟨kind, hk, _, _, hb⟩ := h
  rw [movement, hk]
  exact branch_move hb

end

end Clojure

/-! ## histories -/

section
variable {τ : Type} (step : State τ → Json → Except Failure (State τ)) (moved : Json → Movement)

/-- an accepted command is a move of the machine -/
def Implements : Prop :=
  ∀ s command s', step s command = .ok s' → Move s (moved command) s'

/-- one command; unless it is accepted nothing changes -/
def account (p : State τ × Ledger) (command : Json) : State τ × Ledger :=
  match step p.1 command with
  | .ok s => (s, p.2.record (moved command))
  | .error _ => p

/-- the state and the ledger after the commands -/
def history (commands : List Json) : State τ × Ledger :=
  commands.foldl (account step moved) (.initial, .empty)

variable {step moved}

theorem account_inv (hmove : Implements step moved)
    {p : State τ × Ledger} (h : Inv p.1 p.2) (command : Json) :
    Inv (account step moved p command).1 (account step moved p command).2 := by
  unfold account
  cases hs : step p.1 command with
  | ok s' => exact (hmove _ _ _ hs).inv h
  | error e => exact h

theorem history_inv (hmove : Implements step moved)
    (commands : List Json) :
    Inv (history step moved commands).1 (history step moved commands).2 := by
  induction commands using List.reverseRecOn with
  | nil => exact Inv.initial
  | append_singleton commands command ih =>
    rw [history, List.foldl_append]
    exact account_inv hmove ih command

variable (step moved)

/-- the accounts of a history, and the end of the ones that are over -/
structure Settled (commands : List Json) : Prop where
  accounts : Accounts (history step moved commands).1 (history step moved commands).2
  final : (history step moved commands).1.status.terminal = true →
    ∀ command s', step (history step moved commands).1 command ≠ .ok s'

variable {step moved}

theorem history_settled (hmove : Implements step moved)
    (commands : List Json) : Settled step moved commands where
  accounts := (history_inv hmove commands).accounts
  final := by
    intro hterm command s' hs
    have hnot := (hmove _ _ _ hs).not_terminal
    rw [hterm] at hnot
    cases hnot

end

theorem Rust.implements {parseBigInt : String → Option ℤ} :
    Implements (Rust.handle parseBigInt) (Rust.movement parseBigInt) :=
  fun _ _ _ => Rust.handle_move

theorem Clojure.implements {digit : Char → Option ℕ} {toDouble : ℤ → ℚ} :
    Implements (Clojure.transition digit toDouble) (Clojure.movement digit) :=
  fun _ _ _ => Clojure.transition_move

/-- **Every history of either kernel keeps the accounts.** -/
theorem lifecycle_accounts (parseBigInt : String → Option ℤ) (digit : Char → Option ℕ)
    (toDouble : ℤ → ℚ) (commands : List Json) :
    Settled (Rust.handle parseBigInt) (Rust.movement parseBigInt) commands ∧
      Settled (Clojure.transition digit toDouble) (Clojure.movement digit) commands :=
  ⟨history_settled Rust.implements commands, history_settled Clojure.implements commands⟩

end PRF.Lifecycle
