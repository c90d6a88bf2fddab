import Mathlib
import ProtocolRobustness.Library.Runs
import ProtocolRobustness.Lifecycle.Accounting
import ProtocolRobustness.Lifecycle.Parity

/-!
# Operations that can be brought to their close

An activated operation is paid out entitlement by entitlement and closed when nothing is left of
either, entitlements or liability.  A withdrawal checks the two of them apart, so an operation can
run out of one while there is some of the other, and no further command ends it.

* `Sound`            an activated operation has an entitlement left exactly while it owes, and can be
                     paid out and closed;
* `Prudent`          what activation and withdrawal have to leave for that;
* `Kernel`           what both kernels accept, and with which effect;
* `Kernel.finishable_iff`   an operation can be closed iff each entitlement left can have a unit, and
                     the last of them all the rest;
* `lifecycle_sound_iff`   a run of either kernel stays sound iff its steps are prudent.
-/

namespace PRF.Lifecycle
open Fallible Runs

/-! ## soundness -/

/-- the kind of a command, by its `type` -/
def kindOf (command : Json) : Option Kind :=
  ((command.field "type").bind Json.string?).bind Kind.ofString?

section
variable {τ : Type}

/-- entitlements that have not been claimed -/
def unclaimed (s : State τ) : ℤ := s.entitlementCount - s.claimedCount

/-- an entitlement is left exactly while something is owed -/
def Matched (s : State τ) : Prop :=
  s.claimedCount < s.entitlementCount ↔ 0 < s.liabilityRemaining

section
variable (step : State τ → Json → Except Failure (State τ))

/-- the commands are accepted one after the other, and lead to the state -/
def Accepts (s : State τ) : List Json → State τ → Prop
  | [], s' => s' = s
  | command :: commands, s' => ∃ s₁, step s command = .ok s₁ ∧ Accepts s₁ commands s'

/-- some withdrawals and then a close are accepted -/
def Finishable (s : State τ) : Prop :=
  ∃ withdrawals last s', (∀ command ∈ withdrawals, kindOf command = some .withdraw) ∧
    kindOf last = some .close ∧ Accepts step s (withdrawals ++ [last]) s'

/-- not stranded -/
def Sound (s : State τ) : Prop := s.status = .activated → Matched s ∧ Finishable step s

variable (moved : Json → Movement) (memberCount : Json → ℕ)

/-- the amount of a withdrawal -/
def Movement.amount : Movement → ℤ
  | .sent _ amount => amount
  | _ => 0

/-- activation has a unit for each member; a withdrawal leaves one for each entitlement that is
left, and nothing when it is the last -/
def Prudent (s : State τ) (command : Json) : Prop :=
  match kindOf command with
  | some .activate => (memberCount command : ℤ) ≤ s.fundedAmount
  | some .withdraw => unclaimed s - 1 ≤ s.liabilityRemaining - (moved command).amount ∧
      (unclaimed s = 1 → (moved command).amount = s.liabilityRemaining)
  | _ => True

instance (s : State τ) (command : Json) : Decidable (Prudent moved memberCount s command) := by
  unfold Prudent
  split <;> infer_instance

/-! ## kernels -/

/-- what a kernel accepts, and with which effect -/
structure Kernel : Prop where
  implements : Implements step moved
  activate : ∀ {s command s'}, step s command = .ok s' → kindOf command = some .activate →
    s.status = .funded ∧ s'.status = .activated ∧ 0 < memberCount command ∧
      s'.entitlementCount = memberCount command ∧
      s'.claimedCount = s.claimedCount ∧ s'.liabilityRemaining = s.fundedAmount
  withdraw : ∀ {s command s'}, step s command = .ok s' → kindOf command = some .withdraw →
    s.status = .activated ∧ s'.status = .activated ∧ s'.entitlementCount = s.entitlementCount ∧
      s'.claimedCount = s.claimedCount + 1 ∧ 0 < (moved command).amount ∧
      s'.liabilityRemaining = s.liabilityRemaining - (moved command).amount
  close : ∀ {s command s'}, step s command = .ok s' → kindOf command = some .close →
    s.claimedCount = s.entitlementCount ∧ s.liabilityRemaining = 0
  other : ∀ {s command s'}, step s command = .ok s' → kindOf command ≠ some .activate →
    kindOf command ≠ some .withdraw → s'.status ≠ .activated
  /-- a withdrawal that keeps to both limits is accepted -/
  payable : ∀ {s : State τ} {op id : String} {amount : ℤ}, s.status = .activated →
    s.operationId = some op → op ≠ "" → id ∉ s.claimedIds → id ≠ "" →
    s.claimedCount < s.entitlementCount → 0 < amount → amount ≤ s.liabilityRemaining →
    ∃ command, kindOf command = some .withdraw ∧ step s command = .ok
      { s with
        claimedCount := s.claimedCount + 1
        claimedIds := s.claimedIds ++ [id]
        liabilityRemaining := s.liabilityRemaining - amount }
  /-- an operation with nothing left is closed -/
  closable : ∀ {s : State τ} {op : String}, s.status = .activated →
    s.operationId = some op → op ≠ "" → s.claimedCount = s.entitlementCount →
    s.liabilityRemaining = 0 →
    ∃ command, kindOf command = some .close ∧ step s command = .ok { s with status := .closed }

end

/-! ## the name of an operation -/

/-- an operation that has begun has a name -/
def Named (s : State τ) : Prop := s.status ≠ .none → ∃ op, s.operationId = some op ∧ op ≠ ""

theorem Move.named {s s' : State τ} {m : Movement} (hm : Move s m s') (h : Named s) : Named s' := by
  cases hm with
  | @reserve op _ _ _ hs hop => exact fun _ => ⟨op, rfl, hop⟩
  | release hs | expire hs | fund hs | activate hs | cancel hs | withdraw hs | close hs =>
    intro _
    exact h (by rw [hs]; decide)

/-- what a run leads to -/
def Reached (s : State τ) : Prop := Named s ∧ ∃ l, Inv s l

theorem Reached.initial : Reached (State.initial : State τ) :=
  ⟨fun h => absurd rfl h, .empty, Inv.initial⟩

theorem Reached.move {s s' : State τ} {m : Movement} (h : Reached s) (hm : Move s m s') :
    Reached s' := by
  obtain ⟨hn, l, hi⟩ := h
  exact ⟨hm.named hn, l.record m, hm.inv hi⟩

theorem exists_fresh (ids : List String) : ∃ id, id ∉ ids ∧ id ≠ "" := by
  let id := String.ofList (List.replicate ((ids.map String.length).sum + 1) 'x')
  have hlen : id.length = (ids.map String.length).sum + 1 := by simp [id]
  refine ⟨id, fun hmem => ?_, fun he => ?_⟩
  · have hle := List.single_le_sum (l := ids.map String.length) (fun _ _ => Nat.zero_le _) id.length
      (List.mem_map_of_mem hmem)
    omega
  · rw [he] at hlen
    simp at hlen

/-! ## when an operation can be closed -/

namespace Kernel
variable {step : State τ → Json → Except Failure (State τ)} {moved : Json → Movement}
  {memberCount : Json → ℕ} (K : Kernel step moved memberCount)
include K

theorem enough_of_accepts {s s' : State τ} {withdrawals : List Json} {last : Json}
    (hw : ∀ command ∈ withdrawals, kindOf command = some .withdraw)
    (hlast : kindOf last = some .close) (hacc : Accepts step s (withdrawals ++ [last]) s') :
    unclaimed s = withdrawals.length ∧ unclaimed s ≤ s.liabilityRemaining ∧
      (unclaimed s = 0 → s.liabilityRemaining = 0) := by
  induction withdrawals generalizing s with
  | nil =>
    obtain ⟨s₁, hs, -⟩ := hacc
    obtain ⟨hcount, hzero⟩ := K.close hs hlast
    have hnone : unclaimed s = 0 := by
      unfold unclaimed
      omega
    exact ⟨hnone, by omega, fun _ => hzero⟩
  | cons command withdrawals ih =>
    obtain ⟨s₁, hs, hrest⟩ := hacc
    obtain ⟨_, _, hcount, hclaimed, hpos, hleft⟩ := K.withdraw hs (hw command List.mem_cons_self)
    obtain ⟨hlen, hle, hzero⟩ := ih (fun c hc => hw c (List.mem_cons_of_mem _ hc)) hrest
    have hone : unclaimed s = unclaimed s₁ + 1 := by
      unfold unclaimed
      omega
    rw [List.length_cons]
    push_cast
    exact ⟨by omega, by omega, fun h => by omega⟩

/-- a unit for each entitlement but the last, and then the rest -/
theorem finishable_of_enough {s : State τ} {op : String} (n : ℕ) (hs : s.status = .activated)
    (hop : s.operationId = some op) (hne : op ≠ "") (hn : unclaimed s = n)
    (hle : (n : ℤ) ≤ s.liabilityRemaining) (hzero : n = 0 → s.liabilityRemaining = 0) :
    Finishable step s := by
  induction n generalizing s with
  | zero =>
    have hcount : s.claimedCount = s.entitlementCount := by
      unfold unclaimed at hn
      omega
    obtain ⟨last, hlast, hclose⟩ := K.closable hs hop hne hcount (hzero rfl)
    exact ⟨[], last, _, nofun, hlast, _, hclose, rfl⟩
  | succ n ih =>
    obtain ⟨id, hid, hid0⟩ := exists_fresh s.claimedIds
    have hcount : s.claimedCount < s.entitlementCount := by
      unfold unclaimed at hn
      omega
    -- the last entitlement takes what is left, any other one unit
    let amount : ℤ := if n = 0 then s.liabilityRemaining else 1
    have hpos : 0 < amount ∧ amount ≤ s.liabilityRemaining ∧
        (n : ℤ) ≤ s.liabilityRemaining - amount ∧ (n = 0 → s.liabilityRemaining - amount = 0) := by
      show 0 < ite _ _ _ ∧ ite _ _ _ ≤ _ ∧ (n : ℤ) ≤ _ - ite _ _ _ ∧ (n = 0 → _ - ite _ _ _ = 0)
      push_cast at hle
      split <;> omega
    obtain ⟨command, hkind, hstep⟩ :=
      K.payable hs hop hne hid hid0 hcount hpos.1 hpos.2.1
    obtain ⟨withdrawals, last, s', hw, hlast, hacc⟩ := ih (s := { s with
        claimedCount := s.claimedCount + 1
        claimedIds := s.claimedIds ++ [id]
        liabilityRemaining := s.liabilityRemaining - amount }) hs hop
      (by
        unfold unclaimed at hn ⊢
        push_cast at hn ⊢
        omega) hpos.2.2.1 hpos.2.2.2
    refine ⟨command :: withdrawals, last, s', fun c hc => ?_, hlast, _, hstep, hacc⟩
    rcases List.mem_cons.mp hc with rfl | hc
    · exact hkind
    · exact hw c hc

/-- **An operation can be closed iff each entitlement that is left can have a unit, and nothing is
left without one.** -/
theorem finishable_iff {s : State τ} (hr : Reached s) (hs : s.status = .activated) :
    Finishable step s ↔
      unclaimed s ≤ s.liabilityRemaining ∧ (unclaimed s = 0 → s.liabilityRemaining = 0) := by
  obtain ⟨hnamed, l, hi⟩ := hr
  obtain ⟨op, hop, hne⟩ := hnamed (by rw [hs]; decide)
  have hp : Paying s l := hi.at hs
  have hle := hp.count_le
  constructor
  · rintro ⟨withdrawals, last, s', hw, hlast, hacc⟩
    exact (K.enough_of_accepts hw hlast hacc).2
  · rintro ⟨henough, hzero⟩
    have hn : unclaimed s = (s.entitlementCount - s.claimedCount : ℕ) := by
      unfold unclaimed
      omega
    exact K.finishable_of_enough _ hs hop hne hn (hn ▸ henough) fun h => hzero (by omega)

theorem sound_iff {s : State τ} (hr : Reached s) :
    Sound step s ↔ (s.status = .activated →
      unclaimed s ≤ s.liabilityRemaining ∧ (unclaimed s = 0 → s.liabilityRemaining = 0)) := by
  refine forall_congr' fun hs => ?_
  rw [K.finishable_iff hr hs, and_iff_right_iff_imp]
  rintro ⟨hle, hzero⟩
  obtain ⟨_, l, hi⟩ := hr
  have hp : Paying s l := hi.at hs
  have hcount := hp.count_le
  unfold Matched
  unfold unclaimed at hle hzero
  omega

/-! ## runs -/

theorem step_sound_iff {s s' : State τ} {command : Json} (hr : Reached s) (hs : Sound step s)
    (h : step s command = .ok s') :
    Sound step s' ↔ Prudent moved memberCount s command := by
  have hm := K.implements _ _ _ h
  have hr' := hr.move hm
  rw [K.sound_iff hr']
  rw [K.sound_iff hr] at hs
  unfold Prudent
  split
  · next hk =>
    obtain ⟨hst, hst', hmember, hcount, hclaimed, hleft⟩ := K.activate h hk
    obtain ⟨_, l, hi⟩ := hr
    obtain ⟨hidle, _, hpos⟩ := hi.at hst
    have hnone := hidle.claimedCount
    have hall : unclaimed s' = memberCount command := by
      unfold unclaimed
      omega
    rw [forall_prop_of_true hst', hall, hleft]
    exact ⟨fun h => h.1, fun h => ⟨h, fun h0 => by omega⟩⟩
  · next hk =>
    obtain ⟨hst, hst', hcount, hclaimed, hpos, hleft⟩ := K.withdraw h hk
    have hone : unclaimed s' = unclaimed s - 1 := by
      unfold unclaimed
      omega
    rw [forall_prop_of_true hst', hone, hleft]
    refine and_congr_right fun _ => ?_
    exact ⟨fun h h1 => by have := h (by omega); omega, fun h h1 => by have := h (by omega); omega⟩
  · next hna hnw =>
    exact iff_of_true (fun hst' => absurd hst' (K.other h hna hnw)) trivial

/-- **A run stays sound iff its steps are prudent.** -/
theorem run_sound_iff (commands : List Json) :
    (∀ n, Sound step (run step .initial (commands.take n))) ↔
      Along step (Prudent moved memberCount) .initial commands := by
  refine along_iff_kept (R := Reached) (D := fun _ _ => True) ?_ ?_ Reached.initial nofun ?_
  · exact fun s command s' hr _ h => hr.move (K.implements _ _ _ h)
  · exact fun s command s' hr hs _ h => K.step_sound_iff hr hs h
  · exact along_of_invariant (I := fun _ => True) (fun _ _ _ _ _ => trivial)
      (fun _ _ _ _ => trivial) trivial commands

end Kernel

end

/-! ## the two kernels -/

def withdrawCommand (op id : String) (amount : Json) : Json := .obj
  [("type", .str "withdraw"), ("operation-id", .str op), ("entitlement-id", .str id),
    ("amount", amount), ("admitted?", .bool true), ("custody-sent", amount)]

def closeCommand (op : String) : Json := .obj [("type", .str "close"), ("operation-id", .str op)]

theorem withdrawCommand_fields {op id : String} {amount : Json} :
    ∀ key ∈ (withdrawCommand op id amount).keys, key ∈ Kind.withdraw.fields := by
  show ∀ key ∈ ["type", "operation-id", "entitlement-id", "amount", "admitted?", "custody-sent"], _
  decide

theorem closeCommand_fields {op : String} :
    ∀ key ∈ (closeCommand op).keys, key ∈ Kind.close.fields := by
  show ∀ key ∈ ["type", "operation-id"], _
  decide

def Rust.memberCount (command : Json) : ℕ :=
  ((command.field "basis").bind fun basis => Rust.uint basis "member-count").getD 0

theorem Rust.transition_of_kind {parseBigInt : String → Option ℤ} {s s' : State ℕ} {v : Json}
    {kind : Kind} (h : Rust.handle parseBigInt s v = .ok s') (hk : kindOf v = some kind) :
    ∃ command : Rust.Command, command.value = v ∧ command.kind = kind ∧
      Rust.transition parseBigInt s command = .ok s' := by
  obtain ⟨command, hc, ht⟩ := bind_eq_ok.mp h
  have hv := Rust.tryFrom_value hc
  have hnamed := command.named
  rw [hv] at hnamed
  exact ⟨command, hv, Option.some.inj (hnamed.symm.trans hk), ht⟩

theorem Rust.kind_of_ok {parseBigInt : String → Option ℤ} {s s' : State ℕ} {v : Json}
    (h : Rust.handle parseBigInt s v = .ok s') : ∃ kind, kindOf v = some kind := by
  obtain ⟨command, hc, _⟩ := bind_eq_ok.mp h
  have hnamed := command.named
  rw [Rust.tryFrom_value hc] at hnamed
  exact ⟨command.kind, hnamed⟩

/-- the status a command leads to -/
def Kind.target : Kind → Status
  | .reserve => .reserved
  | .release => .released
  | .expire => .expired
  | .fund => .funded
  | .activate | .withdraw => .activated
  | .cancel => .cancelledRefunded
  | .close => .closed

theorem Kind.target_ne {kind : Kind} (ha : kind ≠ .activate) (hw : kind ≠ .withdraw) :
    kind.target ≠ .activated := by
  cases kind <;> first | decide | exact absurd rfl ha | exact absurd rfl hw

theorem Rust.transition_status {parseBigInt : String → Option ℤ} {s s' : State ℕ}
    {command : Rust.Command} (h : Rust.transition parseBigInt s command = .ok s') :
    s'.status = command.kind.target := by
  unfold Rust.transition at h
  cases hk : command.kind <;> rw [hk] at h <;>
    simp only [Rust.reserve, Rust.release, Rust.expire, Rust.fund, Rust.activate, Rust.cancel,
      Rust.withdraw, Rust.close, bind_eq_ok, rejectIf_eq_ok, orReject_eq_ok, exists_const, pure,
      Except.pure, Except.ok.injEq] at h
  case reserve =>
    obtain ⟨_, _, _, _, _, _, _, _, rfl⟩ := h
    rfl
  case release =>
    obtain ⟨_, _, _, rfl⟩ := h
    rfl
  case expire =>
    obtain ⟨_, _, _, rfl⟩ := h
    rfl
  case fund =>
    obtain ⟨_, _, _, _, _, rfl⟩ := h
    rfl
  case activate =>
    obtain ⟨_, _, _, _, _, _, _, _, _, _, _, _, _, _, rfl⟩ := h
    rfl
  case cancel =>
    obtain ⟨_, _, _, _, rfl⟩ := h
    rfl
  case withdraw =>
    obtain ⟨_, hs, _, _, _, _, _, _, _, rfl⟩ := h
    exact not_not.mp hs
  case close =>
    obtain ⟨_, _, _, rfl⟩ := h
    rfl

theorem Rust.handle_of {parseBigInt : String → Option ℤ} {s s' : State ℕ} {v : Json} {kind : Kind}
    (hobj : v.object?.isSome) (hk : kindOf v = some kind) (hf : ∀ key ∈ v.keys, key ∈ kind.fields)
    (h : ∀ command : Rust.Command, command.value = v → command.kind = kind →
      Rust.transition parseBigInt s command = .ok s') : Rust.handle parseBigInt s v = .ok s' := by
  have hc : Rust.Command.tryFrom v = .ok ⟨v, kind, hk, hf⟩ := by
    unfold Rust.Command.tryFrom
    obtain ⟨fields, hfields⟩ := Option.isSome_iff_exists.mp hobj
    have hk' : (Rust.string v "type").bind Kind.ofString? = some kind := hk
    simp only [hfields]
    split
    · next hnone => cases hnone.symm.trans hk'
    · next kind' hsome =>
      obtain rfl : kind' = kind := Option.some.inj (hsome.symm.trans hk')
      exact dif_pos hf
  exact bind_eq_ok.mpr ⟨_, hc, h _ rfl rfl⟩

theorem Rust.sameOperation_of {s : State ℕ} {v : Json} {op : String}
    (hop : s.operationId = some op) (hne : op ≠ "") (hv : Rust.string v "operation-id" = some op) :
    Rust.sameOperation s v = true := by
  simp [Rust.sameOperation, hop, hv, hne]

theorem Rust.kernel {parseBigInt : String → Option ℤ}
    (hparse : ∀ n : ℤ, 0 < n → parseBigInt (toString n) = some n) :
    Kernel (Rust.handle parseBigInt) (Rust.movement parseBigInt) Rust.memberCount where
  implements := Rust.implements
  activate := by
    intro s v s' h hk
    obtain ⟨command, rfl, hkind, ht⟩ := Rust.transition_of_kind h hk
    rw [Rust.transition, hkind] at ht
    simp only [Rust.activate, bind_eq_ok, rejectIf_eq_ok, orReject_eq_ok, exists_const, pure,
      Except.pure, Except.ok.injEq] at ht
    obtain ⟨_, hs, _, basis, hbasis, _, basisRef, _, _, _, _, representationRef, _, hcount, rfl⟩ := ht
    have hb : command.value.field "basis" = some basis := (Option.filter_eq_some_iff.mp hbasis).1
    have hm : Rust.memberCount command.value = (Rust.uint basis "member-count").getD 0 := by
      rw [Rust.memberCount, hb]
      rfl
    exact ⟨not_not.mp hs, rfl, by omega, hm.symm, rfl, rfl⟩
  withdraw := by
    intro s v s' h hk
    obtain ⟨command, rfl, hkind, ht⟩ := Rust.transition_of_kind h hk
    rw [Rust.transition, hkind] at ht
    simp only [Rust.withdraw, bind_eq_ok, rejectIf_eq_ok, exists_const, pure, Except.pure,
      Except.ok.injEq] at ht
    obtain ⟨_, hs, _, _, _, _, hpos, _, hcustody, rfl⟩ := ht
    have hm : (Rust.movement parseBigInt command.value).amount =
        Rust.requestedAmount parseBigInt command.value := by
      have hk' : (Rust.string command.value "type").bind Kind.ofString? = some .withdraw := hk
      simp [Rust.movement, hk', Rust.reported, Movement.read, not_not.mp hcustody, Movement.amount]
    rw [hm]
    exact ⟨not_not.mp hs, not_not.mp hs, rfl, rfl, by omega, rfl⟩
  close := by
    intro s v s' h hk
    obtain ⟨command, rfl, hkind, ht⟩ := Rust.transition_of_kind h hk
    rw [Rust.transition, hkind] at ht
    simp only [Rust.close, bind_eq_ok, rejectIf_eq_ok, exists_const, pure, Except.pure,
      Except.ok.injEq, not_or, not_not] at ht
    exact ht.2.2.1
  other := by
    intro s v s' h hna hnw hst
    obtain ⟨kind, hk⟩ := Rust.kind_of_ok h
    obtain ⟨command, rfl, hkind, ht⟩ := Rust.transition_of_kind h hk
    rw [Rust.transition_status ht, hkind] at hst
    exact Kind.target_ne (fun he => hna (he ▸ hk)) (fun he => hnw (he ▸ hk)) hst
  payable := by
    intro s op id amount hs hop hne hid hid0 hcount hpos hle
    refine ⟨withdrawCommand op id (.str (toString amount)), rfl, ?_⟩
    refine Rust.handle_of rfl rfl withdrawCommand_fields fun command hv hk => ?_
    rw [Rust.transition, hk, hv]
    have hamount : Rust.requestedAmount parseBigInt
        (withdrawCommand op id (.str (toString amount))) = amount := by
      show (((none : Option ℤ).or (parseBigInt (toString amount))).or (some 0)).getD 0 = amount
      rw [hparse amount hpos]
      rfl
    have hsent : Rust.parseAmount parseBigInt
        (withdrawCommand op id (.str (toString amount))) "custody-sent" none = some amount := by
      show ((none : Option ℤ).or (parseBigInt (toString amount))).or none = _
      rw [hparse amount hpos]
      rfl
    have hsame : Rust.sameOperation s (withdrawCommand op id (.str (toString amount))) = true :=
      Rust.sameOperation_of hop hne rfl
    have hid' : (Rust.string (withdrawCommand op id (.str (toString amount)))
        "entitlement-id").getD "" = id := rfl
    have hadmitted : Rust.boolean (withdrawCommand op id (.str (toString amount)))
        "admitted?" = true := rfl
    simp only [Rust.withdraw, bind_eq_ok, rejectIf_eq_ok, exists_const, pure, Except.pure, hid',
      hadmitted, hamount, hsent, hsame, hs]
    simp [hid, hid0, hcount, hpos, hle]
  closable := by
    intro s op hs hop hne hcount hzero
    refine ⟨closeCommand op, rfl, ?_⟩
    refine Rust.handle_of rfl rfl closeCommand_fields fun command hv hk => ?_
    rw [Rust.transition, hk, hv]
    have hsame : Rust.sameOperation s (closeCommand op) = true :=
      Rust.sameOperation_of hop hne rfl
    simp only [Rust.close, bind_eq_ok, rejectIf_eq_ok, exists_const, pure, Except.pure, hsame, hs]
    simp [hcount, hzero]

/-! ### Clojure -/

def Clojure.memberCount (command : Json) : ℕ :=
  (Clojure.posInt? ((Clojure.nilable (command.field "basis")).field "member-count")).getD 0

theorem Clojure.branch_of_kind {digit : Char → Option ℕ} {toDouble : ℤ → ℚ} {s s' : State Json}
    {command : Json} (h : Clojure.transition digit toDouble s command = .ok s') :
    ∃ kind, kindOf command = some kind ∧ Clojure.branch digit toDouble s command kind = .ok s' := by
  simp only [Clojure.transition, bind_eq_ok, orReject_eq_ok] at h
  obtain ⟨kind, hk, _, _, hb⟩ := h
  exact ⟨kind, hk, hb⟩

theorem Clojure.transition_of {digit : Char → Option ℕ} {toDouble : ℤ → ℚ} {s s' : State Json}
    {command : Json} {kind : Kind} (hk : kindOf command = some kind)
    (hf : ∀ key ∈ command.keys, key ∈ kind.fields)
    (h : Clojure.branch digit toDouble s command kind = .ok s') :
    Clojure.transition digit toDouble s command = .ok s' := by
  simp only [Clojure.transition, bind_eq_ok, orReject_eq_ok]
  exact ⟨kind, hk, (), rejectIf_of_not (not_not.mpr hf), h⟩

theorem Clojure.branch_status {digit : Char → Option ℕ} {toDouble : ℤ → ℚ} {s s' : State Json}
    {command : Json} {kind : Kind} (h : Clojure.branch digit toDouble s command kind = .ok s') :
    s'.status = kind.target := by
  cases kind <;>
    simp only [Clojure.branch, Clojure.reserve, Clojure.release, Clojure.expire, Clojure.fund,
      Clojure.activate, Clojure.cancel, Clojure.withdraw, Clojure.close, bind_eq_ok,
      rejectIf_eq_ok, orReject_eq_ok, exists_const, pure, Except.pure, Except.ok.injEq] at h
  case reserve =>
    obtain ⟨_, _, _, _, _, _, _, _, _, rfl⟩ := h
    rfl
  case release =>
    obtain ⟨_, _, _, rfl⟩ := h
    rfl
  case expire =>
    obtain ⟨_, _, _, _, _, rfl⟩ := h
    rfl
  case fund =>
    obtain ⟨_, _, _, _, _, _, _, rfl⟩ := h
    rfl
  case activate =>
    obtain ⟨_, _, _, _, _, _, _, _, _, _, _, _, rfl⟩ := h
    rfl
  case cancel =>
    obtain ⟨_, _, _, _, rfl⟩ := h
    rfl
  case withdraw =>
    obtain ⟨_, hs, _, _, _, _, _, _, _, _, rfl⟩ := h
    exact not_not.mp hs
  case close =>
    obtain ⟨_, _, _, rfl⟩ := h
    rfl

theorem Clojure.sameOp_of {s : State Json} {v : Json} {op : String}
    (hop : s.operationId = some op) (hne : op ≠ "") (hv : v.field "operation-id" = some (.str op)) :
    Clojure.sameOp s v = true := by
  have hname : Clojure.name? (v.field "operation-id") = some op := by
    simp [Clojure.name?, hv, Json.string?, hne]
  simp [Clojure.sameOp, hname, hop]

theorem Clojure.kernel {digit : Char → Option ℕ} {toDouble : ℤ → ℚ} :
    Kernel (Clojure.transition digit toDouble) (Clojure.movement digit) Clojure.memberCount where
  implements := Clojure.implements
  activate := by
    intro s command s' h hk
    obtain ⟨kind, hkind, hb⟩ := Clojure.branch_of_kind h
    obtain rfl : kind = .activate := Option.some.inj (hkind.symm.trans hk)
    simp only [Clojure.branch, Clojure.activate, bind_eq_ok, rejectIf_eq_ok, orReject_eq_ok,
      exists_const, pure, Except.pure, Except.ok.injEq] at hb
    obtain ⟨_, hs, _, _, _, _, _, _, _, count, hcount, _, rfl⟩ := hb
    have hm : Clojure.memberCount command = count := by
      rw [Clojure.memberCount, hcount]
      rfl
    rw [hm]
    exact ⟨not_not.mp hs, rfl, Clojure.posInt?_pos hcount, rfl, rfl, rfl⟩
  withdraw := by
    intro s command s' h hk
    obtain ⟨kind, hkind, hb⟩ := Clojure.branch_of_kind h
    obtain rfl : kind = .withdraw := Option.some.inj (hkind.symm.trans hk)
    simp only [Clojure.branch, Clojure.withdraw, bind_eq_ok, rejectIf_eq_ok, orReject_eq_ok,
      exists_const, pure, Except.pure, Except.ok.injEq] at hb
    obtain ⟨_, hs, _, id, hid, _, _, hpos, _, hcustody, rfl⟩ := hb
    have hm : (Clojure.movement digit command).amount = Clojure.amount digit command := by
      have hk' : Clojure.kind? command = some .withdraw := hk
      simp [Clojure.movement, hk', Clojure.reported, Movement.read, ← not_not.mp hcustody,
        Movement.amount]
    rw [hm]
    exact ⟨not_not.mp hs, not_not.mp hs, rfl, rfl, not_not.mp hpos, rfl⟩
  close := by
    intro s command s' h hk
    obtain ⟨kind, hkind, hb⟩ := Clojure.branch_of_kind h
    obtain rfl : kind = .close := Option.some.inj (hkind.symm.trans hk)
    simp only [Clojure.branch, Clojure.close, bind_eq_ok, rejectIf_eq_ok, exists_const, pure,
      Except.pure, Except.ok.injEq, not_or, not_not] at hb
    exact hb.2.2.1
  other := by
    intro s command s' h hna hnw hst
    obtain ⟨kind, hk, hb⟩ := Clojure.branch_of_kind h
    rw [Clojure.branch_status hb] at hst
    exact Kind.target_ne (fun he => hna (he ▸ hk)) (fun he => hnw (he ▸ hk)) hst
  payable := by
    intro s op id amount hs hop hne hid hid0 hcount hpos hle
    refine ⟨withdrawCommand op id (.int amount), rfl,
      Clojure.transition_of rfl withdrawCommand_fields ?_⟩
    have hsame : Clojure.sameOp s (withdrawCommand op id (.int amount)) = true :=
      Clojure.sameOp_of hop hne rfl
    have hentitlement : (withdrawCommand op id (.int amount)).field "entitlement-id" =
      some (.str id) := rfl
    have hname : Clojure.name? (some (.str id)) = some id := by
      simp [Clojure.name?, Json.string?, hid0]
    have hadmitted : Clojure.truthy
        ((withdrawCommand op id (.int amount)).field "admitted?") = true := rfl
    have hamount : Clojure.amount digit (withdrawCommand op id (.int amount)) = amount := rfl
    have hsent : Clojure.amountValue digit
        ((withdrawCommand op id (.int amount)).field "custody-sent") = some amount := rfl
    simp only [Clojure.branch, Clojure.withdraw, bind_eq_ok, rejectIf_eq_ok, orReject_eq_ok,
      exists_const, pure, Except.pure, hsame, hs, hentitlement, hname, hadmitted, hamount, hsent]
    simp [hid, hcount, hpos, hle]
  closable := by
    intro s op hs hop hne hcount hzero
    refine ⟨closeCommand op, rfl, Clojure.transition_of rfl closeCommand_fields ?_⟩
    have hsame : Clojure.sameOp s (closeCommand op) = true := Clojure.sameOp_of hop hne rfl
    simp only [Clojure.branch, Clojure.close, bind_eq_ok, rejectIf_eq_ok, exists_const, pure,
      Except.pure, hsame, hs]
    simp [hcount, hzero]

/-- **Activated operations of a run can always be paid out and closed, iff every activation has a
unit for each member and every withdrawal leaves one for each of the others.** -/
theorem lifecycle_sound_iff (parseBigInt : String → Option ℤ) (digit : Char → Option ℕ)
    (toDouble : ℤ → ℚ) (hparse : ∀ n : ℤ, 0 < n → parseBigInt (toString n) = some n)
    (commands : List Json) :
    ((∀ n, Sound (Rust.handle parseBigInt)
        (run (Rust.handle parseBigInt) .initial (commands.take n))) ↔
      Along (Rust.handle parseBigInt) (Prudent (Rust.movement parseBigInt) Rust.memberCount)
        .initial commands) ∧
    ((∀ n, Sound (Clojure.transition digit toDouble)
        (run (Clojure.transition digit toDouble) .initial (commands.take n))) ↔
      Along (Clojure.transition digit toDouble) (Prudent (Clojure.movement digit)
        Clojure.memberCount) .initial commands) :=
  ⟨(Rust.kernel hparse).run_sound_iff commands, Clojure.kernel.run_sound_iff commands⟩

/-! ## 100 for one entitlement or two -/

/-- the operation is reserved, funded and activated -/
def activatedBy (count : ℤ) : List Json :=
  [reserveCommand,
    .obj [("amount", .int 100), ("custody-received", .int 100), ("now", .int 19),
      ("operation-id", .str "op-a"), ("type", .str "fund")],
    activateCommand count asset]

/-- two entitlements take 40 and 60 -/
def payoutCommands : List Json :=
  activatedBy 2 ++ [withdrawCommand "op-a" "claim-a" (.int 40),
    withdrawCommand "op-a" "claim-b" (.int 60)]

theorem lifecycle_sound_payout :
    (∀ n, Sound (Rust.handle String.toInt?)
      (run (Rust.handle String.toInt?) .initial (payoutCommands.take n))) ∧
    (∀ n, Sound (Clojure.transition asciiDigit Int.cast)
      (run (Clojure.transition asciiDigit Int.cast) .initial (payoutCommands.take n))) := by
  have h := lifecycle_sound_iff String.toInt? asciiDigit Int.cast (fun n _ => Int.toInt?_repr n)
    payoutCommands
  exact ⟨h.1.mpr (by decide +kernel), h.2.mpr (by decide +kernel)⟩

/-- the only entitlement takes 40 -/
def strandedCommands : List Json :=
  activatedBy 1 ++ [withdrawCommand "op-a" "claim-a" (.int 40)]

def Rust.stranded : State ℕ := run (Rust.handle String.toInt?) .initial strandedCommands
def Clojure.stranded : State Json :=
  run (Clojure.transition asciiDigit Int.cast) .initial strandedCommands

/-- 60 are owed to nobody: the operation is active, and no further withdrawals can close it -/
theorem lifecycle_stranded :
    (Rust.stranded.status = .activated ∧ Rust.stranded.liabilityRemaining = 60 ∧
      ¬ Matched Rust.stranded ∧ ¬ Finishable (Rust.handle String.toInt?) Rust.stranded) ∧
    (Clojure.stranded.status = .activated ∧ Clojure.stranded.liabilityRemaining = 60 ∧
      ¬ Matched Clojure.stranded ∧
      ¬ Finishable (Clojure.transition asciiDigit Int.cast) Clojure.stranded) := by
  refine ⟨⟨by decide +kernel, by decide +kernel, ?_, ?_⟩,
    ⟨by decide +kernel, by decide +kernel, ?_, ?_⟩⟩
  · unfold Matched
    decide +kernel
  · rintro ⟨withdrawals, last, s', hw, hlast, hacc⟩
    have hzero := ((Rust.kernel fun n _ => Int.toInt?_repr n).enough_of_accepts hw hlast hacc).2.2
    revert hzero
    decide +kernel
  · unfold Matched
    decide +kernel
  · rintro ⟨withdrawals, last, s', hw, hlast, hacc⟩
    have hzero := (Clojure.kernel.enough_of_accepts hw hlast hacc).2.2
    revert hzero
    decide +kernel

end PRF.Lifecycle
