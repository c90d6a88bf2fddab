import ProtocolRobustness.Lifecycle.Json

/-!
# The lifecycle of protected capital

The abstract machine both kernels implement: an operation is reserved, funded, activated, paid out
and closed, or it ends early.  A ledger beside the state records what moves in and out of custody.

* `Move`        one accepted command, with what it moves;
* `Ledger`      the movements of a run;
* `Accounts`    what the state and the ledger have to say about each other;
* `Inv`         the same by phase, in the form every move keeps;
* `Inv.accounts`, `Move.not_terminal`   the phases keep the accounts, and four of them are final.
-/

namespace PRF.Lifecycle

/-! ## custody -/

/-- what one command moves -/
inductive Movement where
  | nothing
  | received (amount : ℤ)
  | refunded (amount : ℤ)
  | sent (entitlement : String) (amount : ℤ)

structure Ledger where
  received : List ℤ
  refunded : List ℤ
  sent : List (String × ℤ)

namespace Ledger

def empty : Ledger := ⟨[], [], []⟩

def record (l : Ledger) : Movement → Ledger
  | .nothing => l
  | .received a => { l with received := l.received ++ [a] }
  | .refunded a => { l with refunded := l.refunded ++ [a] }
  | .sent id a => { l with sent := l.sent ++ [(id, a)] }

def sentTotal (l : Ledger) : ℤ := (l.sent.map Prod.snd).sum

theorem sentTotal_record (l : Ledger) (id : String) (a : ℤ) :
    (l.record (.sent id a)).sentTotal = l.sentTotal + a := by
  show ((l.sent ++ [(id, a)]).map Prod.snd).sum = _
  simp [sentTotal]

end Ledger

/-! ## moves -/

section
variable {τ : Type}

inductive Move : State τ → Movement → State τ → Prop
  | reserve {s : State τ} {op : String} {amount : ℤ} {expires : Option τ} {asset : Json}
      (h : s.status = .none) (hop : op ≠ "") (ha : 0 < amount)
      (hasset : asset.nonEmptyObject = true) :
      Move s .nothing
        { s with
          status := .reserved
          operationId := some op
          reservedAmount := amount
          expiresAt := expires
          assetRef := some asset }
  | release {s : State τ} (h : s.status = .reserved) :
      Move s .nothing { s with status := .released, reservedAmount := 0 }
  | expire {s : State τ} (h : s.status = .reserved) :
      Move s .nothing { s with status := .expired, reservedAmount := 0 }
  | fund {s : State τ} (h : s.status = .reserved) :
      Move s (.received s.reservedAmount)
        { s with status := .funded, reservedAmount := 0, fundedAmount := s.reservedAmount }
  | activate {s : State τ} {basis : Option Json} {representation : Option Json} {count : ℕ}
      (h : s.status = .funded) (hcount : 0 < count) :
      Move s .nothing
        { s with
          status := .activated
          basisRef := basis
          representationRef := representation
          entitlementCount := count
          liabilityTotal := s.fundedAmount
          liabilityRemaining := s.fundedAmount }
  | cancel {s : State τ} (h : s.status = .funded) :
      Move s (.refunded s.fundedAmount)
        { s with status := .cancelledRefunded, fundedAmount := 0 }
  | withdraw {s : State τ} {id : String} {amount : ℤ} (h : s.status = .activated)
      (hid : id ∉ s.claimedIds) (hne : id ≠ "") (hcount : s.claimedCount < s.entitlementCount)
      (ha : 0 < amount) (hle : amount ≤ s.liabilityRemaining) :
      Move s (.sent id amount)
        { s with
          claimedCount := s.claimedCount + 1
          claimedIds := s.claimedIds ++ [id]
          liabilityRemaining := s.liabilityRemaining - amount }
  | close {s : State τ} (h : s.status = .activated) (hcount : s.claimedCount = s.entitlementCount)
      (hzero : s.liabilityRemaining = 0) :
      Move s .nothing { s with status := .closed }

/-! ## accounts -/

/-- what custody still owes -/
def owed (s : State τ) : ℤ :=
  match s.status with
  | .funded => s.fundedAmount
  | .activated => s.liabilityRemaining
  | _ => 0

def Status.terminal : Status → Bool
  | .released | .expired | .cancelledRefunded | .closed => true
  | _ => false

structure Accounts (s : State τ) (l : Ledger) : Prop where
  count : s.claimedCount = s.claimedIds.length
  nodup : s.claimedIds.Nodup
  count_le : s.claimedCount ≤ s.entitlementCount
  liability_nonneg : 0 ≤ s.liabilityRemaining
  liability_le : s.liabilityRemaining ≤ s.liabilityTotal
  balance : l.received.sum = l.refunded.sum + l.sentTotal + owed s
  sent_ids : l.sent.map Prod.fst = s.claimedIds
  exclusive : l.refunded = [] ∨ l.sent = []
  closed : s.status = .closed → l.received = [s.fundedAmount] ∧ l.sentTotal = s.fundedAmount

/-! ## phases -/

/-- nothing has been activated -/
structure Idle (s : State τ) : Prop where
  claimedIds : s.claimedIds = []
  claimedCount : s.claimedCount = 0
  entitlementCount : s.entitlementCount = 0
  liabilityTotal : s.liabilityTotal = 0
  liabilityRemaining : s.liabilityRemaining = 0

/-- the funded amount is being paid out -/
structure Paying (s : State τ) (l : Ledger) : Prop where
  received : l.received = [s.fundedAmount]
  refunded : l.refunded = []
  sent_ids : l.sent.map Prod.fst = s.claimedIds
  nodup : s.claimedIds.Nodup
  count : s.claimedCount = s.claimedIds.length
  count_le : s.claimedCount ≤ s.entitlementCount
  total : s.liabilityTotal = s.fundedAmount
  remaining : s.liabilityRemaining + l.sentTotal = s.fundedAmount
  remaining_nonneg : 0 ≤ s.liabilityRemaining
  sent_nonneg : 0 ≤ l.sentTotal

/-- the state and the ledger in a phase -/
def InPhase (s : State τ) (l : Ledger) : Status → Prop
  | .none | .released | .expired => Idle s ∧ l = .empty
  | .reserved => Idle s ∧ l = .empty ∧ 0 < s.reservedAmount
  | .funded => Idle s ∧ l = ⟨[s.fundedAmount], [], []⟩ ∧ 0 < s.fundedAmount
  | .cancelledRefunded => Idle s ∧ ∃ a, l = ⟨[a], [a], []⟩
  | .activated => Paying s l
  | .closed => Paying s l ∧ s.liabilityRemaining = 0

def Inv (s : State τ) (l : Ledger) : Prop := InPhase s l s.status

theorem Inv.initial : Inv (State.initial : State τ) .empty :=
  ⟨⟨rfl, rfl, rfl, rfl, rfl⟩, rfl⟩

theorem Inv.at {s : State τ} {l : Ledger} (h : Inv s l) {st : Status} (hs : s.status = st) :
    InPhase s l st :=
  hs ▸ h

/-- **Every move keeps the phases.** -/
theorem Move.inv {s s' : State τ} {m : Movement} {l : Ledger} (hm : Move s m s') (h : Inv s l) :
    Inv s' (l.record m) := by
  cases hm with
  | reserve hs hop ha hasset =>
    obtain ⟨hi, hl⟩ := h.at hs
    exact ⟨⟨hi.1, hi.2, hi.3, hi.4, hi.5⟩, hl, ha⟩
  | release hs =>
    obtain ⟨hi, hl, _⟩ := h.at hs
    exact ⟨⟨hi.1, hi.2, hi.3, hi.4, hi.5⟩, hl⟩
  | expire hs =>
    obtain ⟨hi, hl, _⟩ := h.at hs
    exact ⟨⟨hi.1, hi.2, hi.3, hi.4, hi.5⟩, hl⟩
  | fund hs =>
    obtain ⟨hi, rfl, hpos⟩ := h.at hs
    exact ⟨⟨hi.1, hi.2, hi.3, hi.4, hi.5⟩, rfl, hpos⟩
  | @activate _ _ count hs hcount =>
    obtain ⟨hi, rfl, hpos⟩ := h.at hs
    show Paying _ _
    exact
      { received := rfl
        refunded := rfl
        sent_ids := hi.claimedIds.symm
        nodup := by show s.claimedIds.Nodup; rw [hi.claimedIds]; exact List.nodup_nil
        count := by show s.claimedCount = s.claimedIds.length; rw [hi.claimedIds, hi.claimedCount]; rfl
        count_le := by show s.claimedCount ≤ count; rw [hi.claimedCount]; exact hcount.le
        total := rfl
        remaining := add_zero _
        remaining_nonneg := hpos.le
        sent_nonneg := le_rfl }
  | cancel hs =>
    obtain ⟨hi, rfl, _⟩ := h.at hs
    exact ⟨⟨hi.1, hi.2, hi.3, hi.4, hi.5⟩, _, rfl⟩
  | @withdraw id amount hs hid hne hcount ha hle =>
    have hp : Paying s l := h.at hs
    have hrem := hp.remaining
    have hsent := hp.sent_nonneg
    have hgoal : Paying
        { s with
          claimedCount := s.claimedCount + 1
          claimedIds := s.claimedIds ++ [id]
          liabilityRemaining := s.liabilityRemaining - amount } (l.record (.sent id amount)) :=
      { received := hp.received
        refunded := hp.refunded
        sent_ids := by
          show (l.sent ++ [(id, amount)]).map Prod.fst = s.claimedIds ++ [id]
          rw [List.map_append, hp.sent_ids]
          rfl
        nodup := by
          show (s.claimedIds ++ [id]).Nodup
          rw [List.nodup_append]
          refine ⟨hp.nodup, List.nodup_singleton id, fun a ha b hb => ?_⟩
          rw [List.mem_singleton.mp hb]
          exact fun he => hid (he ▸ ha)
        count := by
          show s.claimedCount + 1 = (s.claimedIds ++ [id]).length
          rw [List.length_append, hp.count]
          rfl
        count_le := hcount
        total := hp.total
        remaining := by
          rw [Ledger.sentTotal_record]
          show s.liabilityRemaining - amount + (l.sentTotal + amount) = s.fundedAmount
          omega
        remaining_nonneg := by show 0 ≤ s.liabilityRemaining - amount; omega
        sent_nonneg := by rw [Ledger.sentTotal_record]; omega }
    exact (congrArg (InPhase _ _) hs).mpr hgoal
  | close hs hcount hzero =>
    have hp : Paying s l := h.at hs
    exact ⟨⟨hp.1, hp.2, hp.3, hp.4, hp.5, hp.6, hp.7, hp.8, hp.9, hp.10⟩, hzero⟩

/-! ## what the phases say -/

theorem Idle.accounts {s : State τ} (hi : Idle s) {l : Ledger} (hsent : l.sent = [])
    (hbal : l.received.sum = l.refunded.sum + owed s) (hc : s.status ≠ .closed) : Accounts s l where
  count := by rw [hi.claimedCount, hi.claimedIds]; rfl
  nodup := by rw [hi.claimedIds]; exact List.nodup_nil
  count_le := by rw [hi.claimedCount]; exact Nat.zero_le _
  liability_nonneg := hi.liabilityRemaining.ge
  liability_le := by rw [hi.liabilityRemaining, hi.liabilityTotal]
  balance := by
    have h0 : l.sentTotal = 0 := by simp [Ledger.sentTotal, hsent]
    omega
  sent_ids := by rw [hsent, hi.claimedIds]; rfl
  exclusive := Or.inr hsent
  closed := fun h => absurd h hc

theorem Paying.accounts {s : State τ} {l : Ledger} (hp : Paying s l)
    (ho : owed s = s.liabilityRemaining)
    (hc : s.status = .closed → s.liabilityRemaining = 0) : Accounts s l where
  count := hp.count
  nodup := hp.nodup
  count_le := hp.count_le
  liability_nonneg := hp.remaining_nonneg
  liability_le := by
    have h1 := hp.remaining
    have h2 := hp.total
    have h3 := hp.sent_nonneg
    omega
  balance := by
    have h1 := hp.remaining
    simp only [hp.received, hp.refunded, List.sum_cons, List.sum_nil]
    omega
  sent_ids := hp.sent_ids
  exclusive := Or.inl hp.refunded
  closed := fun h => by
    have h1 := hp.remaining
    have h2 := hc h
    exact ⟨hp.received, by omega⟩

/-- **The phases keep the accounts.** -/
theorem Inv.accounts {s : State τ} {l : Ledger} (h : Inv s l) : Accounts s l := by
  cases hs : s.status with
  | none | released | expired =>
    obtain ⟨hi, rfl⟩ := h.at hs
    exact hi.accounts rfl (by simp [owed, hs, Ledger.empty]) (by rw [hs]; decide)
  | reserved =>
    obtain ⟨hi, rfl, _⟩ := h.at hs
    exact hi.accounts rfl (by simp [owed, hs, Ledger.empty]) (by rw [hs]; decide)
  | funded =>
    obtain ⟨hi, rfl, _⟩ := h.at hs
    exact hi.accounts rfl (by simp [owed, hs]) (by rw [hs]; decide)
  | cancelledRefunded =>
    obtain ⟨hi, a, rfl⟩ := h.at hs
    exact hi.accounts rfl (by simp [owed, hs]) (by rw [hs]; decide)
  | activated =>
    have hp : Paying s l := h.at hs
    exact hp.accounts (by simp [owed, hs]) fun hc => by rw [hs] at hc; cases hc
  | closed =>
    obtain ⟨hp, hz⟩ := h.at hs
    exact hp.accounts (by simp [owed, hs, hz]) fun _ => hz

/-- **No command is accepted in a terminal status.** -/
theorem Move.not_terminal {s s' : State τ} {m : Movement} (h : Move s m s') :
    s.status.terminal = false := by
  cases h with
  | reserve hs | release hs | expire hs | fund hs | activate hs | cancel hs | withdraw hs
  | close hs => rw [hs]; rfl

end

end PRF.Lifecycle
