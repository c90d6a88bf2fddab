import ProtocolRobustness.Library.HashChain
import ProtocolRobustness.Resubmission.Guards

/-!
# The offline verifier of dispositions and the mutable chain

The offline verifier reads a whole list, the latest disposition first; the chain applies one at a
time, the oldest first, and enforces a table of transitions as well.

* `applyAll`               the dispositions of a list applied one after the other;
* `Follows`                statuses that follow the table;
* `applyAll_iff`           what a chain has to find in a list to apply all of it;
* `applied_iff_effective`  the chain ends in a lifecycle exactly when the verifier reads it from the
                           list and the statuses follow the table.
-/

set_option linter.unusedSectionVars false

namespace PRF.Resubmission
open HashChain

section
variable {ι : Type*} [DecidableEq ι] (R : Roots ι)

/-- a disposition as a command, without expectations -/
def plainInput (r : ι) (d : Disposition ι) : DispositionInput ι := ⟨some r, some d, none, none⟩

/-- the dispositions of `r`, the oldest first; `none` when one is not committed -/
def applyAll (r : ι) : ChainState ι → List (Disposition ι) → Option (ChainState ι)
  | s, [] => some s
  | s, d :: ds =>
    match applyDisposition R s (plainInput r d) with
    | .committed c => applyAll r c.state ds
    | _ => none

/-- each status is one that the table allows after the one before it -/
def Follows : Option Status → List (Option Status) → Prop
  | _, [] => True
  | current, status :: rest =>
    status ∈ (allowedDispositionTransitions current).map some ∧ Follows status rest

instance : ∀ (current : Option Status) (statuses : List (Option Status)),
    Decidable (Follows current statuses)
  | _, [] => inferInstanceAs (Decidable True)
  | _, status :: rest =>
    have := instDecidableFollows status rest
    inferInstanceAs (Decidable (_ ∧ _))

/-- a chain that may commit dispositions of `r` -/
structure Accepts (s : ChainState ι) (r : ι) (publicHex : ι) : Prop where
  stored : s.attemptReceipts (some r) ≠ none
  configured : s.dispositionPublicHex = some publicHex
  authority : ∀ a, s.dispositionAuthorityContext = some a → a.publicKey = some publicHex

/-- no disposition of `r` was committed -/
structure Undisposed (s : ChainState ι) (r : ι) : Prop where
  head : s.dispositionHeadByReceipt (some r) = none
  status : s.currentDispositionStatus (some r) = none
  effective : s.effectiveDisposition (some r) = .active

variable {R} {s : ChainState ι} {r publicHex : ι} {d : Disposition ι} {ds : List (Disposition ι)}

/-! ## one disposition -/

theorem applyDisposition_plain (h : Accepts s r publicHex)
    (hvalid : verification R s publicHex d = none) {c : Commit ι} :
    applyDisposition R s (plainInput r d) = .committed c ↔
      d.attemptReceiptHash = some r
        ∧ d.previousDispositionHash = s.dispositionHeadByReceipt (some r)
        ∧ d.status ∈ (allowedDispositionTransitions (s.currentDispositionStatus (some r))).map some
        ∧ commitDisposition R s (plainInput r d) d = .committed c := by
  rw [applyDisposition_committed]
  constructor
  · rintro ⟨hex, artifact, g, hc⟩
    obtain rfl : d = artifact := Option.some.inj g.given
    exact ⟨g.receipt.symm, g.previous.symm, g.allowed, hc⟩
  · rintro ⟨hreceipt, hprevious, hallowed, hc⟩
    refine ⟨publicHex, d, ?_, hc⟩
    exact
      { stored := h.stored
        configured := h.configured
        authority := h.authority
        given := rfl
        verified := hvalid
        receipt := hreceipt.symm
        previous := hprevious.symm
        allowed := hallowed
        expectedHead := nofun
        version := nofun }

/-- the chain after a disposition of `r` -/
def disposedBy (R : Roots ι) (s : ChainState ι) (r : ι) (d : Disposition ι) : ChainState ι :=
  s.disposed (some r) d.status (dispositionHash R.toCrypto d)

theorem Accepts.disposed (h : Accepts s r publicHex) (d : Disposition ι) :
    Accepts (disposedBy R s r d) r publicHex := ⟨h.stored, h.configured, h.authority⟩

theorem disposedBy_head :
    (disposedBy R s r d).dispositionHeadByReceipt (some r)
      = some (dispositionHash R.toCrypto d) :=
  Function.update_self ..

theorem disposedBy_status : (disposedBy R s r d).currentDispositionStatus (some r) = d.status := by
  show Function.update (s.dispositionStatusByReceipt.getD fun _ => none) (some r) d.status (some r)
    = d.status
  rw [Function.update_self]

theorem disposedBy_effective :
    (disposedBy R s r d).effectiveDisposition (some r)
      = (d.status.map Status.lifecycle).getD .active := by
  show (Function.update s.effectiveDispositionByReceipt (some r) (d.status.map Status.lifecycle)
    (some r)).getD .active = _
  rw [Function.update_self]

/-! ## a list of them -/

theorem applyAll_cons (h : Accepts s r publicHex) (hvalid : verification R s publicHex d = none)
    {s' : ChainState ι} :
    applyAll R r s (d :: ds) = some s' ↔
      (d.attemptReceiptHash = some r
        ∧ d.previousDispositionHash = s.dispositionHeadByReceipt (some r)
        ∧ d.status
          ∈ (allowedDispositionTransitions (s.currentDispositionStatus (some r))).map some)
      ∧ applyAll R r (disposedBy R s r d) ds = some s' := by
  rw [applyAll]
  constructor
  · intro hall
    split at hall
    · next c hc =>
      obtain ⟨hreceipt, hprevious, hallowed, hcommit⟩ := (applyDisposition_plain h hvalid).mp hc
      cases hcommit
      exact ⟨⟨hreceipt, hprevious, hallowed⟩, hall⟩
    · cases hall
  · rintro ⟨⟨hreceipt, hprevious, hallowed⟩, hall⟩
    rw [(applyDisposition_plain h hvalid).mpr ⟨hreceipt, hprevious, hallowed, rfl⟩]
    exact hall

def lastLifecycle (before : Lifecycle) (ds : List (Disposition ι)) : Lifecycle :=
  (ds.getLast?.map fun d => (d.status.map Status.lifecycle).getD .active).getD before

theorem lastLifecycle_cons (before : Lifecycle) (d : Disposition ι) (ds : List (Disposition ι)) :
    lastLifecycle before (d :: ds)
      = lastLifecycle ((d.status.map Status.lifecycle).getD .active) ds := by
  rw [lastLifecycle, List.getLast?_cons]
  cases h : ds.getLast? with
  | none => simp [lastLifecycle, h]
  | some d' => simp [lastLifecycle, h]

/-- **What a chain has to find in a list to apply all of it.** -/
theorem applyAll_iff (h : Accepts s r publicHex)
    (hvalid : ∀ d ∈ ds, verification R s publicHex d = none) (lifecycle : Lifecycle) :
    (∃ s', applyAll R r s ds = some s' ∧ s'.effectiveDisposition (some r) = lifecycle) ↔
      (∀ d ∈ ds, d.attemptReceiptHash = some r)
        ∧ LinkedFrom (dispositionHash R.toCrypto) (·.previousDispositionHash)
            (s.dispositionHeadByReceipt (some r)) ds
        ∧ Follows (s.currentDispositionStatus (some r)) (ds.map (·.status))
        ∧ lastLifecycle (s.effectiveDisposition (some r)) ds = lifecycle := by
  induction ds generalizing s with
  | nil => simp [applyAll, LinkedFrom, Follows, lastLifecycle]
  | cons d ds ih =>
    have hrest : ∀ d' ∈ ds, verification R (disposedBy R s r d) publicHex d' = none :=
      fun d' hd' => hvalid d' (List.mem_cons_of_mem _ hd')
    simp only [applyAll_cons h (hvalid d List.mem_cons_self)]
    have hone := ih (h.disposed (R := R) d) hrest
    rw [disposedBy_head, disposedBy_status, disposedBy_effective] at hone
    rw [lastLifecycle_cons, List.forall_mem_cons, List.map_cons]
    constructor
    · rintro ⟨s', ⟨⟨hreceipt, hprevious, hallowed⟩, hall⟩, heffective⟩
      obtain ⟨hbound, hlinked, hfollows, hlast⟩ := hone.mp ⟨s', hall, heffective⟩
      exact ⟨⟨hreceipt, hbound⟩, ⟨hprevious, hlinked⟩, ⟨hallowed, hfollows⟩, hlast⟩
    · rintro ⟨⟨hreceipt, hbound⟩, ⟨hprevious, hlinked⟩, ⟨hallowed, hfollows⟩, hlast⟩
      obtain ⟨s', hall, heffective⟩ := hone.mpr ⟨hbound, hlinked, hfollows, hlast⟩
      exact ⟨s', ⟨⟨hreceipt, hprevious, hallowed⟩, hall⟩, heffective⟩

/-! ## the offline verifier -/

theorem validDispositionChain_iff (C : Crypto ι) (ds : List (Disposition ι)) (r : ι)
    (verify : Disposition ι → Bool) :
    validDispositionChain C ds (some r) verify = true ↔
      (∀ d ∈ ds, verify d = true) ∧ (∀ d ∈ ds, d.attemptReceiptHash = some r)
        ∧ LinkedBack (dispositionHash C) (·.previousDispositionHash) ds := by
  have hlinked : ∀ ds : List (Disposition ι),
      (linked C ds = true ∧ ds.getLast?.all (fun d => d.previousDispositionHash = none) = true)
        ↔ LinkedBack (dispositionHash C) (·.previousDispositionHash) ds := by
    intro ds
    induction ds with
    | nil => simp [linked, LinkedBack]
    | cons d ds ih =>
      cases ds with
      | nil => simp [linked, LinkedBack]
      | cons d' ds =>
        rw [LinkedBack, ← ih, linked, Bool.and_eq_true, decide_eq_true_eq,
          List.getLast?_cons_cons, and_assoc]
  rw [validDispositionChain, Bool.and_eq_true, Bool.and_eq_true, Bool.and_eq_true, and_assoc,
    and_assoc, hlinked]
  simp

/-- **What the verifier reads from a list of valid dispositions**, the oldest first. -/
theorem effectiveLifecycleStatus_iff (C : Crypto ι) {ds : List (Disposition ι)} {r : ι}
    {verify : Disposition ι → Bool} (hverify : ∀ d ∈ ds, verify d = true)
    (hstatus : ∀ d ∈ ds, d.status.isSome) (lifecycle : Lifecycle) :
    effectiveLifecycleStatus C ds.reverse (some r) verify = some lifecycle ↔
      (∀ d ∈ ds, d.attemptReceiptHash = some r)
        ∧ LinkedFrom (dispositionHash C) (·.previousDispositionHash) none ds
        ∧ lastLifecycle .active ds = lifecycle := by
  have hchain : validDispositionChain C ds.reverse (some r) verify = true ↔
      (∀ d ∈ ds, d.attemptReceiptHash = some r)
        ∧ LinkedFrom (dispositionHash C) (·.previousDispositionHash) none ds := by
    rw [validDispositionChain_iff, linkedBack_reverse]
    simp only [List.mem_reverse]
    exact ⟨fun h => h.2, fun h => ⟨hverify, h⟩⟩
  unfold effectiveLifecycleStatus latestDisposition
  rw [List.head?_reverse]
  cases hlast : ds.getLast? with
  | none =>
    rw [List.getLast?_eq_none_iff.mp hlast]
    simp [LinkedFrom, lastLifecycle]
  | some d =>
    have hd : d ∈ ds := List.mem_of_getLast? hlast
    obtain ⟨status, hs⟩ := Option.isSome_iff_exists.mp (hstatus d hd)
    have hne : ds.reverse ≠ [] := by
      rw [Ne, List.reverse_eq_nil_iff]
      exact List.ne_nil_of_mem hd
    have hlife : lastLifecycle .active ds = status.lifecycle := by
      simp [lastLifecycle, hlast, hs]
    rw [if_neg hne, hlife]
    by_cases hvalid : validDispositionChain C ds.reverse (some r) verify = true
    · rw [if_pos hvalid, and_iff_right (hchain.mp hvalid).1, and_iff_right (hchain.mp hvalid).2]
      simp [hs]
    · rw [if_neg hvalid]
      exact ⟨fun h => (by cases h), fun h => absurd (hchain.mpr ⟨h.1, h.2.1⟩) hvalid⟩

theorem verify_of_verification (h : Accepts s r publicHex)
    (hvalid : verification R s publicHex d = none) :
    verifyDisposition R.toCrypto d publicHex = none := by
  unfold verification at hvalid
  cases hauthority : s.dispositionAuthorityContext with
  | none =>
    rw [hauthority] at hvalid
    exact hvalid
  | some a =>
    rw [hauthority] at hvalid
    dsimp only [verifyAuthorizedDisposition] at hvalid
    rw [h.authority a hauthority] at hvalid
    dsimp only at hvalid
    split_ifs at hvalid
    exact hvalid

/-- **The chain applies a whole list of validly signed dispositions and ends in a lifecycle exactly
when the offline verifier reads that lifecycle from the list and the statuses, the oldest first,
follow the table of the chain.** -/
theorem applied_iff_effective (h : Accepts s r publicHex) (hs : Undisposed s r)
    (hvalid : ∀ d ∈ ds, verification R s publicHex d = none) (lifecycle : Lifecycle) :
    (∃ s', applyAll R r s ds = some s' ∧ s'.effectiveDisposition (some r) = lifecycle) ↔
      effectiveLifecycleStatus R.toCrypto ds.reverse (some r)
          (fun d => (verifyDisposition R.toCrypto d publicHex).isNone) = some lifecycle
        ∧ Follows none (ds.map (·.status)) := by
  have hverify : ∀ d ∈ ds, (verifyDisposition R.toCrypto d publicHex).isNone = true := by
    intro d hd
    rw [verify_of_verification h (hvalid d hd)]
    rfl
  have hstatus : ∀ d ∈ ds, d.status.isSome :=
    fun d hd => (verification_schema (hvalid d hd)).2
  rw [applyAll_iff h hvalid, hs.head, hs.status, hs.effective,
    effectiveLifecycleStatus_iff R.toCrypto hverify hstatus]
  constructor
  · rintro ⟨hbound, hlinked, hfollows, hlast⟩
    exact ⟨⟨hbound, hlinked, hlast⟩, hfollows⟩
  · rintro ⟨⟨hbound, hlinked, hlast⟩, hfollows⟩
    exact ⟨hbound, hlinked, hfollows, hlast⟩

end

/-! ## a receipt that is withdrawn, and final after that -/

def firstReceipt : AdmitInput ℕ :=
  { parentReceiptHash := none
    candidateAttemptReceipt := none
    candidateAttemptReceiptId := some 1
    idempotencyKey := none
    contentKey := some 2
    sequence := some 1
    expectedChainVersion := none }

def oneReceipt : ChainState ℕ :=
  (emptyState 0 (some 7)).admitted firstReceipt (some 1) none

def signedDisposition (status : Status) (previous : Option ℕ) : Disposition ℕ :=
  { schema := some dispositionSchema
    action := none
    status := some status
    attemptReceiptHash := some 1
    previousDispositionHash := previous
    parentCheckpointRoot := none
    authorityEpoch := none
    body := ""
    signature := some ⟨none, some "ok"⟩ }

theorem oneReceipt_accepts : Accepts oneReceipt 1 7 where
  stored := nofun
  configured := rfl
  authority := nofun

theorem oneReceipt_undisposed : Undisposed oneReceipt 1 where
  head := rfl
  status := rfl
  effective := rfl

/-- a hash that tells the dispositions below apart, and every signature accepted -/
def sampleRoots : Roots ℕ where
  hash d := if d.status = some .pendingReview then 11 else 12
  authoritativeHash _ := 13
  verifyBytes _ _ _ := true
  inputRoot _ := 14
  stateRoot _ := 15
  effectsRoot _ := 16

/-- a receipt under review that is withdrawn then -/
theorem applied_review_withdrawn :
    ∃ s', applyAll sampleRoots 1 oneReceipt
        [signedDisposition .pendingReview none, signedDisposition .withdrawn (some 11)] = some s'
      ∧ s'.effectiveDisposition (some 1) = .withdrawn := by
  refine (applied_iff_effective oneReceipt_accepts
    oneReceipt_undisposed ?_ .withdrawn).mpr ⟨by decide, by decide⟩
  intro d hd
  rcases List.mem_pair.mp hd with rfl | rfl
  · rfl
  · rfl

/-- a withdrawal and a final disposition after it, with a hash that is injective: the verifier reads
an active receipt, and the chain does not apply the second -/
theorem withdrawn_then_final : ∃ (R : Roots ℕ) (ds : List (Disposition ℕ)),
    Function.Injective R.hash
      ∧ Accepts oneReceipt 1 7 ∧ Undisposed oneReceipt 1
      ∧ (∀ d ∈ ds, verification R oneReceipt 7 d = none)
      ∧ effectiveLifecycleStatus R.toCrypto ds.reverse (some 1)
          (fun d => (verifyDisposition R.toCrypto d 7).isNone) = some .active
      ∧ ¬ ∃ s', applyAll R 1 oneReceipt ds = some s'
          ∧ s'.effectiveDisposition (some 1) = .active := by
  obtain ⟨f, hf⟩ := exists_injective_nat (Disposition ℕ)
  let R : Roots ℕ := { sampleRoots with hash := f }
  let withdrawn := signedDisposition .withdrawn none
  let final := signedDisposition .final (some (dispositionHash R.toCrypto withdrawn))
  have hvalid : ∀ d ∈ [withdrawn, final], verification R oneReceipt 7 d = none := by
    intro d hd
    rcases List.mem_pair.mp hd with rfl | rfl
    · rfl
    · rfl
  refine ⟨R, [withdrawn, final], hf, oneReceipt_accepts, oneReceipt_undisposed, hvalid, ?_, ?_⟩
  · rw [effectiveLifecycleStatus_iff R.toCrypto (fun d hd => ?_) fun d hd => ?_]
    · refine ⟨?_, ⟨rfl, rfl, trivial⟩, rfl⟩
      simp [withdrawn, final, signedDisposition]
    · rw [verify_of_verification oneReceipt_accepts (hvalid d hd)]
      rfl
    · exact (verification_schema (hvalid d hd)).2
  · rw [applyAll_iff oneReceipt_accepts hvalid]
    rintro ⟨-, -, hfollows, -⟩
    exact absurd hfollows.2.1 List.not_mem_nil

end PRF.Resubmission
