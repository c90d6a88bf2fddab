import ProtocolRobustness.Resubmission.Transition

/-!
# What a committed command has passed

One lemma for each function of the transition: it commits exactly when its guards let it through.

* `Fresh`, `AdmittedFirst`, `AdmittedUnder`   the guards on a receipt;
* `DispositionGuards`                         the guards on a disposition;
* `admitChild_committed`, `applyDisposition_committed`   a command commits exactly under its guards;
* `admitChild_refused`                        a fork is refused in a state that has one;
* `applyAuthoritativeDisposition_rejected`    the authoritative form never commits;
* `applyAction_committed`                     the two things a committed command can be.
-/

set_option linter.unusedSectionVars false

namespace PRF.Resubmission

section
variable {ι : Type*} {c : Commit ι}

theorem guard_eq_committed {p : Prop} [Decidable p] {reason : Reason}
    {shown : Option (PublicResult ι)} {x : Result ι} :
    (if p then .rejected reason shown else x) = .committed c ↔ ¬ p ∧ x = .committed c := by
  by_cases h : p
  · simp [h]
  · simp [h]

theorem guard_eq_rejected {p : Prop} [Decidable p] {reason reason' : Reason}
    {shown shown' : Option (PublicResult ι)} {x : Result ι} :
    (if p then .rejected reason shown else x) = .rejected reason' shown' ↔
      (p ∧ reason = reason' ∧ shown = shown') ∨ (¬ p ∧ x = .rejected reason' shown') := by
  by_cases h : p
  · simp [h]
  · simp [h]

variable (s : ChainState ι)

theorem unlessContended_committed {expected : Option ℤ} {x : Result ι} :
    s.unlessContended expected x = .committed c ↔
      (∀ v, expected = some v → v = s.version) ∧ x = .committed c := by
  cases expected with
  | none => simp [ChainState.unlessContended]
  | some v =>
    show (if v ≠ s.version then Result.rejected _ _ else x) = _ ↔ _
    rw [guard_eq_committed, not_not]
    simp

theorem unlessContended_rejected {expected : Option ℤ} {x : Result ι} {reason : Reason}
    {shown : Option (PublicResult ι)} (h : s.unlessContended expected x = .rejected reason shown) :
    reason = .commitContention ∨ x = .rejected reason shown := by
  cases expected with
  | none => exact Or.inr h
  | some v =>
    rcases guard_eq_rejected.mp h with ⟨-, hreason, -⟩ | ⟨-, hx⟩
    · exact Or.inl hreason.symm
    · exact Or.inr hx

variable [DecidableEq ι]

theorem unlessHeadMoved_committed {attempt expected : Option ι} {x : Result ι} :
    s.unlessHeadMoved attempt expected x = .committed c ↔
      (∀ h, expected = some h → some h = s.dispositionHeadByReceipt attempt)
        ∧ x = .committed c := by
  cases expected with
  | none => simp [ChainState.unlessHeadMoved]
  | some h =>
    show (if some h ≠ s.dispositionHeadByReceipt attempt then Result.rejected _ _ else x) = _ ↔ _
    rw [guard_eq_committed, not_not]
    simp

/-! ## admission -/

/-- neither the key nor the content of a submission was committed before -/
structure Fresh (input : AdmitInput ι) : Prop where
  idempotency : s.priorSubmission input = none
  content : s.contentIndex input.contentKey = none

/-- the guards on a receipt without a parent -/
structure AdmittedFirst (input : AdmitInput ι) : Prop where
  parent : input.parentReceiptHash = none
  head : s.head = none
  sequence : input.sequence = some 1

/-- the guards on a receipt under a parent -/
structure AdmittedUnder (input : AdmitInput ι) (parentEntry : AttemptEntry ι) : Prop where
  parent : input.parentReceiptHash ≠ none
  stored : s.attemptReceipts input.parentReceiptHash = some parentEntry
  active : s.effectiveDisposition input.parentReceiptHash = .active
  eligible : parentEntry.eligibleParent = true
  head : input.parentReceiptHash = s.head
  successor : s.successorByParent input.parentReceiptHash = none
  sequence : input.sequence = some parentEntry.expectedSequence
  child : s.attemptReceipts input.childReceiptHash = none
  acyclic : input.childReceiptHash ≠ input.parentReceiptHash
  version : ∀ v, input.expectedChainVersion = some v → v = s.version

variable {s} (R : Roots ι) {input : AdmitInput ι} {parentEntry : AttemptEntry ι}

theorem admitAtHead_committed :
    admitAtHead R s input parentEntry = .committed c ↔
      input.sequence = some parentEntry.expectedSequence
        ∧ s.attemptReceipts input.childReceiptHash = none
        ∧ input.childReceiptHash ≠ input.parentReceiptHash
        ∧ (∀ v, input.expectedChainVersion = some v → v = s.version)
        ∧ commitAdmit R s input input.childReceiptHash input.parentReceiptHash = .committed c := by
  unfold admitAtHead
  cases hseq : input.sequence with
  | none => simp
  | some sequence =>
    simp only [guard_eq_committed, unlessContended_committed, Option.some.injEq]
    constructor
    · rintro ⟨hlow, hhigh, hchild, hcycle, hv, hc⟩
      have hexact : sequence = parentEntry.expectedSequence := by omega
      exact ⟨hexact, by simpa using hchild, hcycle, hv, hc⟩
    · rintro ⟨hexact, hchild, hcycle, hv, hc⟩
      exact ⟨by omega, by omega, by simp [hchild], hcycle, hv, hc⟩

theorem admitUnder_committed (hparent : input.parentReceiptHash ≠ none)
    (hstored : s.attemptReceipts input.parentReceiptHash = some parentEntry) :
    admitUnder R s input parentEntry = .committed c ↔
      AdmittedUnder s input parentEntry
        ∧ commitAdmit R s input input.childReceiptHash input.parentReceiptHash = .committed c := by
  simp only [admitUnder, guard_eq_committed, admitAtHead_committed]
  constructor
  · rintro ⟨hactive, heligible, hhead, hsucc, hseq, hchild, hcycle, hv, hc⟩
    refine ⟨⟨hparent, hstored, of_not_not hactive, ?_, of_not_not hhead, ?_, hseq, hchild, hcycle,
      hv⟩, hc⟩
    · simpa using heligible
    · simpa using hsucc
  · rintro ⟨h, hc⟩
    refine ⟨not_not.mpr h.active, ?_, not_not.mpr h.head, ?_, h.sequence, h.child, h.acyclic,
      h.version, hc⟩
    · simp [h.eligible]
    · simp [h.successor]

/-- **A receipt is committed exactly under its guards.** -/
theorem admitChild_committed :
    admitChild R s input = .committed c ↔
      Fresh s input ∧ (AdmittedFirst s input ∨ ∃ parentEntry, AdmittedUnder s input parentEntry)
        ∧ commitAdmit R s input input.childReceiptHash input.parentReceiptHash = .committed c := by
  have hfresh : admitFresh R s input = .committed c ↔
      (AdmittedFirst s input ∨ ∃ parentEntry, AdmittedUnder s input parentEntry)
        ∧ commitAdmit R s input input.childReceiptHash input.parentReceiptHash
          = .committed c := by
    unfold admitFresh
    by_cases hparent : input.parentReceiptHash = none
    · rw [if_pos hparent, hparent]
      constructor
      · intro h
        split_ifs at h with hfirst
        exact ⟨Or.inl ⟨hparent, hfirst.1, hfirst.2⟩, h⟩
      · rintro ⟨hfirst | ⟨e, hunder⟩, hc⟩
        · rw [if_pos ⟨hfirst.head, hfirst.sequence⟩]
          exact hc
        · exact absurd hparent hunder.parent
    · rw [if_neg hparent]
      cases hstored : s.attemptReceipts input.parentReceiptHash with
      | none =>
        refine ⟨nofun, ?_⟩
        rintro ⟨hfirst | ⟨e, hunder⟩, hc⟩
        · exact absurd hfirst.parent hparent
        · rw [hunder.stored] at hstored
          cases hstored
      | some parentEntry =>
        show admitUnder R s input parentEntry = .committed c ↔ _
        rw [admitUnder_committed R hparent hstored]
        constructor
        · rintro ⟨hunder, hc⟩
          exact ⟨Or.inr ⟨_, hunder⟩, hc⟩
        · rintro ⟨hfirst | ⟨e, hunder⟩, hc⟩
          · exact absurd hfirst.parent hparent
          · rw [hunder.stored] at hstored
            cases hstored
            exact ⟨hunder, hc⟩
  unfold admitChild
  cases hidem : s.priorSubmission input with
  | some idem =>
    constructor
    · intro h
      dsimp only at h
      split_ifs at h
    · rintro ⟨h, -⟩
      rw [h.idempotency] at hidem
      cases hidem
  | none =>
    cases hcontent : s.contentIndex input.contentKey with
    | some content =>
      constructor
      · intro h
        dsimp only at h
        split_ifs at h
      · rintro ⟨h, -⟩
        rw [h.content] at hcontent
        cases hcontent
    | none =>
      show admitFresh R s input = .committed c ↔ _
      rw [hfresh]
      exact ⟨fun h => ⟨⟨hidem, hcontent⟩, h⟩, fun h => h.2⟩

/-! ## the two rejections that guard against a fork -/

theorem mismatch_reason {receipt : Option (Receipt ι)} {reason : Reason}
    (h : resubmissionParentRequirementMismatch receipt = some reason) :
    reason = .parentNotRejected ∨ reason = .parentRejectionNotFinal
      ∨ reason = .parentNotResubmittable ∨ reason = .parentAttemptWithdrawn := by
  unfold resubmissionParentRequirementMismatch at h
  split_ifs at h <;> simp_all

/-- where a fork is refused, the parent is the head and has a successor, or the child is its own
parent and is not stored -/
def ForkRefused (s : ChainState ι) (input : AdmitInput ι) : Reason → Prop
  | .parentAlreadyHasSuccessor =>
    input.parentReceiptHash = s.head ∧ (s.successorByParent input.parentReceiptHash).isSome
  | .cycleDetected =>
    s.attemptReceipts input.childReceiptHash = none
      ∧ input.childReceiptHash = input.parentReceiptHash
      ∧ (s.attemptReceipts input.parentReceiptHash).isSome
  | _ => True

theorem admitAtHead_refused {reason : Reason} {shown : Option (PublicResult ι)}
    (hstored : s.attemptReceipts input.parentReceiptHash = some parentEntry)
    (h : admitAtHead R s input parentEntry = .rejected reason shown) :
    ForkRefused s input reason := by
  unfold admitAtHead at h
  cases hseq : input.sequence with
  | none => simp [hseq] at h
  | some sequence =>
    simp only [hseq, guard_eq_rejected] at h
    rcases h with ⟨-, rfl, -⟩ | ⟨-, ⟨-, rfl, -⟩ | ⟨-, ⟨-, rfl, -⟩ | ⟨hchild, h⟩⟩⟩
    · trivial
    · trivial
    · trivial
    · rcases h with ⟨hcycle, rfl, -⟩ | ⟨-, h⟩
      · exact ⟨by simpa using hchild, hcycle, by rw [hstored]; rfl⟩
      · rcases unlessContended_rejected s h with rfl | h
        · trivial
        · cases h

theorem admitUnder_refused {reason : Reason} {shown : Option (PublicResult ι)}
    (hstored : s.attemptReceipts input.parentReceiptHash = some parentEntry)
    (h : admitUnder R s input parentEntry = .rejected reason shown) :
    ForkRefused s input reason := by
  simp only [admitUnder, guard_eq_rejected] at h
  rcases h with ⟨-, rfl, -⟩ | ⟨-, ⟨-, hreason, -⟩ | ⟨-, ⟨-, rfl, -⟩ | ⟨hhead, h⟩⟩⟩
  · trivial
  · cases hm : resubmissionParentRequirementMismatch parentEntry.attemptReceipt with
    | none =>
      rw [hm] at hreason
      subst hreason
      trivial
    | some m =>
      rw [hm] at hreason
      subst hreason
      rcases mismatch_reason hm with rfl | rfl | rfl | rfl
      all_goals trivial
  · trivial
  · rcases h with ⟨hsucc, rfl, -⟩ | ⟨-, h⟩
    · exact ⟨of_not_not hhead, hsucc⟩
    · exact admitAtHead_refused R hstored h

/-- **Where an admission is refused for a fork, the state has one already.** -/
theorem admitChild_refused {reason : Reason} {shown : Option (PublicResult ι)}
    (h : admitChild R s input = .rejected reason shown) : ForkRefused s input reason := by
  unfold admitChild at h
  cases hidem : s.priorSubmission input with
  | some idem =>
    simp only [hidem] at h
    split_ifs at h
    cases h
    trivial
  | none =>
    cases hcontent : s.contentIndex input.contentKey with
    | some content =>
      simp only [hidem, hcontent] at h
      split_ifs at h
      · cases h
        trivial
      · cases h
        trivial
    | none =>
      simp only [hidem, hcontent, admitFresh] at h
      split_ifs at h with hparent hfirst
      · cases h
      · cases h
        trivial
      · cases hstored : s.attemptReceipts input.parentReceiptHash with
        | none =>
          rw [hstored] at h
          cases h
          trivial
        | some parentEntry =>
          rw [hstored] at h
          exact admitUnder_refused R hstored h

end

/-! ## dispositions -/

section
variable {ι : Type*} [DecidableEq ι] (R : Roots ι) (s : ChainState ι)

structure DispositionGuards (input : DispositionInput ι) (publicHex : ι)
    (artifact : Disposition ι) : Prop where
  stored : s.attemptReceipts input.attemptReceiptHash ≠ none
  configured : s.dispositionPublicHex = some publicHex
  authority : ∀ a, s.dispositionAuthorityContext = some a → a.publicKey = some publicHex
  given : input.dispositionArtifact = some artifact
  verified : verification R s publicHex artifact = none
  receipt : input.attemptReceiptHash = artifact.attemptReceiptHash
  previous : s.dispositionHeadByReceipt input.attemptReceiptHash = artifact.previousDispositionHash
  allowed : artifact.status
    ∈ (allowedDispositionTransitions
        (s.currentDispositionStatus input.attemptReceiptHash)).map some
  expectedHead : ∀ h, input.expectedDispositionHead = some h →
    some h = s.dispositionHeadByReceipt input.attemptReceiptHash
  version : ∀ v, input.expectedChainVersion = some v → v = s.version

variable {R s} {c : Commit ι} {input : DispositionInput ι} {artifact : Disposition ι}

theorem applyVerified_committed :
    applyVerified R s input artifact = .committed c ↔
      input.attemptReceiptHash = artifact.attemptReceiptHash
        ∧ s.dispositionHeadByReceipt input.attemptReceiptHash = artifact.previousDispositionHash
        ∧ artifact.status
            ∈ (allowedDispositionTransitions
                (s.currentDispositionStatus input.attemptReceiptHash)).map some
        ∧ (∀ h, input.expectedDispositionHead = some h →
            some h = s.dispositionHeadByReceipt input.attemptReceiptHash)
        ∧ (∀ v, input.expectedChainVersion = some v → v = s.version)
        ∧ commitDisposition R s input artifact = .committed c := by
  simp only [applyVerified, guard_eq_committed, unlessHeadMoved_committed,
    unlessContended_committed, not_not]

/-- **A disposition is committed exactly under its guards.** -/
theorem applyDisposition_committed :
    applyDisposition R s input = .committed c ↔
      ∃ publicHex artifact, DispositionGuards R s input publicHex artifact
        ∧ commitDisposition R s input artifact = .committed c := by
  simp only [applyDisposition, guard_eq_committed]
  constructor
  · rintro ⟨hstored, h⟩
    cases hhex : s.dispositionPublicHex with
    | none => simp [hhex] at h
    | some publicHex =>
      simp only [hhex, guard_eq_committed] at h
      obtain ⟨hkey, h⟩ := h
      cases hartifact : input.dispositionArtifact with
      | none => simp [hartifact] at h
      | some artifact =>
        simp only [hartifact] at h
        cases hverified : verification R s publicHex artifact with
        | some reason => simp [hverified] at h
        | none =>
          simp only [hverified, applyVerified_committed] at h
          obtain ⟨hreceipt, hprev, hallowed, hhead, hv, hc⟩ := h
          refine ⟨publicHex, artifact, ⟨hstored, hhex, ?_, hartifact, hverified, hreceipt, hprev,
            hallowed, hhead, hv⟩, hc⟩
          intro a ha
          simpa [ha] using hkey
  · rintro ⟨publicHex, artifact, g, hc⟩
    refine ⟨g.stored, ?_⟩
    have hkey : (s.dispositionAuthorityContext.all fun a => a.publicKey = some publicHex)
        = true := by
      cases ha : s.dispositionAuthorityContext with
      | none => rfl
      | some a => simp [g.authority a ha]
    simp only [g.configured, guard_eq_committed, hkey, g.given, g.verified,
      applyVerified_committed]
    exact ⟨ne_false_of_eq_true rfl, g.receipt, g.previous, g.allowed, g.expectedHead, g.version,
      hc⟩

theorem verification_schema {publicHex : ι} (h : verification R s publicHex artifact = none) :
    artifact.schema = some dispositionSchema ∧ artifact.status.isSome := by
  unfold verification at h
  cases hauthority : s.dispositionAuthorityContext with
  | none =>
    rw [hauthority] at h
    exact verifyDisposition_eq_none R.toCrypto h
  | some authority =>
    rw [hauthority] at h
    dsimp only [verifyAuthorizedDisposition] at h
    split_ifs at h with h₁ h₂
    cases hkey : authority.publicKey with
    | none => simp [hkey] at h
    | some key =>
      simp only [hkey] at h
      split_ifs at h
      exact verifyDisposition_eq_none R.toCrypto h

/-- **An authoritative disposition never commits**: it has to be valid in both schemas. -/
theorem applyAuthoritativeDisposition_rejected :
    applyAuthoritativeDisposition R s input ≠ .committed c := by
  unfold applyAuthoritativeDisposition
  intro h
  cases hauthority : s.dispositionAuthorityContext with
  | none => simp [hauthority] at h
  | some authority =>
    simp only [hauthority] at h
    split at h
    · next entry artifact hentry hartifact =>
      cases hverify : verifyAuthoritativeDisposition R.toCrypto artifact authority.publicKey with
      | some reason => simp [hverify] at h
      | none =>
        simp only [hverify] at h
        obtain ⟨publicHex, artifact', g, -⟩ := applyDisposition_committed.mp h
        have hsame : artifact' = artifact := by
          have := g.given
          simp only [hartifact, Option.some.injEq] at this
          exact this.symm
        have hv2 := verifyAuthoritativeDisposition_eq_none R.toCrypto hverify
        have hv1 := (verification_schema g.verified).1
        rw [hsame, hv2] at hv1
        exact absurd hv1 (by decide)
    · cases h
    · cases h

/-! ## what a disposition is refused for -/

/-- the two reasons that belong to admissions -/
def Reason.isFork : Reason → Bool
  | .parentAlreadyHasSuccessor => true
  | .cycleDetected => true
  | _ => false

def Result.NoFork (x : Result ι) : Prop :=
  ∀ reason shown, x = .rejected reason shown → reason.isFork = false

theorem noFork_rejected {reason : Reason} {shown : Option (PublicResult ι)}
    (h : reason.isFork = false) : (Result.rejected reason shown).NoFork := by
  intro reason' shown' heq
  cases heq
  exact h

theorem noFork_guard {p : Prop} [Decidable p] {reason : Reason} {shown : Option (PublicResult ι)}
    {x : Result ι} (h : reason.isFork = false) (hx : x.NoFork) :
    (if p then .rejected reason shown else x).NoFork := by
  split
  · exact noFork_rejected h
  · exact hx

theorem noFork_commit (input : DispositionInput ι) (artifact : Disposition ι) :
    (commitDisposition R s input artifact).NoFork := by
  intro reason shown h
  cases h

theorem noFork_unlessContended {expected : Option ℤ} {x : Result ι} (hx : x.NoFork) :
    (s.unlessContended expected x).NoFork := by
  cases expected with
  | none => exact hx
  | some v => exact noFork_guard rfl hx

theorem noFork_unlessHeadMoved {attempt expected : Option ι} {x : Result ι} (hx : x.NoFork) :
    (s.unlessHeadMoved attempt expected x).NoFork := by
  cases expected with
  | none => exact hx
  | some h => exact noFork_guard rfl hx

/-- a reason to refuse that is no fork, if there is one -/
def NoForkReason (x : Option Reason) : Prop := ∀ reason, x = some reason → reason.isFork = false

theorem noForkReason_none : NoForkReason none := by
  intro reason h
  cases h

theorem noForkReason_some {reason : Reason} (h : reason.isFork = false) :
    NoForkReason (some reason) := by
  intro reason' heq
  cases heq
  exact h

theorem noForkReason_ite {p : Prop} [Decidable p] {x y : Option Reason} (hx : NoForkReason x)
    (hy : NoForkReason y) : NoForkReason (if p then x else y) := by
  split
  · exact hx
  · exact hy

theorem noForkReason_verify (d : Disposition ι) (publicHex : ι) :
    NoForkReason (verifyDisposition R.toCrypto d publicHex) := by
  apply noForkReason_ite (noForkReason_some rfl)
  apply noForkReason_ite (noForkReason_some rfl)
  cases d.signature with
  | none => exact noForkReason_some rfl
  | some sig => exact noForkReason_ite noForkReason_none (noForkReason_some rfl)

theorem noForkReason_authorized (d : Disposition ι) (authority : AuthorityContext ι) :
    NoForkReason (verifyAuthorizedDisposition R.toCrypto d authority) := by
  apply noForkReason_ite (noForkReason_some rfl)
  apply noForkReason_ite (noForkReason_some rfl)
  cases authority.publicKey with
  | none => exact noForkReason_some rfl
  | some key => exact noForkReason_ite (noForkReason_some rfl) (noForkReason_verify d key)

theorem noForkReason_authoritative (d : Disposition ι) (hex : Option ι) :
    NoForkReason (verifyAuthoritativeDisposition R.toCrypto d hex) := by
  apply noForkReason_ite (noForkReason_some rfl)
  cases hex with
  | none => exact noForkReason_some rfl
  | some hex =>
    apply noForkReason_ite (noForkReason_some rfl)
    cases d.signature with
    | none => exact noForkReason_some rfl
    | some sig =>
      apply noForkReason_ite (noForkReason_some rfl)
      exact noForkReason_ite noForkReason_none (noForkReason_some rfl)

theorem noForkReason_verification (publicHex : ι) (artifact : Disposition ι) :
    NoForkReason (verification R s publicHex artifact) := by
  unfold verification
  cases s.dispositionAuthorityContext with
  | none => exact noForkReason_verify artifact publicHex
  | some authority => exact noForkReason_authorized artifact authority

theorem noFork_applyDisposition (input : DispositionInput ι) :
    (applyDisposition R s input).NoFork := by
  apply noFork_guard rfl
  cases s.dispositionPublicHex with
  | none => exact noFork_rejected rfl
  | some publicHex =>
    apply noFork_guard rfl
    cases input.dispositionArtifact with
    | none => exact noFork_rejected rfl
    | some artifact =>
      dsimp only
      cases hverified : verification R s publicHex artifact with
      | some reason => exact noFork_rejected (noForkReason_verification _ _ reason hverified)
      | none =>
        apply noFork_guard rfl
        apply noFork_guard rfl
        apply noFork_guard rfl
        exact noFork_unlessHeadMoved (noFork_unlessContended (noFork_commit input artifact))

theorem noFork_applyAuthoritativeDisposition (input : DispositionInput ι) :
    (applyAuthoritativeDisposition R s input).NoFork := by
  unfold applyAuthoritativeDisposition
  cases s.dispositionAuthorityContext with
  | none => exact noFork_rejected rfl
  | some authority =>
    dsimp only
    split
    · next artifact _ _ =>
      cases hverified : verifyAuthoritativeDisposition R.toCrypto artifact authority.publicKey with
      | some reason => exact noFork_rejected (noForkReason_authoritative _ _ reason hverified)
      | none => exact noFork_applyDisposition _
    · exact noFork_rejected rfl
    · exact noFork_rejected rfl

/-- **A fork is refused to an admission only, and in a state that has one.** -/
theorem applyAction_refused {command : Command ι} {reason : Reason}
    {shown : Option (PublicResult ι)} (hfork : reason.isFork = true)
    (h : applyAction R s command = .rejected reason shown) :
    ∃ input, command = .admitChild input ∧ ForkRefused s input reason := by
  cases command with
  | admitChild input => exact ⟨input, rfl, admitChild_refused R h⟩
  | applyDisposition input =>
    have := noFork_applyDisposition input reason shown h
    rw [hfork] at this
    cases this
  | applyAuthoritativeDisposition input =>
    have := noFork_applyAuthoritativeDisposition input reason shown h
    rw [hfork] at this
    cases this
  | unknown =>
    cases h
    cases hfork

/-- **What a committed command is**: an admission or a disposition, with its guards passed. -/
theorem applyAction_committed {command : Command ι} :
    applyAction R s command = .committed c ↔
      (∃ input, command = .admitChild input ∧ Fresh s input
        ∧ (AdmittedFirst s input ∨ ∃ parentEntry, AdmittedUnder s input parentEntry)
        ∧ commitAdmit R s input input.childReceiptHash input.parentReceiptHash = .committed c)
      ∨ ∃ input publicHex artifact, command = .applyDisposition input
        ∧ DispositionGuards R s input publicHex artifact
        ∧ commitDisposition R s input artifact = .committed c := by
  cases command with
  | admitChild input =>
    show admitChild R s input = _ ↔ _
    simp [admitChild_committed]
  | applyDisposition input =>
    show applyDisposition R s input = _ ↔ _
    simp [applyDisposition_committed]
  | applyAuthoritativeDisposition input =>
    show applyAuthoritativeDisposition R s input = _ ↔ _
    simp [applyAuthoritativeDisposition_rejected]
  | unknown => simp [applyAction]

end

end PRF.Resubmission
