import ProtocolRobustness.Resubmission.Guards
import ProtocolRobustness.Resubmission.Rust

/-!
# Where the two transitions agree

A state reached by the Clojure side, and one command put to both.

* `Agree`                 the same status and reason; of commits the same projection, effects and
                          snapshots;
* `AgreesOnAdmit`, `AgreesOnDisposition`   the conditions on a command and the state before it;
* `Indexed`               a content that is filed under a key is in the index of contents;
* `admit_agree_iff`, `disposition_agree_iff`   the conditions are exact;
* `rust_agrees_iff`       for every command after every run.
-/

namespace PRF.Resubmission
open Runs

/-- what the two sides answer is the same -/
def Agree : Result String → Result String → Prop
  | .committed a, .committed b =>
    a.state.projection = b.state.projection ∧ a.effects = b.effects
      ∧ a.orderingInput.expected = b.orderingInput.expected
      ∧ a.orderingInput.observed = b.orderingInput.observed
  | .idempotentReplay _, .idempotentReplay _ => True
  | .rejected reason _, .rejected reason' _ => reason = reason'
  | _, _ => False

theorem agree_rejected {reason reason' : Reason} {shown shown' : Option (PublicResult String)} :
    Agree (.rejected reason shown) (.rejected reason' shown') ↔ reason = reason' := Iff.rfl

/-! ## the conditions -/

section
variable (C : Crypto String) (D : Rust.Dalek) (s : ChainState String)

/-- an admission that both sides file the same way: it has a key and a content, and its candidate
receipt has no id of its own -/
structure PlainAdmit (input : AdmitInput String) : Prop where
  child : input.childReceiptHash = some (Rust.candidateId input)
  key : input.idempotencyKey ≠ none
  content : input.contentKey ≠ none

/-- a fresh admission under a parent that is stored: the parent is active and eligible, and where it
is the head the guards that Rust lacks are met -/
structure AgreesUnder (input : AdmitInput String) (parentEntry : AttemptEntry String) : Prop where
  active : s.effectiveDisposition input.parentReceiptHash = .active
  eligible : parentEntry.eligibleParent = true
  atHead : input.parentReceiptHash = s.head →
    AdmittedUnder s input parentEntry ∧ PlainAdmit input

structure AgreesFresh (input : AdmitInput String) : Prop where
  first : input.parentReceiptHash = none → s.head = none → input.sequence = some 1 →
    PlainAdmit input
  under : ∀ parentEntry, input.parentReceiptHash ≠ none →
    s.attemptReceipts input.parentReceiptHash = some parentEntry →
    AgreesUnder s input parentEntry

structure AgreesOnAdmit (input : AdmitInput String) : Prop where
  prior : ∀ idem, s.priorSubmission input = some idem →
    (input.contentKey = idem.contentKey ↔ idem.contentKey.getD "" = input.contentKey.getD "")
  content : s.priorSubmission input = none → s.contentIndex input.contentKey ≠ none →
    input.contentKey ≠ none
  fresh : Fresh s input → AgreesFresh s input

/-- the bytes of a signature and of a key have the form Rust asks for -/
def WellFormedBytes (sigHex pubHex : String) : Prop :=
  ∃ sigBytes pubBytes, D.hexToBytes sigHex = some sigBytes ∧ sigBytes.length = 64
    ∧ D.hexToBytes pubHex = some pubBytes ∧ pubBytes.length = 32
    ∧ D.verifyingKey pubBytes = true ∧ D.signatureFormat sigBytes = true

/-- a signature that is refused is refused by the check of the signature itself -/
def SameRefusal (d : Disposition String) (publicHex : String) : Prop :=
  d.schema = some dispositionSchema → d.status ≠ none →
    ∀ sig, d.signature = some sig → C.verifyBytes d.unsigned sig.signature publicHex = false →
      ∃ sigHex, sig.signature = some sigHex ∧ WellFormedBytes D sigHex publicHex

/-- both tables say the same of the step; and a step they allow does not meet both a head that has
moved and a version that has, and states the head it expects -/
structure AgreesOnStep (input : DispositionInput String) (d : Disposition String) : Prop where
  table : Rust.isAllowedTransition (s.currentDispositionStatus input.attemptReceiptHash) d.status
      = true
    ↔ d.status ∈ (allowedDispositionTransitions
        (s.currentDispositionStatus input.attemptReceiptHash)).map some
  order : d.status ∈ (allowedDispositionTransitions
      (s.currentDispositionStatus input.attemptReceiptHash)).map some →
    ¬ (Rust.headMoved s input = true ∧ Rust.contended s input = true)
  expected : d.status ∈ (allowedDispositionTransitions
      (s.currentDispositionStatus input.attemptReceiptHash)).map some →
    ¬ Rust.headMoved s input = true → ¬ Rust.contended s input = true →
    input.expectedDispositionHead = s.dispositionHeadByReceipt input.attemptReceiptHash

/-- the command has an artifact; both sides refuse its signature for the same reason; and where it
is valid, of this receipt and linked to the last one, the step is one they agree on -/
def AgreesOnDisposition (input : DispositionInput String) : Prop :=
  s.attemptReceipts input.attemptReceiptHash ≠ none →
    ∀ publicHex, s.dispositionPublicHex = some publicHex →
      ∃ d, input.dispositionArtifact = some d ∧ SameRefusal C D d publicHex
        ∧ (verifyDisposition C d publicHex = none →
            d.attemptReceiptHash = input.attemptReceiptHash →
            s.dispositionHeadByReceipt input.attemptReceiptHash = d.previousDispositionHash →
            AgreesOnStep s input d)

/-- both checks accept the same signatures, and none that is missing -/
structure SameSignatures : Prop where
  same : ∀ d sigHex publicHex,
    Rust.checkSignature D d sigHex publicHex = .ok ↔ C.verifyBytes d (some sigHex) publicHex = true
  missing : ∀ d publicHex, C.verifyBytes d none publicHex = false

end

/-! ## admission -/

section
variable (R : Roots String) {s : ChainState String} {input : AdmitInput String}

/-- a content that is filed under a key is in the index of contents -/
def Indexed (s : ChainState String) : Prop :=
  ∀ key idem, s.idempotencyIndex key = some idem → s.contentIndex idem.contentKey ≠ none

/-- **Two commits of a fresh admission are the same when it is plain.** -/
theorem commitAdmit_agree (hindexed : Indexed s) (hfresh : Fresh s input) :
    Agree (Rust.commitAdmit R s input (Rust.candidateId input) input.parentReceiptHash)
        (commitAdmit R s input input.childReceiptHash input.parentReceiptHash)
      ↔ PlainAdmit input := by
  constructor
  · rintro ⟨hproj, -, -, -⟩
    have hchild : some (Rust.candidateId input) = input.childReceiptHash :=
      congrArg Projection.head hproj
    have hcontent := congrFun (congrArg Projection.contentIndex hproj) input.contentKey
    have hidem := congrFun (congrArg Projection.idempotencyIndex hproj) input.idempotencyKey
    dsimp only [ChainState.projection, Rust.admitted, ChainState.admitted] at hcontent hidem
    rw [Function.update_self] at hcontent hidem
    refine ⟨hchild.symm, ?_, ?_⟩
    · intro hkey
      rw [hkey] at hidem
      exact hindexed none _ hidem hfresh.content
    · intro hkey
      have hnone := hfresh.content
      rw [hkey] at hcontent hnone
      dsimp only at hcontent
      rw [hnone] at hcontent
      cases hcontent
  · intro h
    obtain ⟨key, hkey⟩ := Option.ne_none_iff_exists'.mp h.key
    obtain ⟨content, hcontent⟩ := Option.ne_none_iff_exists'.mp h.content
    have hproj : (Rust.admitted s input (Rust.candidateId input)
        input.parentReceiptHash).projection
        = (s.admitted input input.childReceiptHash input.parentReceiptHash).projection := by
      simp only [ChainState.projection, Rust.admitted, ChainState.admitted, h.child, hkey, hcontent,
        Option.getD_some]
    refine ⟨hproj, ?_, rfl, rfl⟩
    dsimp only [Rust.commitAdmit, commitAdmit]
    rw [h.child]

/-- at the head Rust commits, so the Clojure side has to commit the same -/
theorem agree_atHead {parentEntry : AttemptEntry String} (hindexed : Indexed s)
    (hfresh : Fresh s input) (hparent : input.parentReceiptHash ≠ none)
    (hstored : s.attemptReceipts input.parentReceiptHash = some parentEntry) :
    Agree (Rust.commitAdmit R s input (Rust.candidateId input) input.parentReceiptHash)
        (admitUnder R s input parentEntry)
      ↔ AdmittedUnder s input parentEntry ∧ PlainAdmit input := by
  constructor
  · intro h
    cases hunder : admitUnder R s input parentEntry with
    | committed c =>
      obtain ⟨hguards, hcommit⟩ := (admitUnder_committed R hparent hstored).mp hunder
      rw [hunder, ← hcommit, commitAdmit_agree R hindexed hfresh] at h
      exact ⟨hguards, h⟩
    | idempotentReplay existing =>
      rw [hunder] at h
      exact h.elim
    | rejected reason shown =>
      rw [hunder] at h
      exact h.elim
    | threw =>
      rw [hunder] at h
      exact h.elim
  · rintro ⟨hguards, hplain⟩
    rw [(admitUnder_committed R hparent hstored).mpr ⟨hguards, rfl⟩]
    exact (commitAdmit_agree R hindexed hfresh).mpr hplain

theorem mismatch_ne_head {receipt : Option (Receipt String)} :
    (resubmissionParentRequirementMismatch receipt).getD .parentRejectionNotResubmittable
      ≠ .parentNotCurrentHead := by
  cases hm : resubmissionParentRequirementMismatch receipt with
  | none => simp
  | some reason => rcases mismatch_reason hm with rfl | rfl | rfl | rfl <;> simp

/-- away from the head Rust looks at nothing else -/
theorem agree_awayFromHead {parentEntry : AttemptEntry String}
    (hhead : input.parentReceiptHash ≠ s.head) :
    Agree (.rejected .parentNotCurrentHead none) (admitUnder R s input parentEntry)
      ↔ s.effectiveDisposition input.parentReceiptHash = .active
        ∧ parentEntry.eligibleParent = true := by
  unfold admitUnder
  by_cases hactive : s.effectiveDisposition input.parentReceiptHash = .active
  · rw [if_neg (not_not.mpr hactive)]
    by_cases heligible : parentEntry.eligibleParent = false
    · rw [if_pos heligible, heligible]
      constructor
      · exact fun h => absurd h.symm mismatch_ne_head
      · exact fun h => absurd h.2 Bool.false_ne_true
    · rw [if_neg heligible, if_pos hhead]
      exact iff_of_true rfl ⟨hactive, by simpa using heligible⟩
  · rw [if_pos hactive]
    exact iff_of_false nofun fun h => hactive h.1

theorem admitFresh_agree_iff (hindexed : Indexed s) (hfresh : Fresh s input)
    (hseq : input.sequence.isSome) :
    Agree (Rust.admitFresh R s input) (admitFresh R s input) ↔ AgreesFresh s input := by
  obtain ⟨n, hn⟩ := Option.isSome_iff_exists.mp hseq
  unfold Rust.admitFresh admitFresh
  cases hparent : input.parentReceiptHash with
  | none =>
    rw [if_pos rfl]
    dsimp only
    have hone : (s.head = none ∧ input.sequence.getD 0 = 1)
        ↔ (s.head = none ∧ input.sequence = some 1) := by simp [hn]
    by_cases hfirst : s.head = none ∧ input.sequence = some 1
    · have hcommit := commitAdmit_agree R hindexed hfresh
      rw [hparent] at hcommit
      rw [if_pos (hone.mpr hfirst), if_pos hfirst, hcommit]
      constructor
      · exact fun h => ⟨fun _ _ _ => h, fun _ hne => absurd hparent hne⟩
      · exact fun h => h.first hparent hfirst.1 hfirst.2
    · rw [if_neg (mt hone.mp hfirst), if_neg hfirst]
      refine iff_of_true rfl ⟨fun _ hh h1 => absurd ⟨hh, h1⟩ hfirst, ?_⟩
      exact fun _ hne => absurd hparent hne
  | some parent =>
    rw [if_neg (Option.some_ne_none parent)]
    dsimp only
    cases hstored : s.attemptReceipts (some parent) with
    | none =>
      rw [if_pos rfl]
      refine iff_of_true rfl ⟨fun hnone => ?_, fun e _ he => ?_⟩
      · rw [hparent] at hnone
        cases hnone
      · rw [hparent, hstored] at he
        cases he
    | some parentEntry =>
      rw [if_neg (Option.some_ne_none parentEntry)]
      dsimp only
      have hne : input.parentReceiptHash ≠ none := by simp [hparent]
      have hentry : s.attemptReceipts input.parentReceiptHash = some parentEntry := by
        rw [hparent, hstored]
      have hunder : AgreesFresh s input ↔ AgreesUnder s input parentEntry := by
        constructor
        · exact fun h => h.under parentEntry hne hentry
        · refine fun h => ⟨fun hnone => absurd hnone hne, fun e _ he => ?_⟩
          rw [hentry] at he
          cases he
          exact h
      rw [hunder]
      by_cases hhead : s.head = some parent
      · rw [if_neg (not_not.mpr hhead), ← hparent, agree_atHead R hindexed hfresh hne hentry]
        constructor
        · exact fun h => ⟨h.1.active, h.1.eligible, fun _ => h⟩
        · exact fun h => h.atHead (by rw [hparent, hhead])
      · have haway : input.parentReceiptHash ≠ s.head := by
          rw [hparent]
          exact fun h => hhead h.symm
        rw [if_pos hhead, agree_awayFromHead R haway]
        constructor
        · exact fun h => ⟨h.1, h.2, fun hat => absurd hat haway⟩
        · exact fun h => ⟨h.active, h.eligible⟩

theorem rust_admitFresh_ne {existing : Option (PublicResult String)} :
    ¬ Agree (Rust.admitFresh R s input) (.rejected .duplicateContentSubmission existing)
      ∧ ¬ Agree (Rust.admitFresh R s input) (.rejected .idempotencyKeyRebound existing) := by
  unfold Rust.admitFresh
  cases input.parentReceiptHash with
  | none =>
    dsimp only
    split_ifs
    · exact ⟨nofun, nofun⟩
    · exact ⟨nofun, nofun⟩
  | some parent =>
    dsimp only
    split_ifs
    · exact ⟨nofun, nofun⟩
    · exact ⟨nofun, nofun⟩
    · exact ⟨nofun, nofun⟩

/-- **The two sides agree on an admission exactly under its condition.** -/
theorem admit_agree_iff (hindexed : Indexed s) (hseq : input.sequence.isSome) :
    Agree (Rust.admitChild R s input) (admitChild R s input) ↔ AgreesOnAdmit s input := by
  unfold Rust.admitChild admitChild
  cases hprior : s.priorSubmission input with
  | some idem =>
    dsimp only
    have hcond : AgreesOnAdmit s input ↔
        (input.contentKey = idem.contentKey
          ↔ idem.contentKey.getD "" = input.contentKey.getD "") := by
      constructor
      · exact fun h => h.prior idem hprior
      · refine fun h => ⟨fun idem' h' => ?_, fun hnone => ?_, fun hfresh => ?_⟩
        · rw [hprior] at h'
          cases h'
          exact h
        · rw [hprior] at hnone
          cases hnone
        · have := hfresh.idempotency
          rw [hprior] at this
          cases this
    rw [hcond]
    by_cases hsame : input.contentKey = idem.contentKey
    · rw [if_pos hsame, hsame, if_pos rfl]
      exact iff_of_true trivial (iff_of_true rfl rfl)
    · rw [if_neg hsame]
      by_cases hdefault : idem.contentKey.getD "" = input.contentKey.getD ""
      · rw [if_pos hdefault]
        exact iff_of_false nofun fun h => hsame (h.mpr hdefault)
      · rw [if_neg hdefault]
        exact iff_of_true rfl (iff_of_false hsame hdefault)
  | none =>
    dsimp only
    cases hcontent : s.contentIndex input.contentKey with
    | some content =>
      have hcond : AgreesOnAdmit s input ↔ input.contentKey ≠ none := by
        constructor
        · exact fun h => h.content hprior (by simp [hcontent])
        · refine fun h => ⟨fun idem h' => ?_, fun _ _ => h, fun hfresh => ?_⟩
          · rw [hprior] at h'
            cases h'
          · have := hfresh.content
            rw [hcontent] at this
            cases this
      rw [hcond]
      cases hkey : input.contentKey with
      | none =>
        have hnone : Rust.priorContent s input = none := by simp [Rust.priorContent, hkey]
        rw [hnone]
        dsimp only
        refine iff_of_false ?_ (not_not.mpr rfl)
        split_ifs
        · exact (rust_admitFresh_ne R).1
        · exact (rust_admitFresh_ne R).2
      | some key =>
        have hsome : Rust.priorContent s input = some content := by
          rw [Rust.priorContent, if_pos (by rw [hkey]; rfl), hcontent]
        rw [hsome]
        dsimp only
        refine iff_of_true ?_ (Option.some_ne_none key)
        split_ifs
        · exact rfl
        · exact rfl
    | none =>
      have hfresh : Fresh s input := ⟨hprior, hcontent⟩
      have hnone : Rust.priorContent s input = none := by
        rw [Rust.priorContent, hcontent, ite_self]
      rw [hnone]
      dsimp only
      rw [admitFresh_agree_iff R hindexed hfresh hseq]
      constructor
      · refine fun h => ⟨fun idem h' => ?_, fun _ hne => absurd hcontent hne, fun _ => h⟩
        rw [hprior] at h'
        cases h'
      · exact fun h => h.fresh hfresh

end

/-! ## dispositions -/

section
variable {C : Crypto String} {D : Rust.Dalek} {d : Disposition String} {publicHex : String}

theorem checkSignature_refused_iff {unsigned : Disposition String} {sigHex : String}
    (h : Rust.checkSignature D unsigned sigHex publicHex ≠ .ok) :
    Rust.checkSignature D unsigned sigHex publicHex = .refused .invalidDispositionSignature
      ↔ WellFormedBytes D sigHex publicHex := by
  unfold Rust.checkSignature WellFormedBytes at *
  cases hsig : D.hexToBytes sigHex with
  | none => simp
  | some sigBytes =>
    cases hpub : D.hexToBytes publicHex with
    | none =>
      dsimp only
      split_ifs <;> simp
    | some pubBytes =>
      simp only [hsig, hpub] at h
      dsimp only
      split_ifs at h ⊢ with h₁ h₂ h₃ h₄ h₅
      · simp [h₁]
      · simp [h₂]
      · simp [h₃]
      · simp [h₄]
      · exact absurd rfl h
      · refine iff_of_true rfl ⟨sigBytes, pubBytes, rfl, of_not_not h₁, rfl, of_not_not h₂, ?_, ?_⟩
        · simpa using h₃
        · simpa using h₄

/-- **Rust accepts what the Clojure side accepts, and gives its reason exactly when the refusal is
the same.** -/
theorem verify_agree (hsame : SameSignatures C D) (d : Disposition String) (publicHex : String) :
    match verifyDisposition C d publicHex with
    | none => Rust.verifyDispositionInternal D d publicHex = .ok ∧ SameRefusal C D d publicHex
    | some reason =>
      Rust.verifyDispositionInternal D d publicHex ≠ .ok
        ∧ (Rust.verifyDispositionInternal D d publicHex = .refused reason
            ↔ SameRefusal C D d publicHex) := by
  unfold verifyDisposition Rust.verifyDispositionInternal
  by_cases hschema : d.schema = some dispositionSchema
  swap
  · rw [if_pos hschema, if_pos hschema]
    exact ⟨nofun, iff_of_true rfl fun h => absurd h hschema⟩
  rw [if_neg (not_not.mpr hschema), if_neg (not_not.mpr hschema)]
  by_cases hstatus : d.status = none
  · rw [if_pos hstatus, if_pos hstatus]
    exact ⟨nofun, iff_of_true rfl fun _ h => absurd hstatus h⟩
  rw [if_neg hstatus, if_neg hstatus]
  cases hsig : d.signature with
  | none =>
    refine ⟨nofun, iff_of_true rfl fun _ _ sig h => ?_⟩
    rw [hsig] at h
    cases h
  | some sig =>
    have hrefusal : SameRefusal C D d publicHex ↔
        (C.verifyBytes d.unsigned sig.signature publicHex = false →
          ∃ sigHex, sig.signature = some sigHex ∧ WellFormedBytes D sigHex publicHex) := by
      constructor
      · exact fun h => h hschema hstatus sig hsig
      · intro h _ _ sig' hsig'
        rw [hsig] at hsig'
        cases hsig'
        exact h
    rw [hrefusal]
    dsimp only [Option.bind_some]
    cases hbytes : sig.signature with
    | none =>
      rw [hsame.missing]
      exact ⟨nofun, iff_of_false nofun fun h => nomatch h rfl⟩
    | some sigHex =>
      dsimp only
      cases haccept : C.verifyBytes d.unsigned (some sigHex) publicHex with
      | true =>
        exact ⟨(hsame.same _ _ _).mpr haccept, fun h => absurd h (ne_false_of_eq_true rfl)⟩
      | false =>
        have hno : Rust.checkSignature D d.unsigned sigHex publicHex ≠ .ok := by
          intro h
          rw [(hsame.same _ _ _).mp h] at haccept
          cases haccept
        refine ⟨hno, (checkSignature_refused_iff hno).trans ?_⟩
        constructor
        · exact fun h _ => ⟨sigHex, rfl, h⟩
        · intro h
          obtain ⟨sigHex', heq, hform⟩ := h rfl
          cases heq
          exact hform

variable {R : Roots String} {s : ChainState String} {input : DispositionInput String}

theorem unlessContended_of_not {x : Result String} (h : ¬ Rust.contended s input = true) :
    s.unlessContended input.expectedChainVersion x = x := by
  unfold Rust.contended at h
  cases hexpected : input.expectedChainVersion with
  | none => rfl
  | some v =>
    rw [hexpected] at h
    exact if_neg (by simpa using h)

theorem unlessContended_of {x : Result String} (h : Rust.contended s input = true) :
    ∃ shown, s.unlessContended input.expectedChainVersion x
      = .rejected .commitContention shown := by
  unfold Rust.contended at h
  cases hexpected : input.expectedChainVersion with
  | none =>
    rw [hexpected] at h
    cases h
  | some v =>
    rw [hexpected] at h
    exact ⟨_, if_pos (by simpa using h)⟩

theorem unlessHeadMoved_of_not {x : Result String} (h : ¬ Rust.headMoved s input = true) :
    s.unlessHeadMoved input.attemptReceiptHash input.expectedDispositionHead x = x := by
  unfold Rust.headMoved at h
  cases hexpected : input.expectedDispositionHead with
  | none => rfl
  | some v =>
    rw [hexpected] at h
    exact if_neg (by simpa using h)

theorem unlessHeadMoved_of {x : Result String} (h : Rust.headMoved s input = true) :
    ∃ shown, s.unlessHeadMoved input.attemptReceiptHash input.expectedDispositionHead x
      = .rejected .dispositionHeadMismatch shown := by
  unfold Rust.headMoved at h
  cases hexpected : input.expectedDispositionHead with
  | none =>
    rw [hexpected] at h
    cases h
  | some v =>
    rw [hexpected] at h
    exact ⟨_, if_pos (by simpa using h)⟩

theorem commitDisposition_agree :
    Agree (Rust.commitDisposition R s input d) (commitDisposition R s input d) ↔
      input.expectedDispositionHead = s.dispositionHeadByReceipt input.attemptReceiptHash := by
  constructor
  · rintro ⟨-, -, hexpected, -⟩
    exact (Snapshot.dispositionHead.inj hexpected).1
  · exact fun h => ⟨rfl, rfl, congrArg (Snapshot.dispositionHead · s.version) h, rfl⟩

theorem guards_agree :
    Agree
        (if Rust.contended s input then .rejected .commitContention none
        else if Rust.headMoved s input then .rejected .dispositionHeadMismatch none
        else Rust.commitDisposition R s input d)
        (s.unlessHeadMoved input.attemptReceiptHash input.expectedDispositionHead
          (s.unlessContended input.expectedChainVersion (commitDisposition R s input d)))
      ↔ ¬ (Rust.headMoved s input = true ∧ Rust.contended s input = true)
        ∧ (¬ Rust.headMoved s input = true → ¬ Rust.contended s input = true →
            input.expectedDispositionHead
              = s.dispositionHeadByReceipt input.attemptReceiptHash) := by
  by_cases hmoved : Rust.headMoved s input = true
  · obtain ⟨shown, hshown⟩ := unlessHeadMoved_of
      (x := s.unlessContended input.expectedChainVersion (commitDisposition R s input d)) hmoved
    rw [hshown]
    by_cases hcontended : Rust.contended s input = true
    · rw [if_pos hcontended]
      exact iff_of_false nofun fun h => h.1 ⟨hmoved, hcontended⟩
    · rw [if_neg hcontended, if_pos hmoved]
      exact iff_of_true rfl ⟨fun h => hcontended h.2, fun h => absurd hmoved h⟩
  · rw [unlessHeadMoved_of_not hmoved]
    by_cases hcontended : Rust.contended s input = true
    · obtain ⟨shown, hshown⟩ := unlessContended_of (x := commitDisposition R s input d) hcontended
      rw [hshown, if_pos hcontended]
      exact iff_of_true rfl ⟨fun h => hmoved h.1, fun _ h => absurd hcontended h⟩
    · rw [unlessContended_of_not hcontended, if_neg hcontended, if_neg hmoved,
        commitDisposition_agree]
      constructor
      · exact fun h => ⟨fun h' => hmoved h'.1, fun _ _ => h⟩
      · exact fun h => h.2 hmoved hcontended

theorem applyVerified_agree_iff :
    Agree (Rust.applyVerified R s input d) (applyVerified R s input d) ↔
      (d.attemptReceiptHash = input.attemptReceiptHash →
        s.dispositionHeadByReceipt input.attemptReceiptHash = d.previousDispositionHash →
        AgreesOnStep s input d) := by
  unfold Rust.applyVerified applyVerified
  dsimp only
  by_cases hreceipt : d.attemptReceiptHash = input.attemptReceiptHash
  swap
  · rw [if_pos hreceipt, if_pos (Ne.symm hreceipt)]
    exact iff_of_true rfl fun h => absurd h hreceipt
  rw [if_neg (not_not.mpr hreceipt), if_neg (not_not.mpr hreceipt.symm)]
  by_cases hprevious : s.dispositionHeadByReceipt input.attemptReceiptHash
      = d.previousDispositionHash
  swap
  · rw [if_pos hprevious, if_pos hprevious]
    exact iff_of_true rfl fun _ h => absurd h hprevious
  rw [if_neg (not_not.mpr hprevious), if_neg (not_not.mpr hprevious)]
  have hstep : (d.attemptReceiptHash = input.attemptReceiptHash →
      s.dispositionHeadByReceipt input.attemptReceiptHash = d.previousDispositionHash →
      AgreesOnStep s input d) ↔ AgreesOnStep s input d :=
    ⟨fun h => h hreceipt hprevious, fun h _ _ => h⟩
  rw [hstep]
  by_cases hallowed : d.status ∈ (allowedDispositionTransitions
      (s.currentDispositionStatus input.attemptReceiptHash)).map some
  · rw [if_neg (not_not.mpr hallowed)]
    by_cases hrust : Rust.isAllowedTransition
        (s.currentDispositionStatus input.attemptReceiptHash) d.status = true
    · rw [if_neg (by simp [hrust]), guards_agree]
      constructor
      · exact fun h => ⟨iff_of_true hrust hallowed, fun _ => h.1, fun _ => h.2⟩
      · exact fun h => ⟨h.order hallowed, h.expected hallowed⟩
    · rw [if_pos (by simpa using hrust)]
      refine iff_of_false ?_ fun h => hrust (h.table.mpr hallowed)
      by_cases hmoved : Rust.headMoved s input = true
      · obtain ⟨shown, hshown⟩ := unlessHeadMoved_of
          (x := s.unlessContended input.expectedChainVersion (commitDisposition R s input d)) hmoved
        rw [hshown]
        exact nofun
      · rw [unlessHeadMoved_of_not hmoved]
        by_cases hcontended : Rust.contended s input = true
        · obtain ⟨shown, hshown⟩ :=
            unlessContended_of (x := commitDisposition R s input d) hcontended
          rw [hshown]
          exact nofun
        · rw [unlessContended_of_not hcontended]
          exact nofun
  · rw [if_pos hallowed]
    by_cases hrust : Rust.isAllowedTransition
        (s.currentDispositionStatus input.attemptReceiptHash) d.status = true
    · rw [if_neg (by simp [hrust])]
      refine iff_of_false ?_ fun h => hallowed (h.table.mp hrust)
      split_ifs
      · exact nofun
      · exact nofun
      · exact nofun
    · rw [if_pos (by simpa using hrust)]
      exact iff_of_true rfl ⟨iff_of_false hrust hallowed, fun h => absurd h hallowed,
        fun h => absurd h hallowed⟩

/-- **The two sides agree on a disposition exactly under its condition.** -/
theorem disposition_agree_iff (hauthority : s.dispositionAuthorityContext = none)
    (hsame : SameSignatures R.toCrypto D) (hattempt : input.attemptReceiptHash.isSome) :
    Agree (Rust.applyDisposition D R s input) (applyDisposition R s input) ↔
      AgreesOnDisposition R.toCrypto D s input := by
  obtain ⟨attempt, ha⟩ := Option.isSome_iff_exists.mp hattempt
  have hany : (input.attemptReceiptHash.any fun h => (s.attemptReceipts (some h)).isSome)
      = (s.attemptReceipts input.attemptReceiptHash).isSome := by
    rw [ha]
    rfl
  unfold Rust.applyDisposition applyDisposition AgreesOnDisposition
  rw [hany, hauthority]
  by_cases hstored : s.attemptReceipts input.attemptReceiptHash = none
  · rw [if_pos (by simp [hstored]), if_pos hstored]
    exact iff_of_true rfl fun h => absurd hstored h
  rw [if_neg (by simpa [← Option.isSome_iff_ne_none] using hstored), if_neg hstored]
  cases hhex : s.dispositionPublicHex with
  | none =>
    refine iff_of_true rfl fun _ publicHex h => ?_
    cases h
  | some publicHex =>
    dsimp only
    rw [if_neg (by simp)]
    have hcond : (s.attemptReceipts input.attemptReceiptHash ≠ none →
        ∀ publicHex', some publicHex = some publicHex' →
          ∃ d, input.dispositionArtifact = some d ∧ SameRefusal R.toCrypto D d publicHex'
            ∧ (verifyDisposition R.toCrypto d publicHex' = none →
                d.attemptReceiptHash = input.attemptReceiptHash →
                s.dispositionHeadByReceipt input.attemptReceiptHash = d.previousDispositionHash →
                AgreesOnStep s input d)) ↔
        ∃ d, input.dispositionArtifact = some d ∧ SameRefusal R.toCrypto D d publicHex
          ∧ (verifyDisposition R.toCrypto d publicHex = none →
              d.attemptReceiptHash = input.attemptReceiptHash →
              s.dispositionHeadByReceipt input.attemptReceiptHash = d.previousDispositionHash →
              AgreesOnStep s input d) := by
      constructor
      · exact fun h => h hstored publicHex rfl
      · rintro h - _ ⟨⟩
        exact h
    rw [hcond]
    cases hartifact : input.dispositionArtifact with
    | none =>
      refine iff_of_false nofun ?_
      rintro ⟨d, hd, -⟩
      cases hd
    | some d =>
      dsimp only
      have hd : (∃ d', some d = some d' ∧ SameRefusal R.toCrypto D d' publicHex
          ∧ (verifyDisposition R.toCrypto d' publicHex = none →
              d'.attemptReceiptHash = input.attemptReceiptHash →
              s.dispositionHeadByReceipt input.attemptReceiptHash = d'.previousDispositionHash →
              AgreesOnStep s input d')) ↔
          SameRefusal R.toCrypto D d publicHex
            ∧ (verifyDisposition R.toCrypto d publicHex = none →
                d.attemptReceiptHash = input.attemptReceiptHash →
                s.dispositionHeadByReceipt input.attemptReceiptHash = d.previousDispositionHash →
                AgreesOnStep s input d) := by simp
      have hverification : verification R s publicHex d
          = verifyDisposition R.toCrypto d publicHex := by
        rw [verification, hauthority]
      rw [hd, hverification]
      have hverify := verify_agree hsame d publicHex
      cases hclj : verifyDisposition R.toCrypto d publicHex with
      | none =>
        rw [hclj] at hverify
        rw [hverify.1]
        dsimp only
        rw [applyVerified_agree_iff]
        exact ⟨fun h => ⟨hverify.2, fun _ => h⟩, fun h => h.2 rfl⟩
      | some reason =>
        rw [hclj] at hverify
        dsimp only
        have hsome : (SameRefusal R.toCrypto D d publicHex ∧
            (some reason = none → d.attemptReceiptHash = input.attemptReceiptHash →
              s.dispositionHeadByReceipt input.attemptReceiptHash = d.previousDispositionHash →
              AgreesOnStep s input d)) ↔ SameRefusal R.toCrypto D d publicHex := by simp
        rw [hsome, ← hverify.2]
        cases hrust : Rust.verifyDispositionInternal D d publicHex with
        | ok => exact absurd hrust hverify.1
        | panicked => exact iff_of_false nofun nofun
        | refused reason' => simp [agree_rejected]

end

/-! ## runs -/

section
variable {R : Roots String}

theorem indexed_transition {s s' : ChainState String} {command : Command String}
    (h : Indexed s ∧ s.dispositionAuthorityContext = none)
    (hstep : transition R s command = .ok s') :
    Indexed s' ∧ s'.dispositionAuthorityContext = none := by
  obtain ⟨hindexed, hauthority⟩ := h
  obtain ⟨c, hc, rfl⟩ := transition_ok.mp hstep
  rcases applyAction_committed.mp hc with ⟨input, -, -, -, hcommit⟩ | ⟨input, _, _, -, -, hcommit⟩
  · cases hcommit
    refine ⟨fun key idem hidem => ?_, hauthority⟩
    dsimp only [ChainState.admitted] at hidem ⊢
    by_cases hcontent : idem.contentKey = input.contentKey
    · rw [hcontent, Function.update_self]
      exact Option.some_ne_none _
    · rw [Function.update_of_ne hcontent]
      by_cases hkey : key = input.idempotencyKey
      · rw [hkey, Function.update_self] at hidem
        cases hidem
        exact absurd rfl hcontent
      · rw [Function.update_of_ne hkey] at hidem
        exact hindexed key idem hidem
  · cases hcommit
    exact ⟨hindexed, hauthority⟩

theorem indexed_empty (familyId : String) (hex : Option String) :
    Indexed (emptyState familyId hex) := by
  intro key idem h
  simp [emptyState] at h

theorem indexed_run (familyId : String) (hex : Option String) (commands : List (Command String)) :
    Indexed (run (transition R) (emptyState familyId hex) commands)
      ∧ (run (transition R) (emptyState familyId hex) commands).dispositionAuthorityContext
        = none :=
  run_induction (fun _ _ _ => indexed_transition) ⟨indexed_empty familyId hex, rfl⟩ commands

end

/-- **The two transitions agree on a command exactly under its condition**, in every state that a
chain without an authority context reaches. -/
theorem rust_agrees_iff (R : Roots String) (D : Rust.Dalek) (hsame : SameSignatures R.toCrypto D)
    (familyId : String) (hex : Option String) (commands : List (Command String)) :
    let s := run (transition R) (emptyState familyId hex) commands
    (∀ input : AdmitInput String, input.sequence.isSome →
        (Agree (Rust.admitChild R s input) (admitChild R s input) ↔ AgreesOnAdmit s input))
      ∧ ∀ input : DispositionInput String, input.attemptReceiptHash.isSome →
        (Agree (Rust.applyDisposition D R s input) (applyDisposition R s input)
          ↔ AgreesOnDisposition R.toCrypto D s input) := by
  obtain ⟨hindexed, hauthority⟩ := indexed_run (R := R) familyId hex commands
  exact ⟨fun input hseq => admit_agree_iff R hindexed hseq,
    fun input hattempt => disposition_agree_iff hauthority hsame hattempt⟩

/-! ## a version that is stale -/

def sampleDalek : Rust.Dalek where
  hexToBytes s := some (List.replicate (if s = "key" then 32 else 64) 0)
  verifyingKey _ := true
  signatureFormat _ := true
  verify _ _ _ := true

/-- one hash for everything, and the signatures that `sampleDalek` accepts -/
def stringRoots : Roots String where
  hash d := d.body
  authoritativeHash d := d.body
  verifyBytes d sig hex := sig.any fun x => Rust.checkSignature sampleDalek d x hex = .ok
  inputRoot _ := "input"
  stateRoot _ := "state"
  effectsRoot _ := "effects"

theorem sample_same : SameSignatures stringRoots.toCrypto sampleDalek where
  same d sigHex publicHex := by simp [stringRoots]
  missing _ _ := rfl

def rejectedReceipt : Receipt String :=
  ⟨none, some .rejected, some .final, some .eligible, some .active⟩

def firstAttempt : AdmitInput String :=
  { parentReceiptHash := none
    candidateAttemptReceipt := some rejectedReceipt
    candidateAttemptReceiptId := some "r1"
    idempotencyKey := some "k1"
    contentKey := some "c1"
    sequence := some 1
    expectedChainVersion := none }

def staleAttempt : AdmitInput String :=
  { parentReceiptHash := some "r1"
    candidateAttemptReceipt := some rejectedReceipt
    candidateAttemptReceiptId := some "r2"
    idempotencyKey := some "k2"
    contentKey := some "c2"
    sequence := some 2
    expectedChainVersion := some 0 }

/-- the first receipt of a chain is committed alike by both sides -/
theorem rust_agrees_first :
    Agree (Rust.admitChild stringRoots (emptyState "f" (some "key")) firstAttempt)
      (admitChild stringRoots (emptyState "f" (some "key")) firstAttempt) := by
  refine ((rust_agrees_iff stringRoots sampleDalek sample_same "f" (some "key") []).1 firstAttempt
    rfl).mpr ⟨nofun, ?_, ?_⟩
  · exact fun _ _ => Option.some_ne_none _
  · refine fun _ => ⟨fun _ _ _ => ⟨rfl, ?_, ?_⟩, fun _ h => absurd rfl h⟩
    · exact Option.some_ne_none _
    · exact Option.some_ne_none _

/-- a receipt under the head that expects the version before it: the Clojure side refuses it for
contention and Rust commits it -/
theorem rust_commits_stale :
    ¬ Agree
      (Rust.admitChild stringRoots
        (run (transition stringRoots) (emptyState "f" (some "key")) [.admitChild firstAttempt])
        staleAttempt)
      (admitChild stringRoots
        (run (transition stringRoots) (emptyState "f" (some "key")) [.admitChild firstAttempt])
        staleAttempt) := by
  rw [admit_agree_iff _ (indexed_run _ _ _).1 rfl]
  intro h
  have hfresh : Fresh (run (transition stringRoots) (emptyState "f" (some "key"))
      [.admitChild firstAttempt]) staleAttempt := ⟨by decide, by decide⟩
  have hunder := ((h.fresh hfresh).under
    ⟨some rejectedReceipt, some 1, none⟩ (by decide) (by decide)).atHead (by decide)
  exact absurd (hunder.1.version 0 rfl) (by decide)

end PRF.Resubmission
