import ProtocolRobustness.Resubmission.Offline

/-!
# Authoritative dispositions, and the version a command expects

* `Authorized`, `Due`   an authoritative disposition that the authority context accepts, and one that
                        the chain has to apply;
* `Guarded`             what is due is committed and nothing else is, and a version that a command
                        expects is the current one;
* `guarded_iff`         the commands for which that is so.
-/

namespace PRF.Resubmission

section
variable {ι : Type*}

def Command.expectedChainVersion : Command ι → Option ℤ
  | .admitChild input => input.expectedChainVersion
  | .applyDisposition input => input.expectedChainVersion
  | .applyAuthoritativeDisposition input => input.expectedChainVersion
  | .unknown => none

variable [DecidableEq ι] (R : Roots ι) (s : ChainState ι)

def Commits (command : Command ι) : Prop := ∃ c, applyAction R s command = .committed c

/-- the context of the chain is well formed, has the key of the chain and permits dispositions, and
the artifact is valid under that key -/
structure Authorized (artifact : Disposition ι) (key : ι) : Prop where
  context : ∃ authority, s.dispositionAuthorityContext = some authority
    ∧ authority.contextSchema = some authorityContextSchema
    ∧ applyDispositionAction ∈ authority.permittedActions
    ∧ authority.publicKey = some key
  configured : s.dispositionPublicHex = some key
  accepted : verifyAuthoritativeDisposition R.toCrypto artifact (some key) = none

/-- the artifact names a committed attempt, continues its dispositions by an allowed status, and
what the input expects is so -/
structure Due (input : DispositionInput ι) (artifact : Disposition ι) : Prop where
  stored : s.attemptReceipts artifact.attemptReceiptHash ≠ none
  previous : s.dispositionHeadByReceipt artifact.attemptReceiptHash
    = artifact.previousDispositionHash
  allowed : artifact.status
    ∈ (allowedDispositionTransitions
        (s.currentDispositionStatus artifact.attemptReceiptHash)).map some
  expectedHead : ∀ h, input.expectedDispositionHead = some h →
    some h = s.dispositionHeadByReceipt artifact.attemptReceiptHash
  version : ∀ v, input.expectedChainVersion = some v → v = s.version

structure Guarded (command : Command ι) : Prop where
  authoritative : ∀ input artifact key, command = .applyAuthoritativeDisposition input →
    input.dispositionArtifact = some artifact → Authorized R s artifact key →
    (Commits R s command ↔ Due s input artifact)
  current : ∀ v, command.expectedChainVersion = some v → v ≠ s.version → ¬ Commits R s command

variable {R s}

theorem authoritative_not_commits (input : DispositionInput ι) :
    ¬ Commits R s (.applyAuthoritativeDisposition input) := by
  rintro ⟨c, hc⟩
  exact applyAuthoritativeDisposition_rejected hc

theorem admits_iff (input : AdmitInput ι) :
    Commits R s (.admitChild input) ↔
      Fresh s input ∧ (AdmittedFirst s input ∨ ∃ parentEntry, AdmittedUnder s input parentEntry) := by
  constructor
  · rintro ⟨c, hc⟩
    obtain ⟨hfresh, hguards, -⟩ := (admitChild_committed R).mp hc
    exact ⟨hfresh, hguards⟩
  · rintro ⟨hfresh, hguards⟩
    exact ⟨_, (admitChild_committed R).mpr ⟨hfresh, hguards, rfl⟩⟩

/-- the version that an admission or a disposition expects is read, but for a first receipt -/
theorem current_of_commits {command : Command ι} {v : ℤ}
    (hfirst : ∀ input, command = .admitChild input → Fresh s input → AdmittedFirst s input →
      ∀ v, input.expectedChainVersion = some v → v = s.version)
    (hv : command.expectedChainVersion = some v) (hcommits : Commits R s command) :
    v = s.version := by
  cases command with
  | admitChild input =>
    obtain ⟨hfresh, hadmitted | ⟨parentEntry, hunder⟩⟩ := (admits_iff input).mp hcommits
    · exact hfirst input rfl hfresh hadmitted v hv
    · exact hunder.version v hv
  | applyDisposition input =>
    obtain ⟨c, hc⟩ := hcommits
    obtain ⟨publicHex, artifact, hguards, -⟩ := applyDisposition_committed.mp hc
    exact hguards.version v hv
  | applyAuthoritativeDisposition input => exact absurd hcommits (authoritative_not_commits input)
  | unknown => cases hv

/-- **A command meets its guards exactly when it is no authoritative disposition that is due, and no
first receipt that expects another version.** -/
theorem guarded_iff (R : Roots ι) (s : ChainState ι) (command : Command ι) :
    Guarded R s command ↔
      (∀ input artifact key, command = .applyAuthoritativeDisposition input →
        input.dispositionArtifact = some artifact → Authorized R s artifact key →
        ¬ Due s input artifact)
      ∧ ∀ input, command = .admitChild input → Fresh s input → AdmittedFirst s input →
        ∀ v, input.expectedChainVersion = some v → v = s.version := by
  constructor
  · intro h
    constructor
    · intro input artifact key hcommand hartifact hauthorized hdue
      have hcommits := (h.authoritative input artifact key hcommand hartifact hauthorized).mpr hdue
      rw [hcommand] at hcommits
      exact authoritative_not_commits input hcommits
    · intro input hcommand hfresh hfirst v hv
      by_contra hstale
      have hno := h.current v (by rw [hcommand]; exact hv) hstale
      rw [hcommand] at hno
      exact hno ((admits_iff input).mpr ⟨hfresh, Or.inl hfirst⟩)
  · rintro ⟨hdue, hfirst⟩
    refine ⟨?_, fun v hv hstale hcommits => hstale (current_of_commits hfirst hv hcommits)⟩
    intro input artifact key hcommand hartifact hauthorized
    refine iff_of_false ?_ (hdue input artifact key hcommand hartifact hauthorized)
    rw [hcommand]
    exact authoritative_not_commits input

end

/-! ## a disposition that is due -/

def sampleAuthority : AuthorityContext ℕ :=
  ⟨some authorityContextSchema, [applyDispositionAction], some 7⟩

/-- a chain of one receipt, with an authority context -/
def authoritativeChain : ChainState ℕ :=
  { oneReceipt with dispositionAuthorityContext := some sampleAuthority }

def authoritativeDisposition : Disposition ℕ :=
  { signedDisposition .final none with
    schema := some authoritativeDispositionSchema
    action := some authoritativeAction }

theorem authoritative_due_refused : ¬ ∀ s command, Guarded sampleRoots s command := by
  intro h
  let input : DispositionInput ℕ := ⟨none, some authoritativeDisposition, none, some 1⟩
  have hguarded := h authoritativeChain (.applyAuthoritativeDisposition input)
  have hauthorized : Authorized sampleRoots authoritativeChain authoritativeDisposition 7 :=
    ⟨⟨sampleAuthority, rfl, rfl, by decide, rfl⟩, rfl, by decide⟩
  have hdue : Due authoritativeChain input authoritativeDisposition :=
    ⟨nofun, rfl, by decide, nofun, by rintro v ⟨⟩; rfl⟩
  exact authoritative_not_commits input
    ((hguarded.authoritative input authoritativeDisposition 7 rfl rfl hauthorized).mpr hdue)

end PRF.Resubmission
