import ProtocolRobustness.Contract.Request

/-!
# Attestation quorums

`evidence/attestation_quorum.clj`, with `verify-attestation-integrity` of
`evidence/attestation_integrity.clj`.

* `verifyAttestationIntegrity`   the errors of an attestation, a map of any values;
* `checkAttestorActive`, `checkKeyAuthorized`, ...   the checks of one attestation, with its reason;
* `checkIndependence`   the pass that keeps one vote an attestor;
* `determineOutcome`, `verifyQuorum`   the outcome and the report.

`recordHash` hashes the body of an attestation, `policyHash` a policy and `reportHash` a report.
-/

namespace PRF.Evidence

/-! ## attestations -/

section
variable (a : Value)

def attestationId : Value := a.get (nsKey "attestation" "id")
def attestationHash : Value := a.get (nsKey "attestation" "hash")
def subjectHash : Value := a.get (nsKey "attestation" "subject-hash")
def subjectKind : Value := a.get (nsKey "attestation" "subject-kind")
def claimResult : Value := a.get (nsKey "attestation" "claim-result")
def claimId : Value := a.get (nsKey "attestation" "claim-id")
def attestorId : Value := a.get (nsKey "attestation" "attestor-id")
def signedAt : Value := a.get (nsKey "attestation" "signed-at")
def signingKeyId : Value := a.get (nsKey "attestation" "signing-key-id")

/-- what is hashed: without the id, the hash, the signature and the metadata -/
def body : Value :=
  match a with
  | .map es => .map (es.filter fun e => e.1 ∉ [nsKey "attestation" "id",
      nsKey "attestation" "hash", nsKey "attestation" "signature", nsKey "attestation" "metadata"])
  | v => v

end

/-! ## integrity -/

inductive IntegrityError
  /-- `Missing required field: ` and the field -/
  | missing (field : Key)
  /-- `:attestation/id must equal :attestation/hash, got ... vs ...` -/
  | idNotHash (id hash : Value)
  /-- `Invalid :attestation/subject-kind: ` and the kind -/
  | invalidSubjectKind (kind : Value)
  /-- `Invalid :attestation/claim-result: ` and the result -/
  | invalidClaimResult (result : Value)
  /-- the field and ` must not be empty` -/
  | empty (field : Key)
  /-- `Hash mismatch: recorded ... does not match recomputed hash` -/
  | hashMismatch (recorded : Value)
deriving DecidableEq

def supportedSubjectKinds : List Value := [(key "evidence-node").value, (key "claim").value]

def claimResults : List Value :=
  [(key "verified").value, (key "reproduced").value, (key "certified").value,
    (key "approved").value, (key "rejected").value]

def errorIf (c : Prop) [Decidable c] (e : IntegrityError) : List IntegrityError :=
  if c then [e] else []

def requiredFields : List Key :=
  [key "schema-version", nsKey "attestation" "id", nsKey "attestation" "hash",
    nsKey "attestation" "subject-hash", nsKey "attestation" "subject-kind",
    nsKey "attestation" "claim-result", nsKey "attestation" "attestor-id",
    nsKey "attestation" "signed-at"]

def attestationErrors (a : Value) : List IntegrityError :=
  requiredFields.flatMap (fun field => errorIf (¬ (a.get field).truthy) (.missing field)) ++
  errorIf ((attestationId a).truthy ∧ (attestationHash a).truthy ∧
      attestationId a ≠ attestationHash a) (.idNotHash (attestationId a) (attestationHash a)) ++
  errorIf ((subjectKind a).truthy ∧ subjectKind a ∉ supportedSubjectKinds)
    (.invalidSubjectKind (subjectKind a)) ++
  errorIf ((claimResult a).truthy ∧ claimResult a ∉ claimResults)
    (.invalidClaimResult (claimResult a)) ++
  errorIf (subjectHash a = .str "") (.empty (nsKey "attestation" "subject-hash")) ++
  errorIf (signedAt a = .str "") (.empty (nsKey "attestation" "signed-at"))

section
variable (recordHash : Value → Value)

/-- `none` without a recorded hash -/
def hashValid (a : Value) : Option Bool :=
  if (attestationHash a).truthy then some (decide (recordHash (body a) = attestationHash a))
  else none

/-- the errors; the attestation is valid when there are none -/
def verifyAttestationIntegrity (a : Value) : List IntegrityError :=
  attestationErrors a ++
    errorIf (hashValid recordHash a = some false) (.hashMismatch (attestationHash a))

end

/-! ## policies and registries -/

structure Scope where
  subjectKind : Value
  subjectHash : Value
  claimDefinitionHash : Value
deriving DecidableEq

structure Rule where
  k : Value
  n : Value
deriving DecidableEq

structure KOfN where
  k : ℤ
  n : ℤ
deriving DecidableEq

structure Policy where
  scope : Scope
  rule : Rule
  /-- `:distinct-attestor-id?` of the independence rules, `none` where it is not a key -/
  distinctAttestorId : Option Value
deriving DecidableEq

structure KeyEntry where
  keyId : Value
  status : Value
deriving DecidableEq

structure Attestor where
  id : Value
  status : Value
  keyHistory : List KeyEntry
deriving DecidableEq

/-- `(pos-int? v)` -/
def posInt? : Value → Option ℤ
  | .int n => if 0 < n ∧ n < 2 ^ 63 then some n else none
  | _ => none

def parseKOfN (rule : Rule) : Option KOfN := do
  let k ← posInt? rule.k
  let n ← posInt? rule.n
  pure ⟨k, n⟩

def Policy.distinctAttestor (policy : Policy) : Bool :=
  (policy.distinctAttestorId.getD (.bool true)).truthy

/-! ## checks of one attestation -/

inductive Reason
  | integrityInvalid
  | attestorNotInRegistry
  | attestorNotActive
  | keyNotAuthorized
  | subjectMismatch
  | claimMismatch
  | conflictingResult
  | duplicateAttestor
deriving DecidableEq

def scopeMatches (a : Value) (scope : Scope) : Bool :=
  scope.subjectKind = subjectKind a && scope.subjectHash = subjectHash a &&
    (scope.claimDefinitionHash = .null || scope.claimDefinitionHash = claimId a)

section
variable (recordHash : Value → Value) (registry : List Attestor) (scope : Scope) (a : Value)

def entryOf (attestorId : Value) : Option Attestor := registry.find? fun e => e.id = attestorId

/-- `none` is eligible -/
def checkIntegrity : Option Reason :=
  if verifyAttestationIntegrity recordHash a = [] then none else some .integrityInvalid

def checkAttestorActive : Option Reason :=
  match entryOf registry (attestorId a) with
  | none => some .attestorNotInRegistry
  | some entry => if entry.status ≠ (key "active").value then some .attestorNotActive else none

def checkKeyAuthorized : Option Reason :=
  if signingKeyId a = .null then none
  else
    let keyHistory := ((entryOf registry (attestorId a)).map (·.keyHistory)).getD []
    let authorized := keyHistory.any fun kh =>
      kh.keyId = signingKeyId a && kh.status = (key "active").value
    if authorized then none else some .keyNotAuthorized

def checkSubjectMatches : Option Reason :=
  if scopeMatches a scope then none else some .subjectMismatch

def checkClaimMatches : Option Reason :=
  if scope.claimDefinitionHash = .null then none
  else if scope.claimDefinitionHash = claimId a then none else some .claimMismatch

/-- why an attestation in scope is not eligible, in the order of the checks -/
def reasons : List Reason :=
  [checkIntegrity recordHash a, checkAttestorActive registry a, checkKeyAuthorized registry a,
    checkSubjectMatches scope a, checkClaimMatches scope a].filterMap fun r => r

end

/-! ## independence -/

structure Excluded where
  attestationHash : Value
  reason : Reason
deriving DecidableEq

/-- a `:same-attestor-duplicate-vote` -/
structure Conflict where
  attestorId : Value
  attestations : Value × Value
deriving DecidableEq

structure Independence where
  seen : List Value
  eligible : List Value
  excluded : List Excluded
  conflicts : List Conflict

/-- the first conflict turns the vector into a sequence, which grows at its front -/
def conj (s : Independence) (a : Value) : List Value :=
  if s.conflicts = [] then s.eligible ++ [a] else a :: s.eligible

def independenceTurn (distinctAttestor : Bool) (s : Independence) (a : Value) : Independence :=
  if distinctAttestor && attestorId a ∈ s.seen then
    let existingEligible := s.eligible.filter fun e => attestorId e = attestorId a
    let existingResult := (existingEligible.head?.map claimResult).getD .null
    if existingResult.truthy && existingResult ≠ claimResult a then
      { s with
        eligible := s.eligible.filter fun e => attestorId e ≠ attestorId a
        excluded := s.excluded ++ [⟨attestationId a, .conflictingResult⟩]
        conflicts := s.conflicts ++ [⟨attestorId a,
          (existingEligible.head?.map attestationHash).getD .null, attestationId a⟩] }
    else { s with excluded := s.excluded ++ [⟨attestationId a, .duplicateAttestor⟩] }
  else { s with seen := attestorId a :: s.seen, eligible := conj s a }

def checkIndependence (attestations : List Value) (policy : Policy) : Independence :=
  attestations.foldl (independenceTurn policy.distinctAttestor) ⟨[], [], [], []⟩

/-! ## outcome -/

inductive QuorumOutcome
  | confirmed
  | rejected
  | conflicted
  | insufficientQuorum
  | invalidInput
deriving DecidableEq

structure OutcomeInfo where
  outcome : QuorumOutcome
  passCount : ℤ
  failCount : ℤ
  otherCount : ℤ
  k : ℤ
deriving DecidableEq

def determineOutcome (eligible : List Value) (conflicts : List Conflict) (rule : KOfN) :
    OutcomeInfo :=
  let k := rule.k
  let passCount : ℤ := eligible.countP fun a => claimResult a = (key "verified").value
  let failCount : ℤ := eligible.countP fun a => claimResult a = (key "rejected").value
  let otherCount := eligible.length - passCount - failCount
  if conflicts ≠ [] then ⟨.conflicted, passCount, failCount, otherCount, k⟩
  else if k ≤ passCount then ⟨.confirmed, passCount, failCount, otherCount, k⟩
  else if k ≤ failCount then ⟨.rejected, passCount, failCount, otherCount, k⟩
  else if eligible.length = 0 then ⟨.invalidInput, 0, 0, 0, k⟩
  else ⟨.insufficientQuorum, passCount, failCount, otherCount, k⟩

/-! ## the report -/

structure Counts where
  submitted : ℤ
  eligible : ℤ
  excluded : ℤ
  pass : ℤ
  fail : ℤ
  inconclusive : ℤ
deriving DecidableEq

structure EligibleAttestor where
  attestorId : Value
  attestationHash : Value
  claimResult : Value
deriving DecidableEq

structure Report where
  policyHash : String
  scope : Scope
  outcome : QuorumOutcome
  counts : Counts
  eligibleAttestors : List EligibleAttestor
  excludedAttestations : List Excluded
  conflicts : List Conflict
deriving DecidableEq

def reportVersion : String := "attestation-quorum-report.v1"

inductive QuorumError
  | invalidKOfNRule (rule : Rule)
deriving DecidableEq

section
variable (recordHash : Value → Value) (policyHash : Policy → String)
  (reportHash : String → Report → String)

/-- the report and its hash -/
def verifyQuorum (policy : Policy) (attestations : List Value) (registry : List Attestor) :
    Except QuorumError (Report × String) :=
  match parseKOfN policy.rule with
  | none => .error (.invalidKOfNRule policy.rule)
  | some kOfN =>
    let scope := policy.scope
    let scopeMatched := attestations.filter fun a => scopeMatches a scope
    let scopeMismatched := attestations.filter fun a => ¬ scopeMatches a scope
    let scopeExcluded := scopeMismatched.map fun a => ⟨attestationId a, .subjectMismatch⟩
    let checked := scopeMatched.map fun a => (a, reasons recordHash registry scope a)
    let passed := (checked.filter fun c => c.2 = []).map Prod.fst
    let ineligible : List Excluded := checked.filterMap fun c =>
      c.2.head?.map fun reason => ⟨attestationId c.1, reason⟩
    let independence := checkIndependence passed policy
    let eligible := independence.eligible
    let info := determineOutcome eligible independence.conflicts kOfN
    let report : Report :=
      { policyHash := policyHash policy
        scope := scope
        outcome := info.outcome
        counts :=
          { submitted := attestations.length
            eligible := eligible.length
            excluded := ineligible.length + independence.excluded.length + scopeExcluded.length
            pass := info.passCount
            fail := info.failCount
            inconclusive := info.otherCount }
        eligibleAttestors := eligible.map fun a => ⟨attestorId a, attestationId a, claimResult a⟩
        excludedAttestations := ineligible ++ independence.excluded ++ scopeExcluded
        conflicts := independence.conflicts }
    .ok (report, reportHash reportVersion report)

end

end PRF.Evidence
