import ProtocolRobustness.Evidence.Quorum
import ProtocolRobustness.Library.Ballot

/-!
# One vote an attestor

The pass of `checkIndependence` keeps a roll: one attestation of each attestor whose eligible
attestations agree.  Who is on it does not depend on the order, and neither do the outcome and the
counts.  An attestation that is taken off the roll by a later one is noted nowhere, so it is neither
eligible nor excluded.

* `Eligible`            what passes every check of its own;
* `passed_checkIndependence`   the roll, the conflicts and the attestations that are unaccounted for;
* `Fair`                what a quorum promises;
* `verifyQuorum_fair_iff`   a report is fair iff no attestor has two eligible results.
-/

namespace PRF.Evidence
open Ballot

section
variable (recordHash : Value → Value)

/-- in scope, and no check objects -/
def Eligible (registry : List Attestor) (scope : Scope) (a : Value) : Prop :=
  scopeMatches a scope ∧ reasons recordHash registry scope a = []

instance (registry : List Attestor) (scope : Scope) (a : Value) :
    Decidable (Eligible recordHash registry scope a) :=
  inferInstanceAs (Decidable (_ ∧ _))

variable {recordHash} {registry : List Attestor} {scope : Scope} {a : Value}

theorem Eligible.integrity (h : Eligible recordHash registry scope a) :
    verifyAttestationIntegrity recordHash a = [] := by
  have hreasons := h.2
  simp only [reasons, List.filterMap_cons, checkIntegrity] at hreasons
  by_contra hno
  simp [hno] at hreasons

theorem truthy_of_integrity (h : verifyAttestationIntegrity recordHash a = []) {field : Key}
    (hfield : field ∈ requiredFields) : (a.get field).truthy := by
  simp only [verifyAttestationIntegrity, attestationErrors, List.append_eq_nil_iff,
    List.flatMap_eq_nil_iff] at h
  have hno := h.1.1.1.1.1.1 field hfield
  by_contra hfalsy
  simp [errorIf, hfalsy] at hno

theorem Eligible.active (h : Eligible recordHash registry scope a) :
    ∃ entry, entryOf registry (attestorId a) = some entry ∧ entry.status = (key "active").value := by
  have hreasons := h.2
  have hactive : checkAttestorActive registry a = none := by
    by_contra hno
    obtain ⟨reason, hreason⟩ := Option.ne_none_iff_exists'.mp hno
    have hmem : reason ∈ reasons recordHash registry scope a := by
      simp [reasons, hreason]
    rw [hreasons] at hmem
    cases hmem
  unfold checkAttestorActive at hactive
  split at hactive
  · cases hactive
  · next entry hentry =>
    refine ⟨entry, hentry, ?_⟩
    by_contra hno
    simp [hno] at hactive

/-! ## the pass -/

/-- what the pass has made of some attestations -/
structure Passed (attestations : List Value) (s : Independence) : Prop where
  roll : Roll attestorId claimResult attestations s.eligible
  seen : ∀ i, i ∈ s.seen ↔ i ∈ attestations.map attestorId
  conflicts : s.conflicts = [] ↔
    ∀ i ∈ attestations.map attestorId, i ∈ s.eligible.map attestorId
  length : attestations.length
    = s.eligible.length + s.excluded.length + s.conflicts.length

theorem conj_perm (s : Independence) (a : Value) : (s.eligible ++ [a]).Perm (conj s a) := by
  unfold conj
  split
  · exact .refl _
  · exact List.perm_append_singleton a s.eligible

theorem passed_turn {attestations : List Value} {s : Independence} (h : Passed attestations s)
    (htruthy : ∀ b ∈ attestations, (claimResult b).truthy) (a : Value) :
    Passed (attestations ++ [a]) (independenceTurn true s a) := by
  unfold independenceTurn
  by_cases hseen : attestorId a ∈ s.seen
  · have hcast := (h.seen _).mp hseen
    have hids : ∀ i, i ∈ (attestations ++ [a]).map attestorId ↔ i ∈ attestations.map attestorId := by
      intro i
      simp only [List.map_append, List.map_singleton, List.mem_append, List.mem_singleton]
      exact or_iff_left_of_imp fun hi => hi ▸ hcast
    simp only [hseen, decide_true, Bool.and_self, if_true]
    cases hhead : (s.eligible.filter fun e => attestorId e = attestorId a).head? with
    | none =>
      -- his votes have been at odds before: he is not on the roll
      have hout : attestorId a ∉ s.eligible.map attestorId := by
        intro hmem
        obtain ⟨b, hb, hba⟩ := List.mem_map.mp hmem
        rw [List.head?_eq_none_iff, List.filter_eq_nil_iff] at hhead
        exact hhead b hb (by simpa using hba)
      simp only [Option.map_none, Option.getD_none, Value.truthy, Bool.false_and, if_false,
        Bool.false_eq_true]
      refine ⟨h.roll.out hcast hout, fun i => (h.seen i).trans (hids i).symm, ?_, ?_⟩
      · simp only [hids]
        exact h.conflicts
      · simp [h.length]
        omega
    | some b =>
      obtain ⟨hb, hba⟩ := List.mem_filter.mp (List.mem_of_mem_head? hhead)
      have hvoter : attestorId a = attestorId b := by simpa using (of_decide_eq_true hba).symm
      have hresult : (claimResult b).truthy := htruthy b (h.roll.cast b hb)
      simp only [Option.map_some, Option.getD_some, hresult, Bool.true_and, ne_eq, decide_not,
        Bool.not_eq_eq_eq_not, Bool.not_true, decide_eq_false_iff_not]
      by_cases hsame : claimResult b = claimResult a
      · simp only [hsame, not_true_eq_false, if_false]
        refine ⟨h.roll.again hb hvoter hsame.symm, fun i => (h.seen i).trans (hids i).symm, ?_, ?_⟩
        · simp only [hids]
          exact h.conflicts
        · simp [h.length]
          omega
      · simp only [hsame, not_false_eq_true, if_true]
        have hroll := h.roll.conflict hb hvoter (Ne.symm hsame)
        have hfewer := h.roll.length_without hb
        simp only [← hvoter, ne_eq, decide_not] at hroll hfewer
        refine ⟨hroll, fun i => (h.seen i).trans (hids i).symm, ?_, ?_⟩
        · refine iff_of_false (by simp) fun hall => ?_
          have hon := hall (attestorId a) (by simp)
          simp only [List.mem_map, List.mem_filter, Bool.not_eq_eq_eq_not, Bool.not_true,
            decide_eq_false_iff_not] at hon
          obtain ⟨c, ⟨-, hne⟩, heq⟩ := hon
          exact hne heq
        · simp only [List.length_append, List.length_singleton, h.length]
          omega
  · have hnew : attestorId a ∉ attestations.map attestorId := fun hmem =>
      hseen ((h.seen _).mpr hmem)
    simp only [hseen, decide_false, Bool.and_false, if_false, Bool.false_eq_true]
    have hperm := conj_perm s a
    refine ⟨(h.roll.first hnew).of_perm hperm, fun i => ?_, ?_, ?_⟩
    · simp [h.seen i, or_comm]
    · rw [h.conflicts]
      simp only [← (hperm.map attestorId).mem_iff, List.map_append, List.map_singleton,
        List.mem_append, List.mem_singleton]
      constructor
      · rintro hall i (hi | hi)
        · exact Or.inl (hall i hi)
        · exact Or.inr hi
      · intro hall i hi
        refine (hall i (Or.inl hi)).resolve_right ?_
        rintro rfl
        exact hnew hi
    · simp only [← hperm.length_eq, List.length_append, List.length_singleton, h.length]
      omega

theorem passed_checkIndependence {policy : Policy} (hdistinct : policy.distinctAttestor)
    {attestations : List Value} (htruthy : ∀ b ∈ attestations, (claimResult b).truthy) :
    Passed attestations (checkIndependence attestations policy) := by
  unfold checkIndependence
  rw [hdistinct]
  induction attestations using List.reverseRecOn with
  | nil => exact ⟨roll_nil, by simp, by simp, rfl⟩
  | append_singleton attestations a ih =>
    rw [List.foldl_append]
    have hbefore : ∀ b ∈ attestations, (claimResult b).truthy := fun b hb => htruthy b (by simp [hb])
    exact passed_turn (ih hbefore) hbefore a

/-! ## the report -/

section
variable (recordHash : Value → Value) (policyHash : Policy → String)
  (reportHash : String → Report → String)

def eligibleOf (policy : Policy) (attestations : List Value) (registry : List Attestor) :
    List Value :=
  attestations.filter fun a => Eligible recordHash registry policy.scope a

variable {recordHash policyHash reportHash} {policy : Policy} {attestations : List Value}
  {registry : List Attestor}

theorem passed_eq (scope : Scope) (attestations : List Value) :
    ((((attestations.filter fun a => scopeMatches a scope).map fun a =>
      (a, reasons recordHash registry scope a)).filter fun c => c.2 = []).map Prod.fst)
      = attestations.filter fun a => Eligible recordHash registry scope a := by
  induction attestations with
  | nil => rfl
  | cons a attestations ih =>
    by_cases hscope : scopeMatches a scope
    · by_cases hreasons : reasons recordHash registry scope a = []
      · simpa [hscope, hreasons, Eligible] using ih
      · simpa [hscope, hreasons, Eligible] using ih
    · simpa [hscope, Eligible] using ih

variable (recordHash registry) in
theorem length_ineligible (scope : Scope) (attestations : List Value) :
    (attestations.filter fun a => Eligible recordHash registry scope a).length
      + (((attestations.filter fun a => scopeMatches a scope).map fun a =>
        (a, reasons recordHash registry scope a)).filterMap fun c =>
          c.2.head?.map fun reason => (⟨attestationId c.1, reason⟩ : Excluded)).length
      + ((attestations.filter fun a => ¬ scopeMatches a scope).map fun a =>
        (⟨attestationId a, .subjectMismatch⟩ : Excluded)).length = attestations.length := by
  induction attestations with
  | nil => rfl
  | cons a attestations ih =>
    by_cases hscope : scopeMatches a scope
    · cases hreasons : reasons recordHash registry scope a with
      | nil =>
        simp [hscope, hreasons, Eligible, List.filterMap_cons] at ih ⊢
        omega
      | cons reason rest =>
        simp [hscope, hreasons, Eligible] at ih ⊢
        omega
    · simp [hscope, Eligible] at ih ⊢
      omega

theorem verifyQuorum_ok {report : Report} {digest : String}
    (h : verifyQuorum recordHash policyHash reportHash policy attestations registry
      = .ok (report, digest)) :
    ∃ kOfN s, parseKOfN policy.rule = some kOfN ∧
      s = checkIndependence (eligibleOf recordHash policy attestations registry) policy ∧
      report.outcome = (determineOutcome s.eligible s.conflicts kOfN).outcome ∧
      report.counts.pass = (determineOutcome s.eligible s.conflicts kOfN).passCount ∧
      report.counts.fail = (determineOutcome s.eligible s.conflicts kOfN).failCount ∧
      report.counts.inconclusive = (determineOutcome s.eligible s.conflicts kOfN).otherCount ∧
      report.counts.eligible = s.eligible.length ∧
      report.counts.submitted = attestations.length ∧
      report.counts.submitted + s.excluded.length
        = report.counts.excluded + (eligibleOf recordHash policy attestations registry).length ∧
      report.eligibleAttestors
        = s.eligible.map fun a => ⟨attestorId a, attestationId a, claimResult a⟩ := by
  unfold verifyQuorum at h
  cases hrule : parseKOfN policy.rule with
  | none =>
    rw [hrule] at h
    cases h
  | some kOfN =>
    rw [hrule] at h
    obtain ⟨rfl, rfl⟩ := Prod.mk.inj (Except.ok.inj h)
    have hlength := length_ineligible recordHash registry policy.scope attestations
    refine ⟨kOfN, _, rfl, rfl, ?_⟩
    simp only [passed_eq, eligibleOf, true_and, and_true]
    push_cast [← hlength]
    omega

theorem determineOutcome_congr {eligible eligible' : List Value} {conflicts conflicts' : List Conflict}
    (hperm : (eligible.map fun a => (attestorId a, claimResult a)).Perm
      (eligible'.map fun a => (attestorId a, claimResult a)))
    (hconflicts : conflicts = [] ↔ conflicts' = []) (kOfN : KOfN) :
    determineOutcome eligible conflicts kOfN = determineOutcome eligible' conflicts' kOfN := by
  have hcount : ∀ result, (eligible.countP fun a => claimResult a = result)
      = eligible'.countP fun a => claimResult a = result := by
    intro result
    have h := hperm.countP_eq fun p => decide (p.2 = result)
    rw [List.countP_map, List.countP_map] at h
    exact h
  have hlength : eligible.length = eligible'.length := by simpa using hperm.length_eq
  unfold determineOutcome
  simp only [hcount, hlength, ne_eq, hconflicts]

/-- what two reports on one set of attestations have in common -/
structure SameQuorum (report report' : Report) : Prop where
  outcome : report.outcome = report'.outcome
  eligible : report.counts.eligible = report'.counts.eligible
  pass : report.counts.pass = report'.counts.pass
  fail : report.counts.fail = report'.counts.fail
  inconclusive : report.counts.inconclusive = report'.counts.inconclusive
  attestors : ∀ i, i ∈ report.eligibleAttestors.map (·.attestorId)
    ↔ i ∈ report'.eligibleAttestors.map (·.attestorId)

variable (recordHash policyHash reportHash policy attestations registry) in
/-- what a quorum promises: the same quorum in whatever order and however often the attestations come,
a confirmation by enough active attestors none of which is at odds with itself, no vote for an attestor
that is, and a place in the counts for every attestation -/
structure Fair (report : Report) : Prop where
  orderFree : ∀ others : List Value, (∀ a, a ∈ others ↔ a ∈ attestations) →
    ∃ report' digest, verifyQuorum recordHash policyHash reportHash policy others registry
      = .ok (report', digest) ∧ SameQuorum report report'
  enough : report.outcome = .confirmed → ∃ kOfN, parseKOfN policy.rule = some kOfN ∧
    ∃ voters : List Value, voters.Nodup ∧ kOfN.k ≤ voters.length ∧ ∀ i ∈ voters,
      (∃ entry, entryOf registry i = some entry ∧ entry.status = (key "active").value) ∧
      ∃ a ∈ attestations, Eligible recordHash registry policy.scope a ∧ attestorId a = i ∧
        claimResult a = (key "verified").value
  agreed : report.outcome = .confirmed → ∀ a ∈ attestations, ∀ b ∈ attestations,
    Eligible recordHash registry policy.scope a → Eligible recordHash registry policy.scope b →
      attestorId a = attestorId b → claimResult a = claimResult b
  notCounted : ∀ a ∈ attestations, ∀ b ∈ attestations,
    Eligible recordHash registry policy.scope a → Eligible recordHash registry policy.scope b →
      attestorId a = attestorId b → claimResult a ≠ claimResult b →
        attestorId a ∉ report.eligibleAttestors.map (·.attestorId)
  accounted : report.counts.submitted = report.counts.eligible + report.counts.excluded

theorem mem_eligibleOf {a : Value} : a ∈ eligibleOf recordHash policy attestations registry ↔
    a ∈ attestations ∧ Eligible recordHash registry policy.scope a := by
  simp [eligibleOf]

variable (recordHash registry) in
theorem passed_eligibleOf (attestations : List Value) (hdistinct : policy.distinctAttestor) :
    Passed (eligibleOf recordHash policy attestations registry)
      (checkIndependence (eligibleOf recordHash policy attestations registry) policy) := by
  refine passed_checkIndependence hdistinct fun a ha => ?_
  exact truthy_of_integrity (mem_eligibleOf.mp ha).2.integrity (by decide +kernel)

theorem noConflict_iff {s : Independence} {votes : List Value} (h : Passed votes s) :
    s.conflicts = [] ↔ ∀ a ∈ votes, ∀ b ∈ votes, attestorId a = attestorId b →
      claimResult a = claimResult b := by
  rw [h.conflicts]
  constructor
  · intro hall a ha b hb hab
    have hone := ((h.roll.mem_iff _).mp (hall _ (List.mem_map_of_mem ha))).2
    exact hone a ha b hb rfl hab.symm
  · intro hall i hi
    refine (h.roll.mem_iff i).mpr ⟨hi, fun a ha b hb hai hbi => ?_⟩
    exact hall a ha b hb (hai.trans hbi.symm)

theorem sameQuorum_of_members (hdistinct : policy.distinctAttestor) {report : Report}
    {digest : String} (h : verifyQuorum recordHash policyHash reportHash policy attestations registry
      = .ok (report, digest)) {others : List Value} (hsame : ∀ a, a ∈ others ↔ a ∈ attestations) :
    ∃ report' digest', verifyQuorum recordHash policyHash reportHash policy others registry
      = .ok (report', digest') ∧ SameQuorum report report' := by
  obtain ⟨kOfN, s, hrule, hs, houtcome, hpass, hfail, hother, heligible, -, -, hids⟩ :=
    verifyQuorum_ok h
  have hok : ∃ report' digest', verifyQuorum recordHash policyHash reportHash policy others registry
      = .ok (report', digest') := by
    unfold verifyQuorum
    rw [hrule]
    exact ⟨_, _, rfl⟩
  obtain ⟨report', digest', h'⟩ := hok
  refine ⟨report', digest', h', ?_⟩
  obtain ⟨kOfN', s', hrule', hs', houtcome', hpass', hfail', hother', heligible', -, -, hids'⟩ :=
    verifyQuorum_ok h'
  obtain rfl : kOfN = kOfN' := Option.some.inj (hrule.symm.trans hrule')
  have hmembers : ∀ a, a ∈ eligibleOf recordHash policy attestations registry
      ↔ a ∈ eligibleOf recordHash policy others registry := by
    intro a
    rw [mem_eligibleOf, mem_eligibleOf, hsame a]
  have hpassed := passed_eligibleOf recordHash registry attestations hdistinct
  have hpassed' := passed_eligibleOf recordHash registry others hdistinct
  rw [← hs] at hpassed
  rw [← hs'] at hpassed'
  have hperm := hpassed.roll.perm hpassed'.roll hmembers
  have hconflicts : s.conflicts = [] ↔ s'.conflicts = [] := by
    rw [noConflict_iff hpassed, noConflict_iff hpassed']
    simp only [hmembers]
  have hinfo := determineOutcome_congr hperm hconflicts kOfN
  refine ⟨?_, ?_, ?_, ?_, ?_, fun i => ?_⟩
  · rw [houtcome, houtcome', hinfo]
  · rw [heligible, heligible', ← List.length_map, hperm.length_eq, List.length_map]
  · rw [hpass, hpass', hinfo]
  · rw [hfail, hfail', hinfo]
  · rw [hother, hother', hinfo]
  · have hmem := (hperm.map Prod.fst).mem_iff (a := i)
    simpa [hids, hids'] using hmem

theorem enough_of_confirmed {eligible : List Value} {kOfN : KOfN}
    (h : (determineOutcome eligible [] kOfN).outcome = .confirmed) :
    kOfN.k ≤ (eligible.countP fun a => claimResult a = (key "verified").value : ℕ) := by
  simp only [determineOutcome, ne_eq, not_true_eq_false, if_false] at h
  by_contra hno
  simp only [hno, if_false] at h
  split at h
  · cases h
  · split at h <;> cases h

theorem conflicts_of_confirmed {eligible : List Value} {conflicts : List Conflict} {kOfN : KOfN}
    (h : (determineOutcome eligible conflicts kOfN).outcome = .confirmed) : conflicts = [] := by
  by_contra hno
  simp [determineOutcome, hno] at h

/-- every promise is kept but perhaps the last: a place in the counts for every attestation -/
theorem fair_iff_accounted (hdistinct : policy.distinctAttestor) {report : Report}
    {digest : String} (h : verifyQuorum recordHash policyHash reportHash policy attestations registry
      = .ok (report, digest)) :
    Fair recordHash policyHash reportHash policy attestations registry report
      ↔ report.counts.submitted = report.counts.eligible + report.counts.excluded := by
  refine ⟨Fair.accounted, fun haccounted => ?_⟩
  obtain ⟨kOfN, s, hrule, hs, houtcome, -, -, -, -, -, -, hids⟩ := verifyQuorum_ok h
  have hpassed := passed_eligibleOf recordHash registry attestations hdistinct
  rw [← hs] at hpassed
  have hon : ∀ i, i ∈ report.eligibleAttestors.map (·.attestorId) ↔ i ∈ s.eligible.map attestorId := by
    intro i
    simp [hids]
  refine ⟨fun others hsame => sameQuorum_of_members hdistinct h hsame, fun hconfirmed => ?_,
    fun hconfirmed a ha b hb hea heb => ?_, fun a ha b hb hea heb hab hne hmem => ?_, haccounted⟩
  · rw [houtcome] at hconfirmed
    have hk := enough_of_confirmed (conflicts_of_confirmed hconfirmed ▸ hconfirmed)
    refine ⟨kOfN, hrule, (s.eligible.filter fun a => claimResult a = (key "verified").value).map
      attestorId, ?_, ?_, fun i hi => ?_⟩
    · exact (List.filter_sublist.map attestorId).nodup hpassed.roll.once
    · rwa [List.length_map, ← List.countP_eq_length_filter]
    · obtain ⟨a, ha, rfl⟩ := List.mem_map.mp hi
      obtain ⟨ha, hresult⟩ := List.mem_filter.mp ha
      obtain ⟨hcast, hea⟩ := mem_eligibleOf.mp (hpassed.roll.cast a ha)
      exact ⟨hea.active, a, hcast, hea, rfl, of_decide_eq_true hresult⟩
  · have hnone := conflicts_of_confirmed (houtcome ▸ hconfirmed)
    exact (noConflict_iff hpassed).mp hnone a (mem_eligibleOf.mpr ⟨ha, hea⟩) b
      (mem_eligibleOf.mpr ⟨hb, heb⟩)
  · have hone := ((hpassed.roll.mem_iff _).mp ((hon _).mp hmem)).2
    exact hne (hone a (mem_eligibleOf.mpr ⟨ha, hea⟩) b (mem_eligibleOf.mpr ⟨hb, heb⟩) rfl hab.symm)

/-- **A report is fair iff no attestor has two eligible results**: the first of them is taken off the
roll and put nowhere. -/
theorem verifyQuorum_fair_iff (hdistinct : policy.distinctAttestor) {report : Report}
    {digest : String} (h : verifyQuorum recordHash policyHash reportHash policy attestations registry
      = .ok (report, digest)) :
    Fair recordHash policyHash reportHash policy attestations registry report ↔
      ∀ a ∈ attestations, ∀ b ∈ attestations, Eligible recordHash registry policy.scope a →
        Eligible recordHash registry policy.scope b → attestorId a = attestorId b →
          claimResult a = claimResult b := by
  obtain ⟨kOfN, s, -, hs, -, -, -, -, heligible, -, hcounts, -⟩ := verifyQuorum_ok h
  have hpassed := passed_eligibleOf recordHash registry attestations hdistinct
  rw [← hs] at hpassed
  have hlength := hpassed.length
  have hnone : s.conflicts = [] ↔ _ := noConflict_iff hpassed
  rw [fair_iff_accounted hdistinct h]
  constructor
  · intro haccounted a ha b hb hea heb
    have hempty : s.conflicts = [] := by
      rw [← List.length_eq_zero_iff]
      omega
    exact hnone.mp hempty a (mem_eligibleOf.mpr ⟨ha, hea⟩) b (mem_eligibleOf.mpr ⟨hb, heb⟩)
  · intro hagreed
    have hempty : s.conflicts = [] := by
      refine hnone.mpr fun a ha b hb => ?_
      obtain ⟨ha, hea⟩ := mem_eligibleOf.mp ha
      obtain ⟨hb, heb⟩ := mem_eligibleOf.mp hb
      exact hagreed a ha b hb hea heb
    rw [hempty, List.length_nil] at hlength
    omega

end

end

/-! ## two votes of one attestor -/

/-- a hash that tells the two attestations apart -/
def resultHash (body : Value) : Value :=
  match claimResult body with
  | .kw k => .str k.name
  | _ => .str "none"

/-- one attestor with a result -/
def attested (result : Value) (hash : String) : Value :=
  .map [(key "schema-version", .str "attestation.v1"), (nsKey "attestation" "id", .str hash),
    (nsKey "attestation" "hash", .str hash), (nsKey "attestation" "subject-hash", .str "sha256:abc"),
    (nsKey "attestation" "subject-kind", (key "evidence-node").value),
    (nsKey "attestation" "claim-result", result),
    (nsKey "attestation" "attestor-id", (key "attestor-a").value),
    (nsKey "attestation" "signed-at", .str "2025-01-01T00:00:00Z")]

def verifiedByA : Value := attested (key "verified").value "verified"
def rejectedByA : Value := attested (key "rejected").value "rejected"

def oneAttestor : List Attestor := [⟨(key "attestor-a").value, (key "active").value, []⟩]

def oneOfOne : Policy :=
  ⟨⟨(key "evidence-node").value, .str "sha256:abc", .null⟩, ⟨.int 1, .int 1⟩, none⟩

def quorumOf (attestations : List Value) : Except QuorumError (Report × String) :=
  verifyQuorum resultHash (fun _ => "policy") (fun version _ => version) oneOfOne attestations
    oneAttestor

/-- the report on two results of one attestor: two are submitted, one is excluded, none is eligible -/
def conflictedReport : Report :=
  { policyHash := "policy"
    scope := oneOfOne.scope
    outcome := .conflicted
    counts := ⟨2, 0, 1, 0, 0, 0⟩
    eligibleAttestors := []
    excludedAttestations := [⟨.str "rejected", .conflictingResult⟩]
    conflicts := [⟨(key "attestor-a").value, .str "verified", .str "rejected"⟩] }

/-- the report on one result twice -/
def confirmedReport : Report :=
  { policyHash := "policy"
    scope := oneOfOne.scope
    outcome := .confirmed
    counts := ⟨2, 1, 1, 1, 0, 0⟩
    eligibleAttestors := [⟨(key "attestor-a").value, .str "verified", (key "verified").value⟩]
    excludedAttestations := [⟨.str "verified", .duplicateAttestor⟩]
    conflicts := [] }

theorem verifyQuorum_fair_iff_twice :
    Fair resultHash (fun _ => "policy") (fun version _ => version) oneOfOne
      [verifiedByA, verifiedByA] oneAttestor confirmedReport := by
  have hreport : quorumOf [verifiedByA, verifiedByA] = .ok (confirmedReport, reportVersion) := by
    decide +kernel
  refine (verifyQuorum_fair_iff (by decide) hreport).mpr fun a ha b hb _ _ _ => ?_
  simp only [List.mem_cons, List.not_mem_nil, or_false, or_self] at ha hb
  rw [ha, hb]

/-- two results of one attestor: one attestation is neither eligible nor excluded -/
theorem verifyQuorum_fair_counterexample :
    quorumOf [verifiedByA, rejectedByA] = .ok (conflictedReport, reportVersion) ∧
    ¬ Fair resultHash (fun _ => "policy") (fun version _ => version) oneOfOne
      [verifiedByA, rejectedByA] oneAttestor conflictedReport := by
  refine ⟨by decide +kernel, fun h => ?_⟩
  have haccounted := h.accounted
  revert haccounted
  decide +kernel

end PRF.Evidence
