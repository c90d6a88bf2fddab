import ProtocolRobustness.Economics.Awards
import ProtocolRobustness.Library.Fallible

/-!
# Awards that are built, and awards that verify

* `Structural`, `Canonical`   what the structural check and the verifier ask of an award;
* `verify_valid_iff`          the verifier answers valid exactly then;
* `Verifiable`                what the builder does not look at;
* `Vouched`                   what an award is that a policy stands for;
* `award_verified_iff`        what is built verifies exactly when it is verifiable, and what verifies is
                              vouched for exactly when its policy is looked up and found.
-/

set_option linter.unusedSectionVars false

namespace PRF.Awards
open LongArith (HostInt)
open Fallible

/-! ## exceptions -/

theorem refuse_ok {c : Prop} [Decidable c] {message : String} {u : Unit} :
    refuse c message = .ok u ↔ ¬ c := by
  unfold refuse
  split
  · next h => exact ⟨nofun, fun hno => absurd h hno⟩
  · next h => exact ⟨fun _ => h, fun _ => rfl⟩

theorem given_ok {α : Type} {x : Option α} {a : α} : given x = .ok a ↔ x = some a := by
  cases x with
  | none => exact ⟨nofun, nofun⟩
  | some b =>
    show Except.ok b = Except.ok a ↔ some b = some a
    rw [Except.ok.injEq, Option.some.injEq]

theorem guard_ok {c : Prop} [Decidable c] {message : String} {α : Type} {x : Except Thrown α}
    {a : α} : (do refuse c message; x) = .ok a ↔ ¬ c ∧ x = .ok a := by
  rw [bind_eq_ok]
  exact ⟨fun ⟨u, hc, hx⟩ => ⟨refuse_ok.mp hc, hx⟩, fun ⟨hc, hx⟩ => ⟨(), refuse_ok.mpr hc, hx⟩⟩

theorem forM_ok {α : Type} {f : α → Except Thrown Unit} {l : List α} {u : Unit} :
    l.forM f = .ok u ↔ ∀ a ∈ l, f a = .ok () := forM_ok_iff

/-! ## sorting -/

section
variable {α : Type} {id : α → Atom} {l s : List α}

instance (id : α → Atom) : Std.Total fun x y => rank (id x) ≤ rank (id y) where
  total x y := le_total (rank (id x)) (rank (id y))

instance (id : α → Atom) : IsTrans α fun x y => rank (id x) ≤ rank (id y) where
  trans _ _ _ h h' := h.trans h'

theorem comparable_symm {a b : Atom} (h : Comparable a b) : Comparable b a := by
  rcases h with h | h | h
  · exact Or.inr (Or.inl h)
  · exact Or.inl h
  · exact Or.inr (Or.inr h.symm)

theorem sortBy_ok :
    sortBy id l = .ok s ↔ (l.Pairwise fun x y => Comparable (id x) (id y))
      ∧ (l.insertionSort fun x y => rank (id x) ≤ rank (id y)) = s := by
  unfold sortBy
  rw [require_eq_ok, Except.ok.injEq]

theorem sortBy_perm (h : sortBy id l = .ok s) : s.Perm l := by
  obtain ⟨-, rfl⟩ := sortBy_ok.mp h
  exact List.perm_insertionSort _ l

theorem sortBy_sorted (h : sortBy id l = .ok s) : sortBy id s = .ok s := by
  obtain ⟨hcomparable, hsorted⟩ := sortBy_ok.mp h
  have hsymm : ∀ {x y : α}, Comparable (id x) (id y) → Comparable (id y) (id x) := comparable_symm
  refine sortBy_ok.mpr ⟨((sortBy_perm h).pairwise_iff hsymm).mpr hcomparable, ?_⟩
  · rw [← hsorted]
    exact (List.pairwise_insertionSort _ l).insertionSort_eq

theorem sortBy_ids (h : sortBy id l = .ok s) : sortBy (fun a => a) (l.map id) = .ok (s.map id) := by
  obtain ⟨hcomparable, rfl⟩ := sortBy_ok.mp h
  refine sortBy_ok.mpr ⟨List.pairwise_map.mpr hcomparable, ?_⟩
  exact (List.map_insertionSort _ _ id l fun _ _ _ _ => Iff.rfl).symm

end

section
variable {ι : Type} [DecidableEq ι] (H : AwardHashes ι)

/-- what the structural check asks of an award of these components, eligibility result and checks,
where `root` is that of the check ids -/
structure Structural (a : Award ι) (parts : List (Component ι)) (er : EligibilityResult ι)
    (checked : List (Check ι)) (root : String) : Prop where
  required : ∀ k ∈ awardProjectionFields, k ∈ a.keys
  known : ∀ k ∈ a.keys, k ∈ awardProjectionFields ∨ k = "artifact/hash"
  artifactType : a.artifactType = awardCalculationType
  mode : a.mode ∈ awardModes
  review : ¬ reviewWithoutRoots a.mode a.eligibilityPolicyRoot a.checkSetRoot
  amount : a.amount.natInt = true
  scale : a.scale.positiveInteger = true
  texts : ∀ e ∈ a.texts, nonEmptyText e.2 = true
  components : a.components = some parts
  componentIds : checkComponentIds parts = .ok ()
  eachComponent : ∀ c ∈ parts, validateComponent c = .ok ()
  sum : a.amount.number? = some ((total parts).value : ℚ)
  eligibility : a.eligibilityResult = some er
  checks : er.checks = some checked
  nonEmpty : checked ≠ []
  named : Atom.null ∉ checked.map (·.id)
  distinct : (checked.map (·.id)).Nodup
  passes : ∀ c ∈ checked, c.pass = .bool true ∨ c.pass = .bool false
  eligible : er.eligible = .bool (allPass checked)
  rooted : checkSetRoot H (checked.map (·.id)) = .ok root
  declared : truthy a.checkSetRoot → a.checkSetRoot = .str root
  ineligible : er.eligible = .bool false → a.amount.positive = false

/-- what the verifier asks besides -/
structure Canonical (a : Award ι) (parts : List (Component ι)) (checked : List (Check ι)) :
    Prop where
  hash : ∃ hash, awardCalculationHash H a = .ok hash ∧ a.hash = .str hash
  components : sortBy (·.id) parts = .ok parts
  checks : sortBy (·.id) checked = .ok checked

/-- the award is as the verifier asks, apart from its policy -/
def Consistent (a : Award ι) : Prop :=
  ∃ parts er checked root, Structural H a parts er checked root ∧ Canonical H a parts checked

variable {H} {a : Award ι} {parts : List (Component ι)} {er : EligibilityResult ι}
  {checked : List (Check ι)} {root : String}

/-! ## the structural check -/

theorem checkSetRoot_sorted {ids sorted : List Atom} (h : sortBy (fun a => a) ids = .ok sorted) :
    checkSetRoot H sorted = checkSetRoot H ids := by
  unfold checkSetRoot
  rw [show sortBy id ids = .ok sorted from h, show sortBy id sorted = .ok sorted from sortBy_sorted h]

theorem checkSetRoot_comparable {ids : List Atom} (h : checkSetRoot H ids = .ok root) :
    ∃ sorted, sortBy (fun a => a) ids = .ok sorted := by
  obtain ⟨sorted, hsorted, -⟩ := bind_eq_ok.mp h
  exact ⟨sorted, hsorted⟩

theorem checkDeclaredRoot_ok {declared : Atom} {derived : String} {u : Unit} :
    checkDeclaredRoot declared derived = .ok u ↔
      (truthy declared → declared = .str derived) := by
  unfold checkDeclaredRoot
  rw [refuse_ok]
  tauto

theorem validateCheck_ok {c : Check ι} :
    validateCheck c = .ok () ↔ c.pass = .bool true ∨ c.pass = .bool false := by
  unfold validateCheck
  rw [refuse_ok]
  tauto

theorem validateComponents_ok {u : Unit} :
    validateComponents a = .ok u ↔ ∃ parts, a.components = some parts
      ∧ checkComponentIds parts = .ok () ∧ (∀ c ∈ parts, validateComponent c = .ok ())
      ∧ a.amount.number? = some ((total parts).value : ℚ) := by
  unfold validateComponents
  cases hcomponents : a.components with
  | none => exact ⟨nofun, fun ⟨_, h, _⟩ => nomatch h⟩
  | some parts =>
    simp only [bind_eq_ok, forM_ok, refuse_ok, not_not, Option.some.injEq]
    constructor
    · rintro ⟨_, hids, _, heach, hsum⟩
      exact ⟨parts, rfl, hids, heach, hsum⟩
    · rintro ⟨_, rfl, hids, heach, hsum⟩
      exact ⟨(), hids, (), heach, hsum⟩

theorem validateChecks_ok :
    validateChecks H a er checked = .ok () ↔ ∃ root, checked ≠ []
      ∧ Atom.null ∉ checked.map (·.id) ∧ (checked.map (·.id)).Nodup
      ∧ (∀ c ∈ checked, c.pass = .bool true ∨ c.pass = .bool false)
      ∧ er.eligible = .bool (allPass checked)
      ∧ checkSetRoot H (checked.map (·.id)) = .ok root
      ∧ (truthy a.checkSetRoot → a.checkSetRoot = .str root)
      ∧ (er.eligible = .bool false → a.amount.positive = false) := by
  unfold validateChecks
  simp only [bind_eq_ok, forM_ok, refuse_ok, validateCheck_ok, checkDeclaredRoot_ok, not_not,
    not_and, Bool.not_eq_true]
  constructor
  · rintro ⟨_, hne, _, hnull, _, hnodup, _, hpasses, _, heligible, sorted, hsorted, root, hroot, _,
      hdeclared, hzero⟩
    rw [checkSetRoot_sorted hsorted] at hroot
    exact ⟨root, hne, hnull, hnodup, hpasses, heligible, hroot, hdeclared, hzero⟩
  · rintro ⟨root, hne, hnull, hnodup, hpasses, heligible, hroot, hdeclared, hzero⟩
    obtain ⟨sorted, hsorted⟩ := checkSetRoot_comparable hroot
    rw [← checkSetRoot_sorted hsorted] at hroot
    exact ⟨(), hne, (), hnull, (), hnodup, (), hpasses, (), heligible, sorted, hsorted, root, hroot,
      (), hdeclared, hzero⟩

theorem validateEligibility_ok :
    validateEligibility H a = .ok () ↔ ∃ er checked, a.eligibilityResult = some er
      ∧ er.checks = some checked ∧ validateChecks H a er checked = .ok () := by
  unfold validateEligibility
  cases her : a.eligibilityResult with
  | none => exact ⟨nofun, fun ⟨_, _, h, _⟩ => nomatch h⟩
  | some er =>
    dsimp only
    rw [guard_ok]
    constructor
    · rintro ⟨-, h⟩
      cases hchecks : er.checks with
      | none =>
        rw [hchecks] at h
        cases h
      | some checked =>
        rw [hchecks] at h
        exact ⟨er, checked, rfl, hchecks, h⟩
    · rintro ⟨er', checked, heq, hchecks, h⟩
      obtain rfl := Option.some.inj heq
      rw [hchecks]
      -- the outcome of the checks is a boolean
      obtain ⟨root, -, -, -, -, heligible, -⟩ := validateChecks_ok.mp h
      refine ⟨?_, h⟩
      rw [heligible]
      cases allPass checked <;> simp

theorem validate_ok :
    validateAwardCalculation H a = .ok () ↔
      ∃ parts er checked root, Structural H a parts er checked root := by
  unfold validateAwardCalculation
  simp only [bind_eq_ok, refuse_ok, forM_ok, checkText, validateComponents_ok,
    validateEligibility_ok, validateChecks_ok, not_not, Bool.not_eq_false]
  constructor
  · rintro ⟨_, hrequired, _, hknown, _, htype, _, hmode, _, hreview, _, hamount, _, hscale, _,
      htexts, _, ⟨parts, hparts, hids, heach, hsum⟩, er, checked, her, hchecked, root, hne, hnull,
      hnodup, hpasses, heligible, hroot, hdeclared, hzero⟩
    refine ⟨parts, er, checked, root, ?_, ?_, htype, hmode, hreview, hamount, hscale, htexts, hparts,
      hids, heach, hsum, her, hchecked, hne, hnull, hnodup, hpasses, heligible, hroot, hdeclared,
      hzero⟩
    · intro k hk
      by_contra hno
      exact hrequired ⟨k, hk, hno⟩
    · intro k hk
      by_contra hno
      exact hknown ⟨k, hk, not_or.mp hno⟩
  · rintro ⟨parts, er, checked, root, h⟩
    refine ⟨(), ?_, (), ?_, (), h.artifactType, (), h.mode, (), h.review, (), h.amount, (), h.scale,
      (), h.texts, (), ⟨parts, h.components, h.componentIds, h.eachComponent, h.sum⟩, er, checked,
      h.eligibility, h.checks, root, h.nonEmpty, h.named, h.distinct, h.passes, h.eligible, h.rooted,
      h.declared, h.ineligible⟩
    · rintro ⟨k, hk, hno⟩
      exact hno (h.required k hk)
    · rintro ⟨k, hk, hno⟩
      rcases h.known k hk with hk | hk
      · exact hno.1 hk
      · exact hno.2 hk

/-! ## the verifier -/

theorem report_nil {c : Prop} [Decidable c] {m : Mismatch} : report c m = [] ↔ ¬ c := by
  unfold report
  split
  · next h => simp [h]
  · next h => simp [h]

theorem canonicalize_ok {sorted : List (Check ι)} :
    canonicalizeEligibilityChecks checked = .ok sorted ↔ Atom.null ∉ checked.map (·.id)
      ∧ (checked.map (·.id)).Nodup ∧ sortBy (·.id) checked = .ok sorted := by
  unfold canonicalizeEligibilityChecks
  rw [guard_ok, guard_ok, not_not]

theorem computedEligible_eq (hne : checked ≠ []) :
    computedEligible checked = .bool (allPass checked) := if_neg hne

theorem mismatches_nil {resolver : Option (Atom → Resolution)}
    (h : Structural H a parts er checked root) :
    mismatches H a resolver = .ok [] ↔
      Canonical H a parts checked ∧ resolverErrors H a checked resolver = .ok [] := by
  have heligible : computedEligible checked = er.eligible := by
    rw [computedEligible_eq h.nonEmpty, h.eligible]
  have hzero : ¬ (truthy (computedEligible checked) = false ∧ a.amount.positive = true) := by
    rintro ⟨hno, hpositive⟩
    rw [computedEligible_eq h.nonEmpty] at hno
    have hfails : allPass checked = false := by
      cases hpass : allPass checked with
      | false => rfl
      | true =>
        rw [hpass] at hno
        cases hno
    rw [h.ineligible (by rw [h.eligible, hfails])] at hpositive
    cases hpositive
  unfold mismatches
  simp only [bind_eq_ok, given_ok, h.components, h.eligibility, Option.some.injEq, exists_eq_left',
    h.checks, canonicalize_ok, pure, Except.pure, Except.ok.injEq, List.append_eq_nil_iff,
    report_nil, not_not, heligible, h.sum]
  rw [heligible] at hzero
  constructor
  · rintro ⟨hash, hhash, sorted, hsorted, sortedChecks, ⟨-, -, hsortedChecks⟩, policy, hpolicy,
      ⟨⟨⟨⟨⟨heq, -⟩, rfl⟩, rfl⟩, -⟩, -⟩, rfl⟩
    exact ⟨⟨⟨hash, hhash, heq⟩, hsorted, hsortedChecks⟩, hpolicy⟩
  · rintro ⟨⟨⟨hash, hhash, heq⟩, hsorted, hsortedChecks⟩, hpolicy⟩
    exact ⟨hash, hhash, parts, hsorted, checked, ⟨h.named, h.distinct, hsortedChecks⟩, [], hpolicy,
      ⟨⟨⟨⟨⟨heq, trivial⟩, rfl⟩, rfl⟩, trivial⟩, hzero⟩, rfl⟩

/-- **An award is valid exactly when it is structurally valid and canonical, and its policy has
nothing against it.** -/
theorem verify_valid_iff (resolver : Option (Atom → Resolution)) :
    verify H a resolver = .valid ↔ ∃ parts er checked root,
      Structural H a parts er checked root ∧ Canonical H a parts checked
        ∧ resolverErrors H a checked resolver = .ok [] := by
  have hanswer : verify H a resolver = .valid ↔
      (do validateAwardCalculation H a; mismatches H a resolver) = .ok [] := by
    unfold verify
    split
    · next h => rw [h]; exact ⟨nofun, nofun⟩
    · next h => rw [h]; exact iff_of_true rfl rfl
    · next errors hne h =>
      rw [h]
      exact ⟨nofun, fun heq => absurd (Except.ok.inj heq) hne⟩
  rw [hanswer, bind_eq_ok]
  constructor
  · rintro ⟨_, hvalidate, hmismatches⟩
    obtain ⟨parts, er, checked, root, h⟩ := validate_ok.mp hvalidate
    exact ⟨parts, er, checked, root, h, (mismatches_nil h).mp hmismatches⟩
  · rintro ⟨parts, er, checked, root, h, hrest⟩
    exact ⟨(), validate_ok.mpr ⟨parts, er, checked, root, h⟩, (mismatches_nil h).mpr hrest⟩

theorem verify_alone_iff : verify H a none = .valid ↔ Consistent H a := by
  rw [verify_valid_iff]
  constructor
  · rintro ⟨parts, er, checked, root, h, hcanonical, -⟩
    exact ⟨parts, er, checked, root, h, hcanonical⟩
  · rintro ⟨parts, er, checked, root, h, hcanonical⟩
    exact ⟨parts, er, checked, root, h, hcanonical, rfl⟩

/-! ## the builder -/

theorem validateComponent_ok {c : Component ι} :
    validateComponent c = .ok () ↔ buildComponent c = .ok () ∧ nonEmptyText c.sourceRoot = true := by
  unfold validateComponent buildComponent
  simp only [bind_eq_ok, refuse_ok, Bool.not_eq_false]
  constructor
  · rintro ⟨_, hnull, _, hkind, _, hsign, _, hsource, hint⟩
    exact ⟨⟨(), hkind, (), hsign, hint⟩, hsource⟩
  · rintro ⟨⟨_, hkind, _, hsign, hint⟩, hsource⟩
    refine ⟨(), ?_, (), hkind, (), hsign, (), hsource, hint⟩
    intro hnull
    rw [hnull] at hkind
    cases hkind

/-- what the builder has established of an artifact -/
structure Built (H : AwardHashes ι) (args : Args ι) (a : Award ι)
    (supplied parts : List (Component ι)) (er : EligibilityResult ι)
    (suppliedChecks checked : List (Check ι)) (digest : String) : Prop where
  components : args.components = some supplied
  componentIds : checkComponentIds supplied = .ok ()
  eachComponent : ∀ c ∈ supplied, buildComponent c = .ok ()
  sorted : sortBy (·.id) supplied = .ok parts
  nonNegative : 0 ≤ (total parts).value
  eligibility : args.eligibilityResult = some er
  checks : er.checks = some suppliedChecks
  canonical : canonicalizeEligibilityChecks suppliedChecks = .ok checked
  eligible : computedEligible checked = er.eligible
  ineligible : truthy (computedEligible checked) = false → (total parts).value ≤ 0
  root : checkBuiltRoot H args.checkSetRoot checked = .ok ()
  mode : orElse args.mode (kw "generic") ∈ awardModes
  review : ¬ reviewWithoutRoots (orElse args.mode (kw "generic")) args.eligibilityPolicyRoot
    args.checkSetRoot
  hash : awardCalculationHash H (args.unhashed (orElse args.mode (kw "generic")) parts er checked)
    = .ok digest
  artifact : a =
    { args.unhashed (orElse args.mode (kw "generic")) parts er checked with
      keys := "artifact/hash" :: awardProjectionFields
      hash := .str digest }

theorem build_ok {args : Args ι} (h : build H args = .ok a) :
    ∃ supplied parts er suppliedChecks checked digest,
      Built H args a supplied parts er suppliedChecks checked digest := by
  unfold build at h
  simp only [bind_eq_ok, refuse_ok, given_ok, forM_ok, not_not, not_lt, not_and] at h
  obtain ⟨_, hmode, _, hreview, supplied, hsupplied, _, hids, _, heach, parts, hparts, _, hsum, er,
    her, suppliedChecks, hchecks, checked, hchecked, _, heligible, _, hzero, _, hroot, hash, hhash,
    hartifact⟩ := h
  exact ⟨supplied, parts, er, suppliedChecks, checked, hash, hsupplied, hids, heach, hparts, hsum,
    her, hchecks, hchecked, heligible, hzero, hroot, hmode, hreview, hhash,
    (Except.ok.inj hartifact).symm⟩

/-- what the builder does not look at: the texts, the scale, the source roots, that there are checks
and how each of them came out, that their ids have a root, and that the amount is held in 64 bits -/
structure Verifiable (H : AwardHashes ι) (args : Args ι) : Prop where
  texts : ∀ v ∈ [args.id, args.policyRoot, args.poolAvailabilityRoot, args.claimSetRoot,
    args.evidenceSetRoot, args.beneficiaryId, args.calculationTime], nonEmptyText v = true
  scale : args.scale.positiveInteger = true
  sources : ∀ supplied, args.components = some supplied →
    ∀ c ∈ supplied, nonEmptyText c.sourceRoot = true
  held : ∀ supplied parts, args.components = some supplied → sortBy (·.id) supplied = .ok parts →
    (total parts).big = false
  checks : ∀ er checks, args.eligibilityResult = some er → er.checks = some checks →
    checks ≠ [] ∧ (∀ c ∈ checks, c.pass = .bool true ∨ c.pass = .bool false)
      ∧ ∃ root, checkSetRoot H (checks.map (·.id)) = .ok root

section
variable {args : Args ι} {supplied : List (Component ι)} {suppliedChecks : List (Check ι)}
  {digest : String}

theorem checkComponentIds_perm {l l' : List (Component ι)} (hp : l.Perm l') {u : Unit} :
    checkComponentIds l = .ok u ↔ checkComponentIds l' = .ok u := by
  have hids := hp.map (·.id)
  unfold checkComponentIds
  simp only [bind_eq_ok, refuse_ok, hids.mem_iff, hids.nodup_iff]

theorem checkSetRoot_perm (hsorted : sortBy (·.id) suppliedChecks = .ok checked) :
    checkSetRoot H (checked.map (·.id)) = checkSetRoot H (suppliedChecks.map (·.id)) :=
  checkSetRoot_sorted (sortBy_ids hsorted)

theorem checkBuiltRoot_ok {declared : Atom} (h : checkBuiltRoot H declared checked = .ok ())
    (hroot : checkSetRoot H (checked.map (·.id)) = .ok root) (ht : truthy declared) :
    declared = .str root := by
  unfold checkBuiltRoot at h
  rw [if_pos ht, hroot] at h
  exact checkDeclaredRoot_ok.mp h ht

theorem Built.hash_eq (h : Built H args a supplied parts er suppliedChecks checked digest) :
    awardCalculationHash H a = .ok digest := by
  rw [← h.hash, h.artifact]
  rfl

theorem Built.verifiable (h : Built H args a supplied parts er suppliedChecks checked digest)
    (hconsistent : Consistent H a) : Verifiable H args := by
  obtain ⟨parts', er', checked', root, hs, -⟩ := hconsistent
  obtain ⟨-, -, hchecked⟩ := canonicalize_ok.mp h.canonical
  have hperm := sortBy_perm hchecked
  have ha := h.artifact
  subst ha
  obtain rfl : parts = parts' := Option.some.inj hs.components
  obtain rfl := Option.some.inj hs.eligibility
  obtain rfl : checked = checked' := Option.some.inj hs.checks
  refine ⟨?_, hs.scale, ?_, ?_, ?_⟩
  · simpa [Award.texts, Args.unhashed] using hs.texts
  · intro supplied' hsupplied c hc
    obtain rfl : supplied' = supplied := Option.some.inj (hsupplied.symm.trans h.components)
    have hmem : c ∈ parts := (sortBy_perm h.sorted).mem_iff.mpr hc
    exact (validateComponent_ok.mp (hs.eachComponent c hmem)).2
  · intro supplied' parts' hsupplied hparts
    obtain rfl : supplied' = supplied := Option.some.inj (hsupplied.symm.trans h.components)
    obtain rfl : parts = parts' := Except.ok.inj (h.sorted.symm.trans hparts)
    have hnat : (total parts).big = false ∧ 0 ≤ (total parts).value := by
      simpa [Amount.natInt, Args.unhashed] using hs.amount
    exact hnat.1
  · intro er'' checks her hchecks
    obtain rfl : er'' = er := Option.some.inj (her.symm.trans h.eligibility)
    obtain rfl : checks = suppliedChecks := Option.some.inj (hchecks.symm.trans h.checks)
    refine ⟨?_, fun c hc => hs.passes c (hperm.mem_iff.mpr hc), root, ?_⟩
    · rintro rfl
      exact hs.nonEmpty hperm.eq_nil
    · rw [← checkSetRoot_perm hchecked]
      exact hs.rooted

theorem Built.consistent (h : Built H args a supplied parts er suppliedChecks checked digest)
    (hv : Verifiable H args) : Consistent H a := by
  obtain ⟨hnull, hnodup, hchecked⟩ := canonicalize_ok.mp h.canonical
  have hperm := sortBy_perm hchecked
  have hids := hperm.map (·.id)
  obtain ⟨hne, hpasses, root, hroot⟩ := hv.checks er suppliedChecks h.eligibility h.checks
  rw [← checkSetRoot_perm hchecked] at hroot
  have hnonEmpty : checked ≠ [] := fun hnil => hne (hnil ▸ hperm).nil_eq.symm
  have heligible := h.eligible
  rw [computedEligible_eq hnonEmpty] at heligible
  have hheld : (total parts).big = false := hv.held supplied parts h.components h.sorted
  have hhash := h.hash_eq
  have ha := h.artifact
  subst ha
  refine ⟨parts, { er with checks := some checked }, checked, root, ?_, ⟨digest, hhash, rfl⟩,
    sortBy_sorted h.sorted, sortBy_sorted hchecked⟩
  refine ⟨fun k hk => List.mem_cons_of_mem _ hk, ?_, rfl, h.mode, h.review, ?_, hv.scale, ?_, rfl,
    (checkComponentIds_perm (sortBy_perm h.sorted)).mpr h.componentIds, ?_, rfl, rfl, rfl, hnonEmpty,
    fun hmem => hnull (hids.mem_iff.mp hmem), hids.nodup_iff.mpr hnodup,
    fun c hc => hpasses c (hperm.mem_iff.mp hc), heligible.symm, hroot, ?_, ?_⟩
  · intro k hk
    rcases List.mem_cons.mp hk with rfl | hk
    · exact Or.inr rfl
    · exact Or.inl hk
  · show decide ((total parts).big = false ∧ 0 ≤ (total parts).value) = true
    exact decide_eq_true ⟨hheld, h.nonNegative⟩
  · simpa [Award.texts, Args.unhashed] using hv.texts
  · intro c hc
    have hmem : c ∈ supplied := (sortBy_perm h.sorted).mem_iff.mp hc
    exact validateComponent_ok.mpr ⟨h.eachComponent c hmem, hv.sources supplied h.components c hmem⟩
  · exact checkBuiltRoot_ok h.root hroot
  · intro hfalse
    have hzero := h.ineligible (by rw [h.eligible, show er.eligible = .bool false from hfalse]; rfl)
    show decide ((0 : ℚ) < ((total parts).value : ℚ)) = false
    rw [decide_eq_false_iff_not, not_lt]
    exact_mod_cast hzero

/-- **What is built verifies exactly when it is verifiable.** -/
theorem build_verifies_iff (h : build H args = .ok a) :
    verify H a none = .valid ↔ Verifiable H args := by
  obtain ⟨supplied, parts, er, suppliedChecks, checked, digest, hbuilt⟩ := build_ok h
  rw [verify_alone_iff]
  exact ⟨hbuilt.verifiable, hbuilt.consistent⟩

end

/-! ## the policy -/

def Component.value (c : Component ι) : ℤ := (c.amount.int?.map HostInt.value).getD 0

theorem total_from (n : HostInt) (l : List (Component ι)) :
    ((l.filterMap (·.amount.int?)).foldl HostInt.addPromote n).value
      = n.value + (l.map Component.value).sum := by
  induction l generalizing n with
  | nil => simp
  | cons c l ih =>
    rw [List.map_cons, List.sum_cons]
    cases hc : c.amount.int? with
    | none =>
      rw [List.filterMap_cons]
      simp only [hc]
      rw [ih]
      simp [Component.value, hc]
    | some m =>
      rw [List.filterMap_cons]
      simp only [hc]
      rw [List.foldl_cons, ih]
      simp only [Component.value, hc, Option.map_some, Option.getD_some, HostInt.addPromote_value]
      ring

theorem total_value (l : List (Component ι)) : (total l).value = (l.map Component.value).sum := by
  rw [total, total_from]
  exact zero_add _

/-- the amount is the sum of the components, the award is eligible exactly when all its checks pass,
an ineligible award is zero, and the resolver returned a policy with the root of the award, which is
the root of the check ids -/
structure Vouched (H : AwardHashes ι) (a : Award ι) (resolver : Atom → Resolution) : Prop where
  amount : ∃ parts n, a.components = some parts ∧ a.amount = .int n
    ∧ n.value = (parts.map Component.value).sum
  eligible : ∃ er checks, a.eligibilityResult = some er ∧ er.checks = some checks
    ∧ er.eligible = .bool (decide (∀ c ∈ checks, c.pass = .bool true))
  ineligible : ∀ er, a.eligibilityResult = some er → er.eligible ≠ .bool true →
    a.amount.number? = some 0
  policy : a.resolution resolver = some (.policy a.checkSetRoot)
  root : ∃ er checks root, a.eligibilityResult = some er ∧ er.checks = some checks
    ∧ checkSetRoot H (checks.map (·.id)) = .ok root ∧ a.checkSetRoot = .str root

variable {resolver : Atom → Resolution}

theorem resolverErrors_nil (h : Structural H a parts er checked root) :
    resolverErrors H a checked (some resolver) = .ok [] ↔
      policyErrors a root (a.resolution resolver) = [] := by
  unfold resolverErrors
  rw [h.rooted]
  show Except.ok (policyErrors a root (a.resolution resolver)) = Except.ok [] ↔ _
  rw [Except.ok.injEq]

theorem natInt_eq {amount : Amount} (h : amount.natInt = true) :
    ∃ n, amount = .int n ∧ 0 ≤ n.value := by
  cases amount with
  | int n =>
    have hnat : n.big = false ∧ 0 ≤ n.value := by simpa [Amount.natInt] using h
    exact ⟨n, rfl, hnat.2⟩
  | ratio q => cases h
  | notNumber => cases h

theorem allPass_eq (checks : List (Check ι)) :
    allPass checks = decide (∀ c ∈ checks, c.pass = .bool true) := by
  rw [allPass, Bool.eq_iff_iff]
  simp

theorem Structural.vouched (h : Structural H a parts er checked root)
    (hpolicy : a.resolution resolver = some (.policy a.checkSetRoot))
    (hroot : a.checkSetRoot = .str root) : Vouched H a resolver := by
  obtain ⟨n, hn, hnonneg⟩ := natInt_eq h.amount
  have hsum := h.sum
  rw [hn, total_value] at hsum
  have hvalue : n.value = (parts.map Component.value).sum := by exact_mod_cast Option.some.inj hsum
  refine ⟨⟨parts, n, h.components, hn, hvalue⟩,
    ⟨er, checked, h.eligibility, h.checks, by rw [h.eligible, allPass_eq]⟩, ?_, hpolicy,
    er, checked, root, h.eligibility, h.checks, h.rooted, hroot⟩
  intro er' her hno
  obtain rfl : er' = er := Option.some.inj (her.symm.trans h.eligibility)
  have hfalse : er'.eligible = .bool false := by
    rw [h.eligible] at hno ⊢
    cases hpass : allPass checked with
    | false => rfl
    | true => exact absurd (congrArg Atom.bool hpass) hno
  have hzero := h.ineligible hfalse
  rw [hn] at hzero ⊢
  have hle : n.value ≤ 0 := by
    by_contra hpos
    have hpositive : (0 : ℚ) < (n.value : ℚ) := by exact_mod_cast not_le.mp hpos
    have hyes : Amount.positive (.int n) = true := decide_eq_true hpositive
    rw [hyes] at hzero
    cases hzero
  have hexact : n.value = 0 := le_antisymm hle hnonneg
  show some (n.value : ℚ) = some 0
  rw [hexact]
  rfl

/-- **What verifies under a resolver is vouched for exactly when its policy is looked up and found.** -/
theorem verify_vouched_iff :
    (verify H a (some resolver) = .valid → Vouched H a resolver) ↔
      (Consistent H a → ∃ r, a.resolution resolver = some r ∧ r ≠ .missing) := by
  constructor
  · rintro hsound ⟨parts, er, checked, root, hs, hc⟩
    cases hresolution : a.resolution resolver with
    | none =>
      -- the resolver is not called
      have hvalid : verify H a (some resolver) = .valid :=
        (verify_valid_iff _).mpr ⟨parts, er, checked, root, hs, hc,
          (resolverErrors_nil hs).mpr (by rw [hresolution]; rfl)⟩
      have hpolicy := (hsound hvalid).policy
      rw [hresolution] at hpolicy
      cases hpolicy
    | some r =>
      refine ⟨r, rfl, ?_⟩
      rintro rfl
      have hvalid : verify H a (some resolver) = .valid :=
        (verify_valid_iff _).mpr ⟨parts, er, checked, root, hs, hc,
          (resolverErrors_nil hs).mpr (by rw [hresolution]; rfl)⟩
      have hpolicy := (hsound hvalid).policy
      rw [hresolution] at hpolicy
      cases hpolicy
  · intro hfound hvalid
    obtain ⟨parts, er, checked, root, hs, hc, hresolver⟩ := (verify_valid_iff _).mp hvalid
    rw [resolverErrors_nil hs] at hresolver
    obtain ⟨r, hr, hne⟩ := hfound ⟨parts, er, checked, root, hs, hc⟩
    rw [hr] at hresolver
    cases r with
    | threw => cases hresolver
    | missing => exact absurd rfl hne
    | policy policyRoot =>
      obtain ⟨haward, hsupplied⟩ := List.append_eq_nil_iff.mp hresolver
      have haward' : policyRoot = a.checkSetRoot := not_not.mp (report_nil.mp haward)
      have hsupplied' : policyRoot = .str root := not_not.mp (report_nil.mp hsupplied)
      exact hs.vouched (haward' ▸ hr) (haward' ▸ hsupplied')

/-- **Building and verifying awards.**  What is built verifies exactly when it is verifiable, and what
verifies under a policy resolver is vouched for exactly when its policy is looked up and found. -/
theorem award_verified_iff (H : AwardHashes ι) :
    (∀ args a, build H args = .ok a → (verify H a none = .valid ↔ Verifiable H args)) ∧
    (∀ a resolver, (verify H a (some resolver) = .valid → Vouched H a resolver) ↔
      (Consistent H a → ∃ r, a.resolution resolver = some r ∧ r ≠ .missing)) :=
  ⟨fun _ _ => build_verifies_iff, fun _ _ => verify_vouched_iff⟩

end

/-! ## an award of a policy that is not found -/

def sampleHashes : AwardHashes ℕ where
  award _ := some "award"
  checkSet _ := some "checks"

/-- an award of 100, in review -/
def sampleArgs : Args ℕ where
  id := .str "award-001"
  policyRoot := .str "sha256:policy"
  poolAvailabilityRoot := .str "sha256:pool"
  claimSetRoot := .str "sha256:claims"
  evidenceSetRoot := .str "sha256:evidence"
  beneficiaryId := .str "beneficiary-001"
  calculationTime := .str "2026-07-30T00:00:00Z"
  scale := .int (.ofInt 1)
  components := some [⟨kw "base-award", kw "base", .int (.ofInt 100), .str "sha256:source", 0⟩]
  eligibilityResult := some ⟨.bool true, some [⟨kw "claim-valid", .bool true, 0⟩], 0⟩
  eligibilityPolicyRoot := .str "sha256:eligibility"
  checkSetRoot := .str "checks"
  mode := kw "review"

/-- the same without a source root -/
def rootlessArgs : Args ℕ :=
  { sampleArgs with
    components := some [⟨kw "base-award", kw "base", .int (.ofInt 100), .null, 0⟩] }

/-- what is built need not verify, and a policy that is not found is passed over -/
theorem award_unverified :
    (¬ ∀ args a, build sampleHashes args = .ok a → verify sampleHashes a none = .valid) ∧
    ¬ ∀ a resolver, verify sampleHashes a (some resolver) = .valid →
      Vouched sampleHashes a resolver := by
  constructor
  · intro h
    have hvalid := h rootlessArgs _ rfl
    cases hvalid
  · intro h
    obtain ⟨a, ha⟩ : ∃ a, build sampleHashes sampleArgs = .ok a := ⟨_, rfl⟩
    have hvalid : verify sampleHashes a (some fun _ => .missing) = .valid := by
      cases ha
      rfl
    have hpolicy := (h a _ hvalid).policy
    cases ha
    cases hpolicy

end PRF.Awards
