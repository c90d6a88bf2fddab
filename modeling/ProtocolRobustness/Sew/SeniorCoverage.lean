import ProtocolRobustness.Library.GroupSum
import ProtocolRobustness.Library.Runs
import ProtocolRobustness.Sew.Docket
import ProtocolRobustness.Sew.Protocol

/-!
# Senior coverage

`register-senior-bond` and `delegate-to-senior` of `sew.clj` beside `slash-resolver-stake`.  A senior
has one counter of reserved coverage for all of its juniors.

* `Underwriting`      the world, the coverage seniors offer, and the history of the coverage;
* `coverageStep`      one operation on it;
* `owed`              what was delegated to a senior for a junior and is not yet drawn;
* `Isolated`          the counters are what the history leaves, junior by junior;
* `Apart`             a slash leaves what is available to the other juniors;
* `WithinOwn`         a slash draws no more than what is owed to its junior, and a senior registers
                      while nothing of it is reserved;
* `coverage_isolated_iff`   coverage is isolated over a run iff its steps stay within their own.
-/

namespace PRF.Sew
open Fallible GroupSum Runs

/-- entries of coverage, by senior and junior -/
abbrev CoverageEntries := List ((Address × Address) × ℤ)

/-- `coverageMax` is `:coverage-max` of a registered senior.  No operation reads the history. -/
structure Underwriting where
  world : World
  coverageMax : Address → Option ℤ
  delegated : CoverageEntries
  drawn : CoverageEntries

inductive CoverageOperation
  | registerSeniorBond (address : Address) (coverageMax : ℤ)
  | delegateToSenior (governance : Bool) (senior : Address) (resolver : Option Address)
      (coverage : ℤ)
  | slash (resolver : Address) (amount : ℤ) (challenger : Option Address) (bountyBps : ℤ)
      (workflowId : ℕ) (skipSubHeld : Bool)

inductive CoverageFailure
  | notGovernance
  | invalidCoverageAmount
  | seniorNotRegistered
  | invalidResolverAddr
  | seniorCoverageExceeded
  | slash (failure : Failure)
deriving DecidableEq

namespace World
variable (w : World)

def reserved (senior : Address) : ℤ := w.resolvers.reservedCoverage senior

/-- `:reserved-coverage` of a senior is written -/
def reserve (senior : Address) (coverage : ℤ) : World :=
  { w with
    resolvers :=
      { w.resolvers with
        reservedCoverage := Function.update w.resolvers.reservedCoverage senior coverage } }

/-- a resolver is delegated to a senior -/
def delegate (resolver senior : Address) : World :=
  { w with
    resolvers :=
      { w.resolvers with senior := Function.update w.resolvers.senior resolver (some senior) } }

end World

namespace Underwriting
variable (u : Underwriting)

def registerSeniorBond (address : Address) (coverageMax : ℤ) : Underwriting :=
  { u with
    world := u.world.reserve address 0
    coverageMax := Function.update u.coverageMax address (some coverageMax) }

def delegateToSenior (governance : Bool) (senior : Address) (resolver : Option Address)
    (coverage : ℤ) : Except CoverageFailure Underwriting :=
  if !governance then .error .notGovernance
  else if coverage < 0 then .error .invalidCoverageAmount
  else
    match u.coverageMax senior with
    | none => .error .seniorNotRegistered
    | some maxCoverage =>
      match resolver with
      | none => .error .invalidResolverAddr
      | some resolver =>
        let newReserved := u.world.reserved senior + coverage
        if maxCoverage < newReserved then .error .seniorCoverageExceeded
        else .ok
          { u with
            world := (u.world.reserve senior newReserved).delegate resolver senior
            delegated := u.delegated ++ [((senior, resolver), coverage)] }

/-- what a slash of a resolver draws from its senior -/
def draw (resolver : Address) (fromCoverage : ℤ) : CoverageEntries :=
  match u.world.resolvers.senior resolver with
  | some senior => [((senior, resolver), max 0 fromCoverage)]
  | none => []

def slash (hash : Distribution → String) (resolver : Address) (amount : ℤ)
    (challenger : Option Address) (bountyBps : ℤ) (workflowId : ℕ) (skipSubHeld : Bool) :
    Except CoverageFailure Underwriting :=
  match u.world.slashResolverStake hash resolver amount challenger bountyBps workflowId
    skipSubHeld with
  | .error failure => .error (.slash failure)
  | .ok (w, slashed) => .ok
    { u with
      world := w
      drawn := u.drawn ++ u.draw resolver (slashed.total - slashed.fromStake) }

/-! ## what the history says -/

/-- what was delegated to a senior for a junior and is not yet drawn -/
def owed (senior junior : Address) : ℤ :=
  net u.delegated (senior, junior) - net u.drawn (senior, junior)

/-- what is delegated to a senior less what is drawn from it -/
def outstanding (senior : Address) : ℤ :=
  net (byFst u.delegated) senior - net (byFst u.drawn) senior

/-- the coverage delegated for a resolver that a slash of it would still find -/
def available (junior : Address) : ℤ :=
  match u.world.resolvers.senior junior with
  | some senior => min (u.owed senior junior) (u.world.reserved senior)
  | none => 0

/-- nobody is registered, and nothing is delegated or reserved -/
structure Fresh : Prop where
  coverageMax : ∀ senior, u.coverageMax senior = none
  reserved : ∀ senior, u.world.reserved senior = 0
  delegated : u.delegated = []
  drawn : u.drawn = []

/-- the counters are what the history leaves, and no junior has drawn more than its own -/
structure Isolated : Prop where
  reserved : ∀ senior, u.world.reserved senior = u.outstanding senior
  bounds : ∀ senior maxCoverage, u.coverageMax senior = some maxCoverage →
    0 ≤ u.world.reserved senior ∧ u.world.reserved senior ≤ maxCoverage
  within : ∀ senior junior, net u.drawn (senior, junior) ≤ net u.delegated (senior, junior)
  total : ∀ junior, net (bySnd u.drawn) junior ≤ net (bySnd u.delegated) junior

end Underwriting

def coverageStep (hash : Distribution → String) (u : Underwriting) :
    CoverageOperation → Except CoverageFailure Underwriting
  | .registerSeniorBond address coverageMax => .ok (u.registerSeniorBond address coverageMax)
  | .delegateToSenior governance senior resolver coverage =>
    u.delegateToSenior governance senior resolver coverage
  | .slash resolver amount challenger bountyBps workflowId skipSubHeld =>
    u.slash hash resolver amount challenger bountyBps workflowId skipSubHeld

/-- a slash leaves what is available to the other juniors -/
def Apart (hash : Distribution → String) (u : Underwriting) : CoverageOperation → Prop
  | .slash resolver amount challenger bountyBps workflowId skipSubHeld =>
    ∀ u', u.slash hash resolver amount challenger bountyBps workflowId skipSubHeld = .ok u' →
      ∀ junior, junior ≠ resolver → u'.available junior = u.available junior
  | _ => True

/-- a slash draws no more than what is owed to its junior, and a senior registers for no negative
coverage, while nothing of it is reserved -/
def WithinOwn (u : Underwriting) : CoverageOperation → Prop
  | .registerSeniorBond address coverageMax => u.world.reserved address = 0 ∧ 0 ≤ coverageMax
  | .delegateToSenior .. => True
  | .slash resolver amount .. =>
    ∀ senior, u.world.resolvers.senior resolver = some senior →
      ∀ total, slashableAmount (u.world.stake resolver) amount = .ok total →
        min total (u.world.reserved senior) ≤ u.owed senior resolver

/-! ## nets of the history -/

section
variable {u u' : Underwriting} {senior junior resolver : Address} {coverage amount : ℤ}

theorem net_singleton {κ : Type*} [DecidableEq κ] (key other : κ) (x : ℤ) :
    net [(key, x)] other = if key = other then x else 0 := by
  rw [net_cons, net_nil, add_zero]

/-- the entries of the history with their signs -/
def Underwriting.signed (u : Underwriting) : CoverageEntries := u.delegated ++ negated u.drawn

theorem net_signed (senior junior : Address) :
    net u.signed (senior, junior) = u.owed senior junior := by
  rw [Underwriting.signed, net_append, net_negated, Underwriting.owed, sub_eq_add_neg]

theorem net_byFst_signed (senior : Address) : net (byFst u.signed) senior = u.outstanding senior := by
  rw [Underwriting.signed, byFst_append, byFst_negated, net_append, net_negated,
    Underwriting.outstanding, sub_eq_add_neg]

theorem total_of_within
    (h : ∀ senior junior, net u.drawn (senior, junior) ≤ net u.delegated (senior, junior))
    (junior : Address) : net (bySnd u.drawn) junior ≤ net (bySnd u.delegated) junior := by
  have hnonneg : 0 ≤ net (bySnd u.signed) junior := by
    apply net_bySnd_nonneg
    intro senior
    have hpair := h senior junior
    rw [net_signed, Underwriting.owed]
    omega
  rw [Underwriting.signed, bySnd_append, bySnd_negated, net_append, net_negated] at hnonneg
  omega

theorem Underwriting.Isolated.owed_nonneg (h : u.Isolated) (senior junior : Address) :
    0 ≤ u.owed senior junior := by
  have hpair := h.within senior junior
  rw [Underwriting.owed]
  omega

theorem Underwriting.Isolated.owed_add_le (h : u.Isolated) (senior : Address) {junior other : Address}
    (hne : junior ≠ other) :
    u.owed senior junior + u.owed senior other ≤ u.world.reserved senior := by
  rw [h.reserved senior, ← net_signed, ← net_signed, ← net_byFst_signed]
  apply net_add_le _ hne
  intro i
  rw [net_signed]
  exact h.owed_nonneg senior i

theorem Underwriting.Isolated.owed_le (h : u.Isolated) (senior junior : Address) :
    u.owed senior junior ≤ u.world.reserved senior := by
  have hlonger : junior ≠ junior ++ "'" := by
    intro heq
    have hlen := congrArg String.length heq
    simp at hlen
  have hsum := h.owed_add_le senior hlonger
  have hother := h.owed_nonneg senior (junior ++ "'")
  omega

/-! ## what the operations write -/

theorem reserve_reserved (w : World) (address other : Address) (coverage : ℤ) :
    (w.reserve address coverage).reserved other
      = if other = address then coverage else w.reserved other := by
  simp [World.reserved, World.reserve, Function.update_apply]

/-- **An accepted delegation.** -/
theorem delegateToSenior_ok {governance : Bool} {resolver : Option Address}
    (h : u.delegateToSenior governance senior resolver coverage = .ok u') :
    ∃ maxCoverage junior, 0 ≤ coverage ∧ u.coverageMax senior = some maxCoverage ∧
      u.world.reserved senior + coverage ≤ maxCoverage ∧
      (∀ other, u'.world.reserved other
        = u.world.reserved other + if senior = other then coverage else 0) ∧
      u'.coverageMax = u.coverageMax ∧
      u'.delegated = u.delegated ++ [((senior, junior), coverage)] ∧ u'.drawn = u.drawn := by
  unfold Underwriting.delegateToSenior at h
  rw [refuse_eq_ok, refuse_eq_ok] at h
  obtain ⟨_, hcoverage, h⟩ := h
  split at h
  · cases h
  · next maxCoverage hmax =>
    split at h
    · cases h
    · next junior =>
      rw [refuse_eq_ok] at h
      obtain ⟨hunder, h⟩ := h
      obtain rfl := Except.ok.inj h
      refine ⟨maxCoverage, junior, not_lt.mp hcoverage, hmax, not_lt.mp hunder, ?_, rfl, rfl, rfl⟩
      intro other
      show (u.world.reserve senior _).reserved other = _
      rw [reserve_reserved]
      by_cases ho : senior = other
      · rw [if_pos ho.symm, if_pos ho, ho]
      · rw [if_neg (Ne.symm ho), if_neg ho, add_zero]

variable {hash : Distribution → String} {challenger : Option Address} {bountyBps : ℤ}
  {workflowId : ℕ} {skipSubHeld : Bool}

theorem slash_ok
    (h : u.slash hash resolver amount challenger bountyBps workflowId skipSubHeld = .ok u') :
    ∃ total, slashableAmount (u.world.stake resolver) amount = .ok total ∧
      u'.world.resolvers.senior = u.world.resolvers.senior ∧ u'.coverageMax = u.coverageMax ∧
      u'.delegated = u.delegated ∧
      match u.world.resolvers.senior resolver with
      | none => u'.drawn = u.drawn ∧ ∀ other, u'.world.reserved other = u.world.reserved other
      | some senior =>
        u'.drawn
          = u.drawn ++ [((senior, resolver), max 0 (min total (u.world.reserved senior)))] ∧
        ∀ other, u'.world.reserved other = u.world.reserved other
          - if senior = other then max 0 (min total (u.world.reserved senior)) else 0 := by
  unfold Underwriting.slash at h
  split at h
  · cases h
  · next w slashed hs =>
    obtain rfl := Except.ok.inj h
    obtain ⟨htotal, hfrom, hresolvers, -, -⟩ := slashResolverStake_ok hs
    refine ⟨slashed.total, htotal, by rw [hresolvers]; rfl, rfl, rfl, ?_⟩
    have hreserved : ∀ other, w.reserved other = (u.world.resolvers.slash resolver slashed.total
        (u.world.coverageShare resolver slashed.total)).reservedCoverage other := by
      intro other
      rw [World.reserved, hresolvers]
    simp only [hreserved, hfrom, sub_sub_cancel]
    cases hsenior : u.world.resolvers.senior resolver with
    | none =>
      simp only [Underwriting.draw, Resolvers.slash, hsenior, List.append_nil, true_and]
      exact fun other => rfl
    | some senior =>
      simp only [Underwriting.draw, Resolvers.slash, World.coverageShare, hsenior]
      refine ⟨rfl, fun other => ?_⟩
      rw [show u.world.resolvers.reservedCoverage senior = u.world.reserved senior from rfl]
      split
      · next hpos =>
        rw [addAt_apply, max_eq_right hpos.le]
        show (if senior = other then u.world.reserved other + _ else u.world.reserved other) = _
        split
        · exact (sub_eq_add_neg _ _).symm
        · exact (sub_zero _).symm
      · next hnone =>
        rw [max_eq_left (not_lt.mp hnone), ite_self, sub_zero]
        rfl

/-! ## steps -/

theorem isolated_register (h : u.Isolated) (address : Address) (coverageMax : ℤ) :
    (u.registerSeniorBond address coverageMax).Isolated
      ↔ u.world.reserved address = 0 ∧ 0 ≤ coverageMax := by
  have hreserved : ∀ other, (u.registerSeniorBond address coverageMax).world.reserved other
      = if other = address then 0 else u.world.reserved other :=
    fun other => reserve_reserved u.world address other 0
  constructor
  · intro h'
    have hsame : (u.registerSeniorBond address coverageMax).outstanding address
        = u.outstanding address := rfl
    have hzero := h'.reserved address
    have hbounds := h'.bounds address coverageMax (Function.update_self ..)
    rw [hreserved, if_pos rfl] at hzero hbounds
    rw [hsame, ← h.reserved] at hzero
    exact ⟨hzero.symm, hbounds.2⟩
  · rintro ⟨hzero, hmax⟩
    have hkept : ∀ other, (u.registerSeniorBond address coverageMax).world.reserved other
        = u.world.reserved other := by
      intro other
      rw [hreserved]
      split
      · next ho => rw [ho, hzero]
      · rfl
    refine ⟨fun other => (hkept other).trans (h.reserved other), ?_, h.within, h.total⟩
    intro other maxCoverage hother
    rw [hkept]
    by_cases ho : other = address
    · have heq : maxCoverage = coverageMax := by
        have hself : (u.registerSeniorBond address coverageMax).coverageMax address
            = some coverageMax := Function.update_self ..
        rw [ho, hself] at hother
        exact (Option.some.inj hother).symm
      rw [ho, hzero, heq]
      exact ⟨le_rfl, hmax⟩
    · have hsame : (u.registerSeniorBond address coverageMax).coverageMax other
          = u.coverageMax other := Function.update_of_ne ho ..
      exact h.bounds other maxCoverage (hsame ▸ hother)

theorem isolated_delegate {governance : Bool} {resolver : Option Address} (h : u.Isolated)
    (hok : u.delegateToSenior governance senior resolver coverage = .ok u') : u'.Isolated := by
  obtain ⟨maxCoverage, junior, hcoverage, hmax, hunder, hreserved, hsame, hdelegated, hdrawn⟩ :=
    delegateToSenior_ok hok
  have hwithin : ∀ s j, net u'.drawn (s, j) ≤ net u'.delegated (s, j) := by
    intro s j
    have hpair := h.within s j
    rw [hdrawn, hdelegated, net_append, net_singleton]
    split <;> omega
  refine ⟨?_, ?_, hwithin, total_of_within hwithin⟩
  · intro other
    rw [hreserved, Underwriting.outstanding, hdelegated, hdrawn, byFst_append, net_append,
      h.reserved, Underwriting.outstanding]
    show _ = _ + net [(senior, coverage)] other - _
    rw [net_singleton]
    ring
  · intro other m hm
    rw [hsame] at hm
    have hbefore := h.bounds other m hm
    rw [hreserved]
    split
    · next ho =>
      have heq : m = maxCoverage := by
        rw [← ho, hmax] at hm
        exact (Option.some.inj hm).symm
      rw [← ho] at hbefore ⊢
      omega
    · omega

/-- **A slash keeps coverage isolated iff it draws no more than what is owed to its junior.** -/
theorem isolated_slash (h : u.Isolated)
    (hok : u.slash hash resolver amount challenger bountyBps workflowId skipSubHeld = .ok u') :
    u'.Isolated
      ↔ WithinOwn u (.slash resolver amount challenger bountyBps workflowId skipSubHeld) := by
  obtain ⟨total, htotal, -, hsame, hdelegated, hcase⟩ := slash_ok hok
  cases hsenior : u.world.resolvers.senior resolver with
  | none =>
    simp only [hsenior] at hcase
    obtain ⟨hdrawn, hreserved⟩ := hcase
    refine iff_of_true ⟨?_, ?_, ?_, ?_⟩ ?_
    · intro other
      rw [hreserved, Underwriting.outstanding, hdelegated, hdrawn]
      exact h.reserved other
    · intro other m hm
      rw [hreserved]
      exact h.bounds other m (hsame ▸ hm)
    · rw [hdelegated, hdrawn]
      exact h.within
    · rw [hdelegated, hdrawn]
      exact h.total
    · intro senior hs
      rw [hsenior] at hs
      cases hs
  | some senior =>
    simp only [hsenior] at hcase
    obtain ⟨hdrawn, hreserved⟩ := hcase
    have hiff : WithinOwn u (.slash resolver amount challenger bountyBps workflowId skipSubHeld)
        ↔ min total (u.world.reserved senior) ≤ u.owed senior resolver := by
      constructor
      · exact fun hw => hw senior hsenior total htotal
      · intro hle s hs t ht
        obtain rfl := Option.some.inj (hsenior.symm.trans hs)
        obtain rfl := Except.ok.inj (htotal.symm.trans ht)
        exact hle
    have howed := h.owed_nonneg senior resolver
    rw [hiff]
    constructor
    · intro h'
      have hpair := h'.within senior resolver
      rw [hdrawn, hdelegated, net_append, net_singleton, if_pos rfl] at hpair
      rw [Underwriting.owed]
      omega
    · intro hle
      have hwithin : ∀ s j, net u'.drawn (s, j) ≤ net u'.delegated (s, j) := by
        intro s j
        have hpair := h.within s j
        rw [hdrawn, hdelegated, net_append, net_singleton]
        split
        · next heq =>
          obtain ⟨rfl, rfl⟩ := Prod.mk.inj heq
          rw [Underwriting.owed] at hle howed
          omega
        · omega
      refine ⟨?_, ?_, hwithin, total_of_within hwithin⟩
      · intro other
        rw [hreserved, Underwriting.outstanding, hdelegated, hdrawn, byFst_append, net_append,
          h.reserved other, Underwriting.outstanding]
        show _ = _ - (_ + net [(senior, _)] other)
        rw [net_singleton, h.reserved senior]
        ring
      · intro other m hm
        rw [hsame] at hm
        have hbefore := h.bounds other m hm
        have hcover := h.owed_le senior resolver
        rw [hreserved]
        split
        · next ho =>
          rw [← ho] at hbefore ⊢
          omega
        · omega

theorem apart_slash (h : u.Isolated)
    (hown : WithinOwn u (.slash resolver amount challenger bountyBps workflowId skipSubHeld)) :
    Apart hash u (.slash resolver amount challenger bountyBps workflowId skipSubHeld) := by
  intro u' hok junior hne
  obtain ⟨total, htotal, hseniors, -, hdelegated, hcase⟩ := slash_ok hok
  unfold Underwriting.available
  rw [hseniors]
  cases hsenior : u.world.resolvers.senior resolver with
  | none =>
    simp only [hsenior] at hcase
    simp only [Underwriting.owed, hcase.1, hcase.2, hdelegated]
  | some senior =>
    simp only [hsenior] at hcase
    obtain ⟨hdrawn, hreserved⟩ := hcase
    cases hjunior : u.world.resolvers.senior junior with
    | none => rfl
    | some other =>
      have howed : u'.owed other junior = u.owed other junior := by
        have hpair : ¬ (senior, resolver) = (other, junior) := by
          intro heq
          exact hne (Prod.mk.inj heq).2.symm
        rw [Underwriting.owed, hdelegated, hdrawn, net_append, net_singleton, if_neg hpair,
          add_zero]
        rfl
      show min (u'.owed other junior) (u'.world.reserved other) = _
      rw [howed, hreserved]
      split
      · next ho =>
        have hle := hown senior hsenior total htotal
        have hboth := h.owed_add_le senior hne
        have hnonneg := h.owed_nonneg senior resolver
        subst ho
        show _ = min (u.owed senior junior) (u.world.reserved senior)
        rw [min_eq_left, min_eq_left]
        · omega
        · omega
      · rw [sub_zero]

theorem isolated_step {op : CoverageOperation} (h : u.Isolated)
    (hok : coverageStep hash u op = .ok u') : u'.Isolated ↔ WithinOwn u op := by
  cases op with
  | registerSeniorBond address coverageMax =>
    obtain rfl := Except.ok.inj hok
    exact isolated_register h address coverageMax
  | delegateToSenior governance senior resolver coverage =>
    exact iff_of_true (isolated_delegate h hok) trivial
  | slash resolver amount challenger bountyBps workflowId skipSubHeld => exact isolated_slash h hok

theorem apart_step {op : CoverageOperation} (h : u.Isolated) (hown : WithinOwn u op) :
    Apart hash u op := by
  cases op with
  | registerSeniorBond address coverageMax => trivial
  | delegateToSenior governance senior resolver coverage => trivial
  | slash resolver amount challenger bountyBps workflowId skipSubHeld => exact apart_slash h hown

/-! ## runs -/

theorem Underwriting.Fresh.isolated (h : u.Fresh) : u.Isolated := by
  refine ⟨?_, ?_, ?_, ?_⟩
  · intro senior
    rw [h.reserved, Underwriting.outstanding, h.delegated, h.drawn]
    rfl
  · intro senior m hm
    rw [h.coverageMax] at hm
    cases hm
  · rw [h.delegated, h.drawn]
    exact fun senior junior => le_rfl
  · rw [h.delegated, h.drawn]
    exact fun junior => le_rfl

/-- **Coverage is isolated over a run iff each step stays within its own.** -/
theorem coverage_isolated_iff (hash : Distribution → String) {origin : Underwriting}
    (h : origin.Fresh) (operations : List CoverageOperation) :
    (∀ n, (run (coverageStep hash) origin (operations.take n)).Isolated) ∧
        Along (coverageStep hash) (Apart hash) origin operations
      ↔ Along (coverageStep hash) WithinOwn origin operations := by
  have hkept : ∀ {P : Underwriting → CoverageOperation → Prop},
      (∀ u op, u.Isolated → (WithinOwn u op ↔ P u op)) →
      ((∀ n, (run (coverageStep hash) origin (operations.take n)).Isolated)
        ↔ Along (coverageStep hash) P origin operations) := by
    intro P hP
    exact along_iff_kept (R := fun _ => True) (D := fun _ _ => True) (fun _ _ _ _ _ _ => trivial)
      (fun u op u' _ hu _ hok => (isolated_step hu hok).trans (hP u op hu)) trivial h.isolated
      (along_of_invariant (I := fun _ => True) (fun _ _ _ _ _ => trivial)
        (fun _ _ _ _ => trivial) trivial operations)
  have hown := hkept fun u op _ => Iff.rfl
  have hapart : ∀ u op, u.Isolated → WithinOwn u op → Apart hash u op :=
    fun u op hu hw => apart_step hu hw
  have hboth := hkept fun u op hu => (and_iff_left_of_imp (hapart u op hu)).symm
  rw [along_and] at hboth
  constructor
  · exact fun hall => hown.mp hall.1
  · exact fun hall => ⟨hown.mpr hall, (hboth.mp (hown.mpr hall)).2⟩

end

/-! ## two juniors of a senior -/

/-- the resolvers `"a"` and `"b"` with a stake of 10000 each -/
def twoJuniors : Underwriting where
  world :=
    { emptyWorld {} 0 with
      resolvers :=
        { stakes := fun r => if r = "a" ∨ r = "b" then 10000 else 0
          registered := fun r => r = "a" ∨ r = "b" } }
  coverageMax := fun _ => none
  delegated := []
  drawn := []

/-- a senior for 10000 with 4000 delegated for each junior, and then a slash of `"a"` -/
def slashOfJunior (amount : ℤ) : List CoverageOperation :=
  [.registerSeniorBond "senior" 10000, .delegateToSenior true "senior" (some "a") 4000,
    .delegateToSenior true "senior" (some "b") 4000, .slash "a" amount none 0 0 true]

theorem twoJuniors_fresh : twoJuniors.Fresh := ⟨fun _ => rfl, fun _ => rfl, rfl, rfl⟩

/-- a slash of 3000 -/
theorem coverage_isolated_covered :
    (∀ n, (run (coverageStep bareEnvironment.hash) twoJuniors
      ((slashOfJunior 3000).take n)).Isolated) ∧
    Along (coverageStep bareEnvironment.hash) (Apart bareEnvironment.hash) twoJuniors
      (slashOfJunior 3000) := by
  refine (coverage_isolated_iff _ twoJuniors_fresh (slashOfJunior 3000)).mpr ⟨fun _ => ?_, ?_⟩
  · exact ⟨rfl, by omega⟩
  · refine ⟨fun _ => trivial, fun _ => trivial, fun _ => ?_, trivial⟩
    intro senior hsenior total htotal
    have hs : senior = "senior" := (Option.some.inj hsenior).symm
    have ht : total = 3000 := by
      have heq : slashableAmount 10000 3000 = .ok 3000 := by decide +kernel
      exact Except.ok.inj (htotal.symm.trans heq)
    rw [hs, ht]
    decide +kernel

/-- Of a slash of 6000 the senior covers 6000, with 4000 delegated for the junior. -/
theorem coverage_overdrawn :
    ¬ (∀ n, (run (coverageStep bareEnvironment.hash) twoJuniors
      ((slashOfJunior 6000).take n)).Isolated) := by
  intro hall
  have htotal := (hall 4).total "a"
  revert htotal
  decide +kernel

end PRF.Sew
