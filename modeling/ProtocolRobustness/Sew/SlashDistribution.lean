import ProtocolRobustness.Sew.Held

/-!
# Distributing a slash

`build-sew-slash-distribution` of `sew/economics.clj`, with the parts of
`economics/slash_distribution.clj` its policy uses, and `distribute-slashed-funds` of
`sew/accounting.clj`.  The verification of a distribution that was just built recomputes what the
build has checked.  `hash` is the hash of the committed part of a distribution.

* `Distribution.build`        base allocations, the award of a challenger, the checks;
* `World.distributeSlashedFunds`   the distribution, applied unless its hash is the one recorded;
* `build_conserves`           what is allocated in the end is the amount that was slashed.
-/

namespace PRF.Sew
open Table Fallible

/-- `(quot (* amount bps) 10000)` of big integers, which the amounts of slashes are.  Of the amounts
of escrows and bonds, held in 64 bits, the product may overflow: the operation throws then, and no
world comes of it. -/
def bpsAmount (amount bps : ℤ) : ℤ := (amount * bps).tdiv 10000

/-- amounts for the insurance pool, the protocol and the retained reserve -/
structure Allocations where
  insurance : ℤ
  protocol : ℤ
  retained : ℤ
deriving DecidableEq

def Allocations.sum (a : Allocations) : ℤ := a.insurance + a.protocol + a.retained

/-- `weighted-allocation`; the weights add up to the scale, what rounding leaves is retained -/
def weightedAllocation (grossAmount insuranceBps protocolBps : ℤ) : Allocations :=
  let quotients : Allocations :=
    { insurance := bpsAmount grossAmount insuranceBps
      protocol := bpsAmount grossAmount protocolBps
      retained := bpsAmount grossAmount (10000 - insuranceBps - protocolBps) }
  let remainder := grossAmount - quotients.sum
  if 0 < remainder then { quotients with retained := quotients.retained + remainder } else quotients

/-- the challenge bounty: for whom, how much, and from which allocations -/
structure Award where
  beneficiary : Address
  amount : ℤ
  insuranceFunding : ℤ
  protocolFunding : ℤ
deriving DecidableEq

/-- `weighted-funding`: half from the insurance pool, half and the remainder from the protocol -/
def Award.fund (beneficiary : Address) (amount : ℤ) : Award :=
  let insuranceFunding := bpsAmount amount 5000
  let protocolFunding := bpsAmount amount 5000
  let remainder := amount - insuranceFunding - protocolFunding
  { beneficiary := beneficiary
    amount := amount
    insuranceFunding := insuranceFunding
    protocolFunding := if 0 < remainder then protocolFunding + remainder else protocolFunding }

/-- `slash-distribution.v1`: what its hash commits to -/
structure Distribution where
  grossAmount : ℤ
  workflowReference : Option ℕ
  insuranceBps : ℤ
  protocolBps : ℤ
  bountyBps : ℤ
  base : Allocations
  award : Option Award
  final : Allocations
deriving DecidableEq

def calculateBounty (slashAmount bountyBps : ℤ) : ℤ :=
  if 0 < bountyBps then bpsAmount slashAmount bountyBps else 0

/-- the base allocations after the deductions that fund an award -/
def Allocations.deduct (base : Allocations) (award : Option Award) : Allocations :=
  match award with
  | none => base
  | some award =>
    { base with
      insurance := base.insurance - award.insuranceFunding
      protocol := base.protocol - award.protocolFunding }

/-- the award of a challenger whose bounty is not zero -/
def challengeAward (slashAmount bountyBps : ℤ) (challenger : Option Address) : Option Award :=
  match challenger with
  | some beneficiary =>
    if 0 < calculateBounty slashAmount bountyBps then
      some (Award.fund beneficiary (calculateBounty slashAmount bountyBps))
    else none
  | none => none

def awardAmount (award : Option Award) : ℤ := (award.map Award.amount).getD 0

/-- `build-sew-slash-distribution`; none is an invalid distribution -/
def Distribution.build (params : Params) (slashAmount bountyBps : ℤ) (challenger : Option Address)
    (workflowReference : Option ℕ) : Option Distribution :=
  let base := weightedAllocation slashAmount params.insuranceCutBps params.protocolRetainedBps
  let award := challengeAward slashAmount bountyBps challenger
  let final := base.deduct award
  if slashAmount < 0 then none
  -- the rate of an award is at most its scale
  else if award.isSome ∧ 10000 < bountyBps then none
  -- no source is overdrawn
  else if award.any fun award =>
      base.insurance < award.insuranceFunding ∨ base.protocol < award.protocolFunding then none
  else if final.insurance < 0 ∨ final.protocol < 0 ∨ final.retained < 0 ∨ awardAmount award < 0 then
    none
  else if final.sum + awardAmount award ≠ slashAmount then none
  else some
    { grossAmount := slashAmount
      workflowReference := workflowReference
      insuranceBps := params.insuranceCutBps
      protocolBps := params.protocolRetainedBps
      bountyBps := bountyBps
      base := base
      award := award
      final := final }

/-! ## claims -/

/-- `record-claimable-v2` -/
def Claims.record (claims : Claims) (workflowId : ℕ) (domain : ClaimDomain) (address : Address)
    (amount : ℤ) : Claims :=
  GroupSum.add claims (⟨workflowId, domain, address⟩, amount)

theorem Claims.amount_record (claims : Claims) (workflowId wf : ℕ) (domain d : ClaimDomain)
    (address a : Address) (amount : ℤ) :
    (claims.record workflowId domain address amount).amount wf d a = claims.amount wf d a
      + if workflowId = wf ∧ domain = d ∧ address = a then amount else 0 := by
  unfold Claims.amount Claims.record
  rw [GroupSum.find_add]
  by_cases h : workflowId = wf ∧ domain = d ∧ address = a
  · obtain ⟨rfl, rfl, rfl⟩ := h
    simp
  · rw [if_neg (by simpa using h), if_neg h, add_zero]

/-- the bounty of a distribution becomes claimable on its workflow -/
def Claims.recordBounty (claims : Claims) (workflowId : Option ℕ) (award : Option Award) : Claims :=
  match workflowId, award with
  | some workflowId, some award =>
    claims.record workflowId .challengeBounty award.beneficiary award.amount
  | _, _ => claims

/-! ## application -/

def SlashPools.distribute (pools : SlashPools) (final : Allocations) (workflowId : ℕ)
    (challenger : Option Address) (hash : String) : SlashPools where
  insurance := pools.insurance + final.insurance
  protocol := pools.protocol + final.protocol
  retained := pools.retained + final.retained
  applied := Function.update pools.applied workflowId
    (Function.update (pools.applied workflowId) challenger (some hash))

/-- what the pools have in all -/
def SlashPools.sum (pools : SlashPools) : ℤ := pools.insurance + pools.protocol + pools.retained

section
variable (hash : Distribution → String)

def World.distributeSlashedFunds (w : World) (amount : ℤ) (challenger : Option Address)
    (bountyBps : ℤ) (workflowId : Option ℕ) : Except Failure World :=
  match Distribution.build w.config.params amount bountyBps challenger workflowId with
  | none => .error .invalidDistribution
  | some dist =>
    if challenger.isSome ∧ 0 < bountyBps ∧ dist.award = none then .error .missingBountyAward
    -- the same hash was applied before: nothing happens
    else if w.pools.applied (workflowId.getD 0) challenger = some (hash dist) then .ok w
    else .ok
      { w with
        pools := w.pools.distribute dist.final (workflowId.getD 0) challenger (hash dist)
        claims := w.claims.recordBounty workflowId dist.award }

end

/-! ## what a distribution allocates -/

section
variable {params : Params} {slashAmount bountyBps : ℤ} {challenger : Option Address}
  {workflowReference : Option ℕ} {dist : Distribution}

theorem build_eq_some (h : Distribution.build params slashAmount bountyBps challenger
    workflowReference = some dist) : 0 ≤ slashAmount ∧
    dist.grossAmount = slashAmount ∧ dist.workflowReference = workflowReference ∧
    dist.award = challengeAward slashAmount bountyBps challenger ∧
    0 ≤ dist.final.insurance ∧ 0 ≤ dist.final.protocol ∧ 0 ≤ dist.final.retained ∧
    dist.final.sum + awardAmount dist.award = slashAmount := by
  unfold Distribution.build at h
  simp only [Option.ite_none_left_eq_some, Option.some.injEq, not_lt, not_or, not_not] at h
  obtain ⟨hs, _, _, ⟨hi, hp, hr, _⟩, hsum, rfl⟩ := h
  exact ⟨hs, rfl, rfl, rfl, hi, hp, hr, hsum⟩

/-- **What is allocated in the end is the amount that was slashed.** -/
theorem build_conserves (h : Distribution.build params slashAmount bountyBps challenger
    workflowReference = some dist) :
    dist.final.sum + awardAmount dist.award = slashAmount :=
  (build_eq_some h).2.2.2.2.2.2.2

theorem build_no_challenger (h : Distribution.build params slashAmount bountyBps none
    workflowReference = some dist) : dist.award = none ∧ dist.final.sum = slashAmount := by
  have haward : dist.award = none := (build_eq_some h).2.2.2.1
  have hsum := build_conserves h
  rw [haward] at hsum
  exact ⟨haward, by simpa [awardAmount] using hsum⟩

end

theorem SlashPools.sum_distribute (pools : SlashPools) (final : Allocations) (workflowId : ℕ)
    (challenger : Option Address) (hash : String) :
    (pools.distribute final workflowId challenger hash).sum = pools.sum + final.sum := by
  unfold SlashPools.sum SlashPools.distribute Allocations.sum
  ring

@[simp] theorem SlashPools.applied_distribute (pools : SlashPools) (final : Allocations)
    (workflowId : ℕ) (challenger : Option Address) (hash : String) :
    (pools.distribute final workflowId challenger hash).applied workflowId challenger
      = some hash := by
  simp [SlashPools.distribute]

section
variable {hash : Distribution → String} {w w' : World} {amount bountyBps : ℤ}
  {challenger : Option Address} {workflowId : Option ℕ}

theorem World.distributeSlashedFunds_ok
    (h : w.distributeSlashedFunds hash amount challenger bountyBps workflowId = .ok w') :
    ∃ dist, Distribution.build w.config.params amount bountyBps challenger workflowId = some dist ∧
      if w.pools.applied (workflowId.getD 0) challenger = some (hash dist) then w' = w
      else w' =
        { w with
          pools := w.pools.distribute dist.final (workflowId.getD 0) challenger (hash dist)
          claims := w.claims.recordBounty workflowId dist.award } := by
  unfold World.distributeSlashedFunds at h
  cases hb : Distribution.build w.config.params amount bountyBps challenger workflowId with
  | none => simp [hb] at h
  | some dist =>
    simp only [hb, refuse_eq_ok] at h
    refine ⟨dist, rfl, ?_⟩
    by_cases hc : w.pools.applied (workflowId.getD 0) challenger = some (hash dist)
    · rw [if_pos hc]
      simpa [if_pos hc] using h.2.symm
    · rw [if_neg hc]
      simpa [if_neg hc] using h.2.symm

end

end PRF.Sew
