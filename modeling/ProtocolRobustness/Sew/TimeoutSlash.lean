import ProtocolRobustness.Sew.Vindication

/-!
# What the timeout of a dispute takes

A dispute that times out is refunded, and its resolver loses stake up to the amount of the escrow.
The smaller of stake and amount is found as a double, and what is subtracted from the stake is the
double read back.

* `TimeoutSlash`            the call takes an amount of the stake, and distributes it;
* `timeout_takes`           what a call that succeeds takes;
* `timeout_within_stake_iff`   it is the smaller of stake and amount when that survives a double.
-/

namespace PRF.Sew
open Table Fallible

/-! ## the slash of a call -/

section
variable (runtime : YieldRuntime) (hash : Distribution → String)

/-- The call of a timeout takes `taken` of the stake: the worlds it passes through once the escrow
is refunded, once the slash is distributed, and once the bonds are back. -/
structure TimeoutSlash (w w' : World) (workflowId : ℕ) (amount : ℤ) (resolver : Address)
    (taken : ℤ) (finalized distributed returned : World) : Prop where
  finalize : w.finalize runtime workflowId .refunded = .ok finalized
  distribute : (finalized.addStake resolver (-taken) true).distributeSlashedFunds hash taken none 0
    (some workflowId) = .ok distributed
  slash : finalized.slashOnTimeout hash workflowId (some resolver) amount
    = .ok (distributed.addSlashTotal resolver taken)
  bonds : ((distributed.addSlashTotal resolver taken).decrementResolverCapacity
    (some resolver)).returnAllBondsForWorkflow workflowId = .ok returned
  stake : returned.stake resolver = w.stake resolver - taken
  slashTotal : returned.resolvers.slashTotal resolver = w.resolvers.slashTotal resolver + taken
  cleanup : returned.cleanupOrphanedSlashes hash workflowId = .ok w'
  /-- the call enforces no other slash of the resolver, unless one is overdue -/
  alone : (∀ e ∈ w.slashes.pending, w.expiredReversal workflowId e.2 = true →
      e.2.resolver ≠ some resolver) →
    w'.stake resolver = w.stake resolver - taken ∧
      w'.resolvers.slashTotal resolver = w.resolvers.slashTotal resolver + taken

def WithinStake (w w' : World) (workflowId : ℕ) (amount : ℤ) (resolver : Address) : Prop :=
  ∃ finalized distributed returned,
    TimeoutSlash runtime hash w w' workflowId amount resolver (min (w.stake resolver) amount)
      finalized distributed returned ∧
    0 ≤ returned.stake resolver

end

section
variable {runtime : YieldRuntime} {hash : Distribution → String} {w w' : World} {workflowId : ℕ}
  {resolver : Address} {amount : ℤ}

theorem slashTotal_of_slashed {against : Address} {bountyBps : ℤ} {challenger : Option Address}
    {skip : Bool} {slashed : World.Slashed}
    (h : w.slashResolverStake hash against amount challenger bountyBps workflowId skip
      = .ok (w', slashed)) (hagainst : against ≠ resolver) :
    w'.resolvers.slashTotal resolver = w.resolvers.slashTotal resolver := by
  rw [(slashResolverStake_ok h).2.2.1]
  show addAt w.resolvers.slashTotal against slashed.total resolver = _
  rw [addAt_apply, if_neg hagainst]

theorem cleanup_frame (h : w.cleanupOrphanedSlashes hash workflowId = .ok w')
    (hothers : ∀ e ∈ w.slashes.pending, w.expiredReversal workflowId e.2 = true →
      e.2.resolver ≠ some resolver) :
    w'.stake resolver = w.stake resolver ∧
      w'.resolvers.slashTotal resolver = w.resolvers.slashTotal resolver := by
  unfold World.cleanupOrphanedSlashes at h
  split at h
  · refine foldlM_invariant (I := fun w₁ => w₁.stake resolver = w.stake resolver ∧
      w₁.resolvers.slashTotal resolver = w.resolvers.slashTotal resolver) ?_ ⟨rfl, rfl⟩ h
    intro w₁ e w₂ he hw₁ hok
    have hagainst : e.2.resolver ≠ some resolver :=
      hothers e (List.mem_filter.mp he).1 (List.mem_filter.mp he).2
    refine ⟨(stake_of_cleanup hok hagainst).trans hw₁.1, Eq.trans ?_ hw₁.2⟩
    rcases cleanupSlash_ok hok with ⟨against, w₃, _, hresolver, _, _, h₃, rfl⟩ | ⟨_, rfl⟩
    · have htotal := slashTotal_of_slashed h₃ fun heq =>
        hagainst (hresolver.trans (congrArg some heq))
      exact htotal
    · rfl
  · rw [Except.ok.inj h]
    exact ⟨rfl, rfl⟩

theorem slashOnTimeout_ok (hresolver : resolver ≠ zeroAddress)
    (h : w.slashOnTimeout hash workflowId (some resolver) amount = .ok w') :
    ∃ (taken : ℤ) (distributed : World),
      throughDouble (min (w.stake resolver) amount) = some taken ∧
      0 ≤ w.stake resolver ∧
      (w.addStake resolver (-taken) true).distributeSlashedFunds hash taken none 0 (some workflowId)
        = .ok distributed ∧
      distributed.addSlashTotal resolver taken = w' := by
  unfold World.slashOnTimeout at h
  simp only [hresolver, if_false, bind_eq_ok, Except.ok.injEq] at h
  obtain ⟨taken, htaken, distributed, hdistributed, rfl⟩ := h
  -- a negative amount is not distributed
  obtain ⟨dist, hdist, _⟩ := World.distributeSlashedFunds_ok hdistributed
  have hnonneg : 0 ≤ taken := (build_eq_some hdist).1
  exact ⟨taken, distributed, slashableAmount_eq hnonneg htaken,
    (slashableAmount_nonneg hnonneg htaken).1, hdistributed, rfl⟩

theorem TimeoutSlash.taken_unique {taken taken' : ℤ}
    {finalized distributed returned finalized' distributed' returned' : World}
    (h : TimeoutSlash runtime hash w w' workflowId amount resolver taken finalized distributed
      returned)
    (h' : TimeoutSlash runtime hash w w' workflowId amount resolver taken' finalized' distributed'
      returned') : taken = taken' := by
  obtain rfl : finalized = finalized' := Except.ok.inj (h.finalize.symm.trans h'.finalize)
  have hslashed : distributed.addSlashTotal resolver taken
      = distributed'.addSlashTotal resolver taken' := Except.ok.inj (h.slash.symm.trans h'.slash)
  have hbonds := h.bonds
  rw [hslashed] at hbonds
  obtain rfl : returned = returned' := Except.ok.inj (hbonds.symm.trans h'.bonds)
  have hstake : w.stake resolver - taken = w.stake resolver - taken' := h.stake.symm.trans h'.stake
  omega

variable {et : Transfer}

/-- **What a timeout takes**: the smaller of stake and amount, through a double. -/
theorem timeout_takes (het : w.getTransfer workflowId = some et)
    (hassigned : et.disputeResolver = some resolver) (hresolver : resolver ≠ zeroAddress)
    (hok : w.autoCancelDisputedEscrow runtime hash workflowId = .ok w') :
    0 ≤ w.stake resolver ∧ ∃ taken finalized distributed returned,
      throughDouble (min (w.stake resolver) et.amountAfterFee) = some taken ∧
      TimeoutSlash runtime hash w w' workflowId et.amountAfterFee resolver taken finalized
        distributed returned := by
  unfold World.autoCancelDisputedEscrow World.cancelDisputedEscrowNow at hok
  simp only [refuse_eq_ok, het, hassigned, bind_eq_ok] at hok
  obtain ⟨_, _, _, _, finalized, hfinalize, slashed, hslash, returned, hbonds, hcleanup⟩ := hok
  obtain ⟨_, hfinalized⟩ := finalize_core hfinalize
  have hstake₁ : finalized.stake resolver = w.stake resolver :=
    congrArg (fun r : Resolvers => r.stakes resolver) hfinalized.resolvers
  have htotal₁ : finalized.resolvers.slashTotal resolver = w.resolvers.slashTotal resolver :=
    congrArg (fun r : Resolvers => r.slashTotal resolver) hfinalized.resolvers
  obtain ⟨taken, distributed, htaken, hnonneg, hdistribute, rfl⟩ :=
    slashOnTimeout_ok hresolver hslash
  rw [hstake₁] at htaken hnonneg
  -- the capacity and the bonds are given back without touching stakes or slashes
  have hpenal : returned.penal = (distributed.addSlashTotal resolver taken).penal := by
    rw [penal_returnAllBonds hbonds, World.decrementResolverCapacity, penal_changeCapacity]
  obtain ⟨hts, _, hresolvers, hslashes⟩ := penal_eq.mp hpenal
  have hdistributed := (distributeSlashedFunds_docket hdistribute).2.1
  have hstake : returned.stake resolver = w.stake resolver - taken := by
    have hsame : _ = _ := congrArg (fun r : Resolvers => r.stakes resolver) hresolvers
    refine hsame.trans ?_
    show distributed.resolvers.stakes resolver = _
    rw [hdistributed]
    show Function.update finalized.resolvers.stakes resolver _ resolver = _
    rw [Function.update_self, ← sub_eq_add_neg]
    exact congrArg (· - taken) hstake₁
  have htotal : returned.resolvers.slashTotal resolver
      = w.resolvers.slashTotal resolver + taken := by
    have hsame : _ = _ := congrArg (fun r : Resolvers => r.slashTotal resolver) hresolvers
    refine hsame.trans ?_
    show Function.update distributed.resolvers.slashTotal resolver _ resolver = _
    rw [Function.update_self, hdistributed]
    exact congrArg (· + taken) htotal₁
  have hpending : returned.slashes.pending = w.slashes.pending := by
    rw [hslashes]
    show distributed.slashes.pending = _
    rw [(docket_eq.mp (distributeSlashedFunds_docket hdistribute).1).2.2.2.2.1]
    exact congrArg Slashes.pending hfinalized.slashes
  have hblockTs : returned.blockTs = w.blockTs := by
    rw [hts]
    show distributed.blockTs = _
    rw [(docket_eq.mp (distributeSlashedFunds_docket hdistribute).1).1]
    exact hfinalized.blockTs
  refine ⟨hnonneg, taken, finalized, distributed, returned, htaken, hfinalize, hdistribute, hslash,
    hbonds, hstake, htotal, hcleanup, fun halone => ?_⟩
  rw [← hstake, ← htotal]
  refine cleanup_frame hcleanup fun e he hexpired => halone e (hpending ▸ he) ?_
  unfold World.expiredReversal at hexpired ⊢
  rwa [hblockTs] at hexpired

/-- **The timeout of a dispute takes the smaller of stake and amount**, and leaves a stake that is
not negative, when that is a number that comes back from a double. -/
theorem timeout_within_stake_iff (het : w.getTransfer workflowId = some et)
    (hassigned : et.disputeResolver = some resolver) (hresolver : resolver ≠ zeroAddress)
    (hok : w.autoCancelDisputedEscrow runtime hash workflowId = .ok w') :
    WithinStake runtime hash w w' workflowId et.amountAfterFee resolver ↔
      throughDouble (min (w.stake resolver) et.amountAfterFee)
        = some (min (w.stake resolver) et.amountAfterFee) := by
  obtain ⟨hnonneg, taken, finalized, distributed, returned, htaken, hslash⟩ :=
    timeout_takes het hassigned hresolver hok
  rw [htaken, Option.some.injEq]
  constructor
  · rintro ⟨finalized', distributed', returned', hwithin, _⟩
    exact hslash.taken_unique hwithin
  · intro hexact
    rw [hexact] at hslash
    refine ⟨finalized, distributed, returned, hslash, ?_⟩
    rw [hslash.stake]
    exact sub_nonneg.mpr (min_le_left _ _)

end

/-! ## large stakes -/

def judgedEscrow (amount : ℤ) : Transfer where
  token := "USDC"
  sender := "s"
  recipient := "r"
  amountAfterFee := amount
  disputeResolver := some "judge"
  escrowState := .disputed

def timedOutDispute (stake amount : ℤ) : World :=
  { emptyWorld {} 200 with
    escrows :=
      { transfers := [(0, judgedEscrow amount)]
        snapshots := fun _ => { maxDisputeDuration := 100 }
        nextWorkflowId := 1 }
    disputes := { timestamps := fun _ => 50 }
    held :=
      { total := fun token => if token = "USDC" then amount else 0
        positions := [(principalPosition "USDC" 0, amount)] }
    resolvers :=
      { stakes := fun r => if r = "judge" then stake else 0
        registered := fun r => r = "judge" } }

theorem timeout_within_stake_ninety : ∃ w',
    (timedOutDispute 90 100).autoCancelDisputedEscrow bareEnvironment.runtime bareEnvironment.hash 0
      = .ok w' ∧
    WithinStake bareEnvironment.runtime bareEnvironment.hash (timedOutDispute 90 100) w' 0 100
      "judge" := by
  have hok : ((timedOutDispute 90 100).autoCancelDisputedEscrow bareEnvironment.runtime
      bareEnvironment.hash 0).isOk = true := by decide +kernel
  obtain ⟨w', hw'⟩ := exists_ok hok
  have het : (timedOutDispute 90 100).getTransfer 0 = some (judgedEscrow 100) := rfl
  exact ⟨w', hw', (timeout_within_stake_iff het rfl (by decide) hw').mpr (by decide +kernel)⟩

theorem timeout_overdraws_stake : ∃ w',
    (timedOutDispute (2 ^ 53 + 3) (2 ^ 60)).autoCancelDisputedEscrow bareEnvironment.runtime
      bareEnvironment.hash 0 = .ok w' ∧
    w'.stake "judge" = -1 ∧
    ¬ WithinStake bareEnvironment.runtime bareEnvironment.hash
      (timedOutDispute (2 ^ 53 + 3) (2 ^ 60)) w' 0 (2 ^ 60) "judge" := by
  have hstake : ((timedOutDispute (2 ^ 53 + 3) (2 ^ 60)).autoCancelDisputedEscrow
      bareEnvironment.runtime bareEnvironment.hash 0).map (fun w => w.stake "judge")
      = .ok (-1) := by decide +kernel
  obtain ⟨w', hw', hstake'⟩ := map_eq_ok.mp hstake
  refine ⟨w', hw', hstake', ?_⟩
  rintro ⟨_, _, _, hslash, _⟩
  have hempty : w'.stake "judge" = 2 ^ 53 + 3 - min (2 ^ 53 + 3) (2 ^ 60) :=
    (hslash.alone fun e he => by cases he).1
  rw [hstake'] at hempty
  revert hempty
  decide

end PRF.Sew
