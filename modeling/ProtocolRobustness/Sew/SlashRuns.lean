import ProtocolRobustness.Library.Runs
import ProtocolRobustness.Sew.BondOps

/-!
# Runs of slashes

`slash-bond` takes the open bond of an appellant, adds it to what the workflow has lost and hands it
to `distribute-slashed-funds` without workflow and without challenger.  The application of a
distribution is recorded under these two, so all slashes of bonds share one record.

* `SlashesDistributed`   what the bonds lose is what the pools gain, over a run of slashes;
* `AlreadyApplied`       the record holds the hash of the distribution of this slash;
* `slashes_distributed_iff`     the pools gain it all when no slash finds its own hash recorded.
-/

namespace PRF.Sew
open Table Fallible Runs

structure BondSlash where
  workflowId : ℕ
  appellant : Address

section
variable (hash : Distribution → String)

def slashStep (w : World) (slash : BondSlash) : Except Failure World :=
  w.slashBond hash slash.workflowId slash.appellant

def slashedAmount (w : World) (slash : BondSlash) : ℤ :=
  w.bonds.balances slash.workflowId slash.appellant

/-- what a slash takes of one workflow -/
def slashedOn (workflowId : ℕ) (w : World) (slash : BondSlash) : ℤ :=
  if slash.workflowId = workflowId then slashedAmount w slash else 0

/-- what a slash takes of one token -/
def slashedIn (token : Token) (w : World) (slash : BondSlash) : ℤ :=
  if (w.getTransfer slash.workflowId).map Transfer.token = some token then slashedAmount w slash
  else 0

/-- **What the bonds lose is what the pools gain**, and every slash changes the pools. -/
structure SlashesDistributed (w : World) (slashes : List BondSlash) : Prop where
  slashed : ∀ workflowId, (run (slashStep hash) w slashes).bonds.slashed workflowId
    = w.bonds.slashed workflowId + total (slashStep hash) (slashedOn workflowId) w slashes
  held : ∀ token, (run (slashStep hash) w slashes).held.total token
    = w.held.total token - total (slashStep hash) (slashedIn token) w slashes
  pools : (run (slashStep hash) w slashes).pools.sum
    = w.pools.sum + total (slashStep hash) slashedAmount w slashes
  changes : Along (slashStep hash)
    (fun w slash => (after (slashStep hash) w slash).pools ≠ w.pools) w slashes

/-- the record that slashes of bonds share holds the hash of the distribution of this slash -/
def AlreadyApplied (w : World) (slash : BondSlash) : Prop :=
  ∃ dist ∈ Distribution.build w.config.params (slashedAmount w slash) 0 none none,
    w.pools.applied 0 none = some (hash dist)

instance (w : World) (slash : BondSlash) : Decidable (AlreadyApplied hash w slash) := by
  unfold AlreadyApplied
  cases Distribution.build w.config.params (slashedAmount w slash) 0 none none with
  | none => exact isFalse (by simp)
  | some dist => exact decidable_of_iff (w.pools.applied 0 none = some (hash dist)) (by simp)

/-- what the pools miss of a slash -/
def lostOf (w : World) (slash : BondSlash) : ℤ :=
  if AlreadyApplied hash w slash then slashedAmount w slash else 0

variable {hash} {w w' : World} {slash : BondSlash}

/-! ## one slash -/

theorem slashStep_slashed (h : slashStep hash w slash = .ok w') (workflowId : ℕ) :
    w'.bonds.slashed workflowId = w.bonds.slashed workflowId + slashedOn workflowId w slash := by
  obtain ⟨et, record, stored, dist, _, _, _, _, _, _, _, _, _, rfl⟩ := slashBond_ok h
  show addAt w.bonds.slashed slash.workflowId (slashedAmount w slash) workflowId = _
  rw [addAt_apply, slashedOn]
  split
  · rfl
  · rw [add_zero]

theorem slashStep_held (h : slashStep hash w slash = .ok w') (token : Token) :
    w'.held.total token = w.held.total token - slashedIn token w slash := by
  obtain ⟨et, record, stored, dist, het, _, _, _, _, _, _, _, _, rfl⟩ := slashBond_ok h
  show (w.held.move _ (-slashedAmount w slash)).total token = _
  rw [Held.total_move, slashedIn, het]
  show (if et.token = token then _ else _) = _
  by_cases ht : et.token = token <;> simp [ht, sub_eq_add_neg]

theorem slashStep_pos (h : (slashStep hash w slash).isOk) : 0 < slashedAmount w slash := by
  obtain ⟨w', h⟩ := exists_ok h
  obtain ⟨et, record, stored, dist, _, _, _, _, _, _, hpos, _⟩ := slashBond_ok h
  exact hpos

theorem slashStep_pools (h : slashStep hash w slash = .ok w') :
    ∃ dist, Distribution.build w.config.params (slashedAmount w slash) 0 none none = some dist ∧
      w'.config = w.config ∧ w'.pools.applied 0 none = some (hash dist) ∧
      if AlreadyApplied hash w slash then w'.pools = w.pools
      else w'.pools.sum = w.pools.sum + slashedAmount w slash := by
  obtain ⟨et, record, stored, dist, _, _, _, _, _, _, _, _, hbuild, rfl⟩ := slashBond_ok h
  have happlied : AlreadyApplied hash w slash ↔ w.pools.applied 0 none = some (hash dist) := by
    unfold AlreadyApplied
    rw [show Distribution.build w.config.params (slashedAmount w slash) 0 none none = some dist
      from hbuild]
    simp
  refine ⟨dist, hbuild, rfl, ?_, ?_⟩
  · dsimp only
    split
    · next hrec => exact hrec
    · exact SlashPools.applied_distribute _ _ _ _ _
  · by_cases hrec : w.pools.applied 0 none = some (hash dist)
    · rw [if_pos (happlied.mpr hrec)]
      exact if_pos hrec
    · rw [if_neg (fun happ => hrec (happlied.mp happ))]
      dsimp only
      rw [if_neg hrec, SlashPools.sum_distribute, (build_no_challenger hbuild).2]
      rfl

theorem slashStep_sum (h : slashStep hash w slash = .ok w') :
    w'.pools.sum = w.pools.sum + (slashedAmount w slash - lostOf hash w slash) := by
  obtain ⟨dist, _, _, _, hcase⟩ := slashStep_pools h
  unfold lostOf
  split at hcase
  · next happ => rw [hcase, if_pos happ, sub_self, add_zero]
  · next happ => rw [hcase, if_neg happ, sub_zero]

theorem lostOf_nonneg (h : (slashStep hash w slash).isOk) : 0 ≤ lostOf hash w slash := by
  unfold lostOf
  split
  · exact (slashStep_pos h).le
  · exact le_rfl

theorem lostOf_eq_zero (h : (slashStep hash w slash).isOk) :
    lostOf hash w slash = 0 ↔ ¬ AlreadyApplied hash w slash := by
  have hpos := slashStep_pos h
  unfold lostOf
  split
  · next happ => exact iff_of_false hpos.ne' (not_not.mpr happ)
  · next happ => exact iff_of_true rfl happ

end

/-! ## runs of slashes -/

section
variable (hash : Distribution → String) (w : World) (slashes : List BondSlash)

/-- The bonds lose what was slashed in every run, and the pools gain all of it when no slash finds
its own hash recorded. -/
theorem slashes_distributed_iff : SlashesDistributed hash w slashes ↔
    Along (slashStep hash) (fun w slash => ¬ AlreadyApplied hash w slash) w slashes := by
  have hlost : total (slashStep hash) (lostOf hash) w slashes = 0 ↔
      Along (slashStep hash) (fun w slash => ¬ AlreadyApplied hash w slash) w slashes := by
    have hany : ∀ w slash w', True → slashStep hash w slash = .ok w' → True :=
      fun _ _ _ _ _ => trivial
    rw [total_eq_zero_iff hany (fun w slash _ h => lostOf_nonneg h) trivial]
    exact along_congr hany (fun w slash _ h => lostOf_eq_zero h) trivial slashes
  have hsum : (run (slashStep hash) w slashes).pools.sum = w.pools.sum
      + (total (slashStep hash) slashedAmount w slashes
        - total (slashStep hash) (lostOf hash) w slashes) := by
    rw [← total_sub]
    exact run_change (fun w slash w' h => slashStep_sum h) w slashes
  constructor
  · intro h
    rw [← hlost]
    have hpools := h.pools
    omega
  · intro h
    refine ⟨fun workflowId => ?_, fun token => ?_, ?_, ?_⟩
    · exact run_change (V := fun w : World => w.bonds.slashed workflowId)
        (fun w slash w' hs => slashStep_slashed hs workflowId) w slashes
    · have hstep : ∀ w slash w', slashStep hash w slash = .ok w' →
          -w'.held.total token = -w.held.total token + slashedIn token w slash := by
        intro w slash w' hs
        rw [slashStep_held hs token]
        ring
      have hheld := run_change (V := fun w : World => -w.held.total token) hstep w slashes
      omega
    · rw [hsum, hlost.mpr h, sub_zero]
    · refine h.imp_ok fun w slash hok happ hsame => ?_
      obtain ⟨w', hs⟩ := exists_ok hok
      have hgain := slashStep_sum hs
      rw [after_ok hs] at hsame
      have hpos := slashStep_pos hok
      have hzero := (lostOf_eq_zero hok).mpr happ
      rw [hsame, hzero] at hgain
      omega

end

/-- two bonds of one amount on one escrow, in an otherwise empty world -/
def equalBonds : World :=
  let record (funder : Address) : BondRecord :=
    { bondId := ⟨0, funder, 0⟩, workflowId := 0, funder := funder, ordinal := 0, asset := "USDC"
      escalationFromLevel := 0, postedAmount := 10, postingFee := 0, custodiedAmount := 10
      remainingCustody := 10, status := .opened }
  { emptyWorld {} 0 with
    escrows :=
      { transfers := [(0, { token := "USDC", sender := "s", recipient := "r", amountAfterFee := 100
                            escrowState := .disputed })]
        nextWorkflowId := 1 }
    held :=
      { total := fun token => if token = "USDC" then 20 else 0
        positions := [(bondPosition "USDC" ⟨0, "a", 0⟩ 0 "a", 10),
          (bondPosition "USDC" ⟨0, "b", 0⟩ 0 "b", 10)] }
    bonds :=
      { records := [(⟨0, "a", 0⟩, record "a"), (⟨0, "b", 0⟩, record "b")]
        balances := fun workflowId funder =>
          if workflowId = 0 ∧ (funder = "a" ∨ funder = "b") then 10 else 0 } }

/-- The second of two bonds of one amount leaves custody and reaches no pool. -/
theorem slashes_distributed_counterexample :
    ¬ SlashesDistributed (fun dist => dist.grossAmount.repr) equalBonds [⟨0, "a"⟩, ⟨0, "b"⟩] :=
  fun h => absurd h.pools (by decide +kernel)

end PRF.Sew
