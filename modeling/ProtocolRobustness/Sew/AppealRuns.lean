import ProtocolRobustness.Sew.AppealBonds

/-!
# Runs of appeals against slashes

What each operation on slashes does to the bonds of appeals: an appeal posts one, a resolution ends
it, a vindication refunds the bonds of the slashes it voids, and proposals and executions touch none.

* `appealSlash_effect`, `resolveAppeal_effect`      an appeal against one slash;
* `memberAppeal_effect`, `memberResolution_effect`  an appeal of a member of a group;
* `vindicate_effect`                                a vindication, over its levels;
* `execution_effect`, `groupExecution_effect`       executions, with their clean-up;
* `appeal_bonds_conserved`                          every bond is accounted for after every run.
-/

namespace PRF.Sew
open Table Fallible Runs

section
variable {w w' w₁ : World} {slashId workflowId : ℕ} {caller : Address} {amount : ℤ}
  {entry entry' : SlashEntry} {custody : Option AppealCustody} {c : AppealCustody}
  {members : Address → Option AppealCustody} {t : Token}

/-! ## slots -/

theorem AppealBondsKept.slot (h : AppealBondsKept w) (hfound : w.getSlash slashId = some entry) :
    SlotKept (some entry) (w.slashes.custody slashId) (w.slashes.memberCustody slashId) := by
  have hslot := h.slots slashId
  rw [hfound] at hslot
  exact hslot

theorem SlotKept.single (h : SlotKept (some entry) custody members)
    (hkind : entry.kind ≠ .fraudGroup) :
    entry.appeals = [] ∧ (∀ a, members a = none) ∧ SingleKept entry custody := by
  unfold SlotKept at h
  dsimp only at h
  rw [if_neg hkind] at h
  exact h

theorem SlotKept.group (h : SlotKept (some entry) custody members)
    (hkind : entry.kind = .fraudGroup) : custody = none ∧ entry.resolver = none ∧
      entry.appealBondHeld = 0 ∧ (entry.appeals.map Prod.fst).Nodup ∧
      ∀ a, MemberKept entry.workflowId a (find entry.appeals a) (members a) := by
  unfold SlotKept at h
  dsimp only at h
  rw [if_pos hkind] at h
  exact h

theorem SlotKept.of_single (hkind : entry.kind ≠ .fraudGroup) (happeals : entry.appeals = [])
    (hmembers : ∀ a, members a = none) (hsingle : SingleKept entry custody) :
    SlotKept (some entry) custody members := by
  unfold SlotKept
  dsimp only
  rw [if_neg hkind]
  exact ⟨happeals, hmembers, hsingle⟩

/-- only the slash of a group has no resolver -/
theorem SlotKept.not_group (h : SlotKept (some entry) custody members) {resolver : Address}
    (hresolver : entry.resolver = some resolver) : entry.kind ≠ .fraudGroup := by
  intro hkind
  rw [(h.group hkind).2.1] at hresolver
  cases hresolver

/-- the custody of a bond knows its token -/
theorem SingleKept.some (h : SingleKept entry (some c)) : 0 < entry.appealBondHeld ∧
    entry.resolver = some c.resolver ∧
    ∃ t, c.token = some t ∧ c.bond = some ⟨c.workflowId, t, entry.appealBondHeld⟩ := by
  obtain ⟨hpos, _, hresolver, _, hamount, htoken⟩ := h
  obtain ⟨t, ht⟩ := Option.isSome_iff_exists.mp htoken
  refine ⟨hpos, hresolver, t, ht, ?_⟩
  unfold AppealCustody.bond
  rw [if_pos (hamount ▸ hpos), ht, hamount]
  rfl

theorem slotBond_none (hmembers : ∀ a, members a = none) (a : Address) :
    slotBond none members a = none := by
  unfold slotBond
  rw [hmembers]
  rfl

theorem slotBond_some (c : AppealCustody) (members : Address → Option AppealCustody) (a : Address) :
    slotBond (some c) members a = if c.resolver = a then c.bond else none := rfl

theorem appealBond_custody (hcustody : w'.slashes.custody
      = Function.update w.slashes.custody slashId custody)
    (hmembers : w'.slashes.memberCustody = w.slashes.memberCustody) (id : ℕ) (a : Address) :
    w'.appealBond id a = if id = slashId then slotBond custody (w.slashes.memberCustody slashId) a
      else w.appealBond id a := by
  unfold World.appealBond
  rw [hcustody, hmembers]
  by_cases hid : id = slashId
  · rw [hid, Function.update_self, if_pos rfl]
  · rw [Function.update_of_ne hid, if_neg hid]

theorem appealBond_memberCustody {member : Address}
    (hcustody : w'.slashes.custody = w.slashes.custody)
    (hmembers : w'.slashes.memberCustody = Function.update w.slashes.memberCustody slashId
      (Function.update (w.slashes.memberCustody slashId) member custody)) (id : ℕ) (a : Address) :
    w'.appealBond id a = if id = slashId ∧ a = member
      then slotBond (w.slashes.custody slashId) (fun _ => custody) a else w.appealBond id a := by
  unfold World.appealBond
  rw [hcustody, hmembers]
  by_cases hid : id = slashId
  · rw [hid, Function.update_self]
    by_cases ha : a = member
    · rw [if_pos ⟨rfl, ha⟩, ha]
      unfold slotBond
      rw [Function.update_self]
    · rw [if_neg fun hboth => ha hboth.2]
      unfold slotBond
      rw [Function.update_of_ne ha]
  · rw [Function.update_of_ne hid, if_neg fun hboth => hid hboth.1]

theorem bondEvent_none (event : ℕ → Address → AppealBond → AppealEvent) (slashId : ℕ)
    (actor : Option Address) (workflowId : ℕ) (token : Option Token) (hamount : amount ≤ 0) :
    bondEvent event slashId actor workflowId token amount = [] := by
  unfold bondEvent
  split
  · rw [if_neg (not_lt.mpr hamount)]
  · rfl

theorem bondEvent_some (event : ℕ → Address → AppealBond → AppealEvent) (slashId : ℕ)
    (actor : Address) (workflowId : ℕ) (token : Token) (hamount : 0 < amount) :
    bondEvent event slashId (some actor) workflowId (some token) amount
      = [event slashId actor ⟨workflowId, token, amount⟩] :=
  if_pos hamount

/-! ## an appeal against one slash -/

theorem appealSlash_effect (h : AppealBondsKept w)
    (hok : w.appealSlash workflowId caller slashId = .ok w') :
    AppealEffect w (bondEvent .posted slashId (some caller) workflowId
      ((w.getTransfer workflowId).map Transfer.token) (w.slashAppealBond workflowId)) w' := by
  obtain ⟨entry, hfound, hwf, hstatus, hresolver, _, hcase⟩ := appealSlash_ok hok
  have hslot := h.slot hfound
  have hkind := hslot.not_group hresolver
  obtain ⟨happeals, hmembers, hsingle⟩ := hslot.single hkind
  rcases hcase with ⟨hbond, rfl⟩ | ⟨hbond, hpost⟩
  · rw [bondEvent_none _ _ _ _ _ hbond]
    refine AppealEffect.sameBond (entry.appealed (w.slashAppealBond workflowId)) h hfound
      (.of_eq rfl rfl rfl) rfl ?_
    exact ⟨rfl, rfl, rfl, if_neg (not_lt.mpr hbond), rfl, nofun⟩
  · have hcustody : w.slashes.custody slashId = none := by
      cases hc : w.slashes.custody slashId with
      | none => rfl
      | some c =>
        rw [hc] at hsingle
        exact absurd hstatus hsingle.2.1
    rw [hcustody] at hsingle
    have hkeyed := (rewritten_appealSlash hfound hok).keyed h.keyed
    obtain ⟨t, htoken, _, hw'⟩ := postSlashAppealBond_ok hpost
    rw [htoken, bondEvent_some _ _ _ _ _ hbond]
    rw [htoken] at hw'
    have hnone : ∀ a, w.appealBond slashId a = none := by
      intro a
      unfold World.appealBond
      rw [hcustody]
      exact slotBond_none hmembers a
    have hpending : w'.slashes.pending
        = put w.slashes.pending slashId (entry.appealed (w.slashAppealBond workflowId)) := by
      rw [← hw']
      rfl
    have hcustody' : w'.slashes.custody = Function.update w.slashes.custody slashId
        (some ⟨caller, workflowId, w.slashAppealBond workflowId, some t⟩) := by
      rw [← hw']
      rfl
    have hmembers' : w'.slashes.memberCustody = w.slashes.memberCustody := by
      rw [← hw']
      rfl
    refine AppealEffect.of_posted h hkeyed (fun id => ?_) (by rw [← hw']; rfl) (hnone caller)
      (fun id a => ?_) (by rw [← hw']; rfl) (by rw [← hw']; rfl) (by rw [← hw']; rfl)
      (by rw [← hw']; rfl) ?_
    · rw [getSlash_put hpending, hcustody', hmembers']
      split
      · next hid =>
        rw [← hid, Function.update_self]
        refine SlotKept.of_single hkind happeals hmembers ?_
        have hheld : (entry.appealed (w.slashAppealBond workflowId)).appealBondHeld
            = w.slashAppealBond workflowId := if_pos hbond
        unfold SingleKept
        dsimp only
        rw [hheld]
        exact ⟨hbond, nofun, hresolver, hwf.symm, rfl, rfl⟩
      · next hid =>
        rw [Function.update_of_ne (Ne.symm hid)]
        exact h.slots id
    · rw [appealBond_custody hcustody' hmembers', slotBond_some]
      by_cases hid : id = slashId
      · subst hid
        by_cases ha : a = caller
        · rw [if_pos rfl, if_pos ha.symm, if_pos ⟨rfl, ha⟩]
          exact if_pos hbond
        · rw [if_pos rfl, if_neg (Ne.symm ha), if_neg fun hboth => ha hboth.2, hnone]
      · rw [if_neg hid, if_neg fun hboth => hid hboth.1]
    · rw [bondsHeld_put h.keyed hfound hpending]
      have hzero : entry.appealBondHeld = 0 := hsingle
      simp [SlashEntry.bonds, SlashEntry.appealed, hbond, hzero]

theorem single_ended (entry' : SlashEntry) {upheld : Bool} (h : AppealBondsKept w)
    (hfound : w.getSlash slashId = some entry) (hkind : entry.kind ≠ .fraudGroup)
    (hcustody : w.slashes.custody slashId = some c) (ht : c.token = some t)
    (hentry : entry'.kind = entry.kind ∧ entry'.appeals = entry.appeals ∧ entry'.appealBondHeld = 0)
    (hpending : w'.slashes.pending = put w.slashes.pending slashId entry')
    (hcustody' : w'.slashes.custody = Function.update w.slashes.custody slashId none)
    (hmembers' : w'.slashes.memberCustody = w.slashes.memberCustody)
    (hhistory : w'.slashes.history = w.slashes.history)
    (hforfeited : w'.slashes.forfeitedInsurance
      = w.slashes.forfeitedInsurance + if upheld then 0 else entry.appealBondHeld)
    (hheld : w'.held = w.held.move (appealPosition t c.workflowId slashId c.resolver)
      (-entry.appealBondHeld))
    (htotals : w'.totals = w.totals)
    (hclaims : w'.claims = if upheld
      then w.claims.record c.workflowId .bondRefund c.resolver entry.appealBondHeld
      else w.claims) :
    AppealEffect w [ended upheld slashId c.resolver ⟨c.workflowId, t, entry.appealBondHeld⟩] w' := by
  obtain ⟨happeals, hmembers, hsingle⟩ := (h.slot hfound).single hkind
  rw [hcustody] at hsingle
  obtain ⟨hpos, hresolver, t', ht', hbond⟩ := hsingle.some
  obtain rfl : t' = t := Option.some.inj (ht'.symm.trans ht)
  obtain ⟨hkind', happeals', hheld'⟩ := hentry
  have hput : (w.putSlash slashId entry').Keyed := h.keyed.putSlash slashId entry'
  refine AppealEffect.of_ended h (hput.of_slashes hpending) (fun id => ?_) hhistory ?_
    (fun id a => ?_) hheld htotals hclaims hforfeited ?_
  · rw [getSlash_put hpending, hcustody', hmembers']
    split
    · next hid =>
      rw [← hid, Function.update_self]
      exact SlotKept.of_single (hkind' ▸ hkind) (happeals'.trans happeals) hmembers hheld'
    · next hid =>
      rw [Function.update_of_ne (Ne.symm hid)]
      exact h.slots id
  · unfold World.appealBond
    rw [hcustody, slotBond_some, if_pos rfl, hbond]
  · rw [appealBond_custody hcustody' hmembers', slotBond_none hmembers]
    by_cases hid : id = slashId
    · subst hid
      rw [if_pos rfl]
      split
      · rfl
      · next hother =>
        unfold World.appealBond
        rw [hcustody, slotBond_some, if_neg fun hr => hother ⟨rfl, hr.symm⟩]
    · rw [if_neg hid, if_neg fun hboth => hid hboth.1]
  · rw [bondsHeld_put h.keyed hfound hpending]
    unfold SlashEntry.bonds
    rw [hheld', happeals']
    ring

theorem resolveAppeal_effect {caller : Option Address} {upheld provenance : Bool}
    (h : AppealBondsKept w)
    (hok : w.resolveAppeal workflowId caller upheld slashId provenance = .ok w') :
    AppealEffect w ((w.getSlash slashId).elim [] fun entry =>
      bondEvent (ended upheld) slashId (w.custodyResolver slashId entry)
        (w.custodyWorkflow slashId entry) (w.custodyToken slashId entry) entry.appealBondHeld)
      w' := by
  obtain ⟨entry, hfound, _, hkind, hstatus, hcase⟩ := resolveAppeal_ok hok
  obtain ⟨happeals, hmembers, hsingle⟩ := (h.slot hfound).single hkind
  rw [hfound, Option.elim_some]
  cases hcustody : w.slashes.custody slashId with
  | none =>
    rw [hcustody] at hsingle
    have hzero : entry.appealBondHeld = 0 := hsingle
    rw [bondEvent_none _ _ _ _ _ hzero.le]
    have hw' : (w.putSlash slashId (entry.resolved upheld)).setCustody slashId none = w' := by
      rcases hcase with ⟨_, hw'⟩ | ⟨hpos, _⟩ | ⟨hpos, _⟩
      · exact hw'
      · omega
      · omega
    subst hw'
    refine AppealEffect.updated (entry.resolved upheld) h hfound (.of_eq rfl rfl rfl) ?_ ?_ ?_
    · show ({ w.slashes with
        pending := put w.slashes.pending slashId (entry.resolved upheld)
        custody := Function.update w.slashes.custody slashId none } : Slashes) = _
      rw [← hcustody, Function.update_eq_self]
    · rw [hcustody]
      exact SlotKept.of_single hkind happeals hmembers rfl
    · simp [SlashEntry.bonds, SlashEntry.resolved, hzero]
  | some c =>
    rw [hcustody] at hsingle
    obtain ⟨hpos, hresolver, t, ht, _⟩ := hsingle.some
    have hr : w.custodyResolver slashId entry = some c.resolver := by
      simp [World.custodyResolver, hcustody]
    have hwf : w.custodyWorkflow slashId entry = c.workflowId := by
      simp [World.custodyWorkflow, hcustody]
    have htoken : w.custodyToken slashId entry = some t := by
      simp [World.custodyToken, hcustody, ht]
    rw [hr, hwf, htoken, bondEvent_some _ _ _ _ _ hpos]
    rw [hr, hwf, htoken] at hcase
    rcases hcase with ⟨hnot, _⟩ | ⟨_, rfl, hret⟩ | ⟨_, rfl, hret⟩
    · omega
    · obtain ⟨t', r, ht', hr', _, rfl⟩ := returnSlashAppealBond_ok hret
      obtain rfl := Option.some.inj ht'
      obtain rfl := Option.some.inj hr'
      exact single_ended (entry.resolved true) h hfound hkind hcustody ht ⟨rfl, rfl, rfl⟩ rfl rfl
        rfl rfl (add_zero _).symm rfl rfl rfl
    · obtain ⟨t', ht', _, rfl⟩ := forfeitSlashAppealBond_ok hret
      obtain rfl := Option.some.inj ht'
      exact single_ended (entry.resolved false) h hfound hkind hcustody ht ⟨rfl, rfl, rfl⟩ rfl rfl
        rfl rfl rfl rfl rfl rfl

/-! ## an appeal of a member -/

theorem SlotKept.of_group (hkind : entry.kind = .fraudGroup) (hresolver : entry.resolver = none)
    (hheld : entry.appealBondHeld = 0) (happeals : (entry.appeals.map Prod.fst).Nodup)
    (hmembers : ∀ a, MemberKept entry.workflowId a (find entry.appeals a) (members a)) :
    SlotKept (some entry) none members := by
  unfold SlotKept
  dsimp only
  rw [if_pos hkind]
  exact ⟨rfl, hresolver, hheld, happeals, hmembers⟩

theorem SlotKept.withAppeal {member : Address} {appeal : MemberAppeal}
    (h : SlotKept (some entry) custody members) (hkind : entry.kind = .fraudGroup)
    {new : Option AppealCustody} (hnew : MemberKept entry.workflowId member (some appeal) new) :
    SlotKept (some (entry.withAppeal member appeal)) custody
      (Function.update members member new) := by
  obtain ⟨rfl, hresolver, hheld, happeals, hmembers⟩ := h.group hkind
  refine SlotKept.of_group hkind hresolver hheld (nodup_put happeals _ _) fun a => ?_
  show MemberKept entry.workflowId a (find (put entry.appeals member appeal) a) _
  rw [find_put]
  by_cases ha : member = a
  · rw [if_pos ha, ← ha, Function.update_self]
    exact hnew
  · rw [if_neg ha, Function.update_of_ne (Ne.symm ha)]
    exact hmembers a

theorem bonds_withAppeal (happeals : (entry.appeals.map Prod.fst).Nodup) (member : Address)
    (appeal : MemberAppeal) : (entry.withAppeal member appeal).bonds = entry.bonds
      + (appeal.appealBondHeld
        - ((find entry.appeals member).map MemberAppeal.appealBondHeld).getD 0) := by
  show entry.appealBondHeld + sumBy _ (put entry.appeals member appeal) = _
  rw [sumBy_put happeals]
  unfold SlashEntry.bonds entryBy
  ring

structure MemberWritten (w w' : World) (slashId : ℕ) (entry : SlashEntry) (member : Address)
    (appeal : MemberAppeal) (new : Option AppealCustody) : Prop where
  pending : w'.slashes.pending = put w.slashes.pending slashId (entry.withAppeal member appeal)
  custody : w'.slashes.custody = w.slashes.custody
  members : w'.slashes.memberCustody = Function.update w.slashes.memberCustody slashId
    (Function.update (w.slashes.memberCustody slashId) member new)
  history : w'.slashes.history = w.slashes.history

section
variable {member : Address} {appeal appeal' : MemberAppeal}

theorem MemberWritten.slots (hw : MemberWritten w w' slashId entry member appeal custody)
    (h : AppealBondsKept w) (hfound : w.getSlash slashId = some entry)
    (hkind : entry.kind = .fraudGroup)
    (hnew : MemberKept entry.workflowId member (some appeal) custody) (id : ℕ) :
    SlotKept (w'.getSlash id) (w'.slashes.custody id) (w'.slashes.memberCustody id) := by
  rw [getSlash_put hw.pending, hw.custody, hw.members]
  split
  · next hid =>
    rw [← hid, Function.update_self]
    exact (h.slot hfound).withAppeal hkind hnew
  · next hid =>
    rw [Function.update_of_ne (Ne.symm hid)]
    exact h.slots id

theorem MemberWritten.keyed (hw : MemberWritten w w' slashId entry member appeal custody)
    (h : AppealBondsKept w) : w'.Keyed := by
  have hput : (w.putSlash slashId (entry.withAppeal member appeal)).Keyed :=
    h.keyed.putSlash slashId _
  exact hput.of_slashes hw.pending

theorem MemberWritten.bondsHeld (hw : MemberWritten w w' slashId entry member appeal custody)
    (h : AppealBondsKept w) (hfound : w.getSlash slashId = some entry)
    (hkind : entry.kind = .fraudGroup) : w'.bondsHeld = w.bondsHeld + (appeal.appealBondHeld
      - ((find entry.appeals member).map MemberAppeal.appealBondHeld).getD 0) := by
  rw [bondsHeld_put h.keyed hfound hw.pending,
    bonds_withAppeal ((h.slot hfound).group hkind).2.2.2.1]
  ring

theorem MemberWritten.appealBond (hw : MemberWritten w w' slashId entry member appeal custody)
    (h : AppealBondsKept w) (hfound : w.getSlash slashId = some entry)
    (hkind : entry.kind = .fraudGroup) (id : ℕ) (a : Address) :
    w'.appealBond id a = if id = slashId ∧ a = member then custody.bind AppealCustody.bond
      else w.appealBond id a := by
  rw [appealBond_memberCustody hw.custody hw.members, ((h.slot hfound).group hkind).1]
  simp only [slotBond]

theorem MemberWritten.quiet (hw : MemberWritten w w' slashId entry member appeal custody)
    (h : AppealBondsKept w) (hfound : w.getSlash slashId = some entry)
    (hkind : entry.kind = .fraudGroup) (hheld : w'.held = w.held) (htotals : w'.totals = w.totals)
    (hclaims : w'.claims = w.claims)
    (hforfeited : w'.slashes.forfeitedInsurance = w.slashes.forfeitedInsurance)
    (hnew : MemberKept entry.workflowId member (some appeal) custody)
    (hold : w.appealBond slashId member = none) (hbond : custody.bind AppealCustody.bond = none)
    (hamount : appeal.appealBondHeld
      = ((find entry.appeals member).map MemberAppeal.appealBondHeld).getD 0) :
    AppealEffect w [] w' := by
  have hledgers : LedgersKept w w' := .of_eq hheld htotals hclaims
  have hsame : ∀ id a, w'.appealBond id a = w.appealBond id a := by
    intro id a
    rw [hw.appealBond h hfound hkind, hbond]
    split
    · next hboth => rw [hboth.1, hboth.2, hold]
    · rfl
  have hbonds : w'.bondsHeld = w.bondsHeld := by
    rw [hw.bondsHeld h hfound hkind, hamount]
    ring
  refine ⟨⟨hw.keyed h, hledgers.heldKeys h.heldKeys, hw.slots h hfound hkind hnew, ?_,
    fun t wf id a => ?_⟩, fun id a => ?_, fun t => ?_, fun wf a => ?_, ?_, ?_, ?_⟩
  · rw [hw.history]
    exact h.history
  · rw [hledgers.position _ rfl, h.positions, hsame]
  · rw [hsame]
    rfl
  · rw [htotals]
    exact (add_zero _).symm
  · rw [hclaims]
    exact (add_zero _).symm
  · rw [hforfeited]
    exact (add_zero _).symm
  · rw [hbonds]
    exact (add_zero _).symm
  · rw [hledgers.appealPositions h.heldKeys]
    exact (add_zero _).symm

end

theorem slashAppealBond_nonneg (w : World) (workflowId : ℕ) : 0 ≤ w.slashAppealBond workflowId := by
  unfold World.slashAppealBond
  dsimp only
  split
  · next hpos => exact hpos.le
  · split
    · split
      · next hpos =>
        unfold bpsAmount
        rw [Int.tdiv_eq_ediv_of_nonneg (mul_nonneg hpos.1.le hpos.2.le)]
        exact Int.ediv_nonneg (mul_nonneg hpos.1.le hpos.2.le) (by norm_num)
      · exact le_rfl
    · exact le_rfl

theorem memberAppeal_effect {allocate : GroupAllocator} (h : AppealBondsKept w)
    (hok : w.appealFraudGroupSlash allocate workflowId caller slashId = .ok w') :
    AppealEffect w (bondEvent .posted slashId (some caller) workflowId
      ((w.getTransfer workflowId).map Transfer.token) (w.slashAppealBond workflowId)) w' := by
  obtain ⟨entry, debit, hfound, hwf, hkind, _, _, _, hfresh, appealed, happealed, hcase⟩ :=
    appealFraudGroupSlash_ok hok
  obtain ⟨_, _, _, _, hmembers⟩ := (h.slot hfound).group hkind
  have hnone : w.slashes.memberCustody slashId caller = none := by
    have hkept := hmembers caller
    rw [hfresh] at hkept
    cases hc : w.slashes.memberCustody slashId caller with
    | none => rfl
    | some c =>
      rw [hc] at hkept
      cases hkept
  have hold : w.appealBond slashId caller = none := by
    unfold World.appealBond slotBond
    rw [((h.slot hfound).group hkind).1, hnone]
    rfl
  rcases hcase with ⟨hbond, rfl⟩ | ⟨hbond, hpost⟩
  · rw [bondEvent_none _ _ _ _ _ hbond]
    have hzero : w.slashAppealBond workflowId = 0 := le_antisymm hbond (slashAppealBond_nonneg _ _)
    rw [hzero] at happealed
    have hwritten : MemberWritten w appealed slashId entry caller (memberAppeal debit 0)
        (some ⟨caller, workflowId, 0, (w.getTransfer workflowId).map Transfer.token⟩) := by
      rw [happealed]
      exact ⟨rfl, rfl, rfl, rfl⟩
    refine hwritten.quiet h hfound hkind (by rw [happealed]; rfl) (by rw [happealed]; rfl)
      (by rw [happealed]; rfl) (by rw [happealed]; rfl) ?_ hold rfl ?_
    · exact ⟨rfl, rfl, hwf.symm, rfl, le_rfl, fun hpos => absurd hpos (lt_irrefl _)⟩
    · rw [hfresh]
      rfl
  · obtain ⟨t, htoken, _, hw'⟩ := postSlashAppealBond_ok hpost
    rw [htoken] at happealed
    subst happealed
    rw [htoken, bondEvent_some _ _ _ _ _ hbond]
    have hwritten : MemberWritten w w' slashId entry caller
        (memberAppeal debit (w.slashAppealBond workflowId))
        (some ⟨caller, workflowId, w.slashAppealBond workflowId, some t⟩) := by
      rw [← hw']
      exact ⟨rfl, rfl, rfl, rfl⟩
    refine AppealEffect.of_posted h (hwritten.keyed h) (hwritten.slots h hfound hkind ?_)
      hwritten.history hold (fun id a => ?_) (by rw [← hw']; rfl) (by rw [← hw']; rfl)
      (by rw [← hw']; rfl) (by rw [← hw']; rfl) ?_
    · exact ⟨rfl, rfl, hwf.symm, rfl, hbond.le, fun _ => rfl⟩
    · rw [hwritten.appealBond h hfound hkind]
      have hnew : (some (⟨caller, workflowId, w.slashAppealBond workflowId, some t⟩ :
          AppealCustody)).bind AppealCustody.bond
          = some ⟨workflowId, t, w.slashAppealBond workflowId⟩ := if_pos hbond
      rw [hnew]
    · rw [hwritten.bondsHeld h hfound hkind, hfresh]
      exact congrArg (fun x => w.bondsHeld + x) (sub_zero _)

theorem memberResolution_effect {caller : Option Address} {member : Address}
    {upheld provenance : Bool} (h : AppealBondsKept w)
    (hok : w.resolveFraudGroupAppeal workflowId caller member upheld slashId provenance = .ok w') :
    AppealEffect w (bondEvent (ended upheld) slashId (some member) workflowId
      ((w.slashes.memberCustody slashId member).bind AppealCustody.token)
      (w.memberBond slashId member)) w' := by
  obtain ⟨entry, appeal, hfound, hwf, hkind, happeal, hstatus, resolved, hresolved, hcase⟩ :=
    resolveFraudGroupAppeal_ok hok
  obtain ⟨hcustody, _, _, _, hmembers⟩ := (h.slot hfound).group hkind
  have hkept := hmembers member
  rw [happeal] at hkept
  cases hc : w.slashes.memberCustody slashId member with
  | none =>
    rw [hc] at hkept
    exact absurd hstatus hkept.2
  | some c =>
    rw [hc] at hkept
    obtain ⟨_, hmember, hworkflow, hamount, hnonneg, htoken⟩ := hkept
    have hbondOf : w.memberBond slashId member = appeal.appealBondHeld := by
      unfold World.memberBond
      rw [hc]
      exact hamount
    have hheldOf : ((find entry.appeals member).map MemberAppeal.appealBondHeld).getD 0
        = appeal.appealBondHeld := by
      rw [happeal]
      rfl
    have hold : w.appealBond slashId member = c.bond := by
      unfold World.appealBond slotBond
      rw [hcustody, hc]
      rfl
    have hnew : MemberKept entry.workflowId member (some (appeal.resolved upheld)) none := by
      refine ⟨rfl, ?_⟩
      cases upheld <;> nofun
    have hwritten : ∀ w₁ : World, w₁.slashes.pending = resolved.slashes.pending →
        w₁.slashes.custody = resolved.slashes.custody →
        w₁.slashes.memberCustody = resolved.slashes.memberCustody →
        w₁.slashes.history = resolved.slashes.history →
        MemberWritten w w₁ slashId entry member (appeal.resolved upheld) none := by
      intro w₁ h₁ h₂ h₃ h₄
      rw [hresolved] at h₁ h₂ h₃ h₄
      exact ⟨h₁, h₂, h₃, h₄⟩
    rw [hbondOf, hc] at hcase
    rw [hbondOf]
    by_cases hpos : 0 < appeal.appealBondHeld
    · obtain ⟨t, ht⟩ := Option.isSome_iff_exists.mp (htoken hpos)
      have hbond : c.bond = some ⟨workflowId, t, appeal.appealBondHeld⟩ := by
        unfold AppealCustody.bond
        rw [if_pos (hamount ▸ hpos), ht, hamount, hworkflow, hwf]
        rfl
      rw [Option.bind_some, ht, bondEvent_some _ _ _ _ _ hpos]
      rw [Option.bind_some, ht] at hcase
      have hbonds : ∀ {w₁ : World},
          MemberWritten w w₁ slashId entry member (appeal.resolved upheld) none →
          w₁.bondsHeld = w.bondsHeld - appeal.appealBondHeld := by
        intro w₁ hw₁
        rw [hw₁.bondsHeld h hfound hkind, hheldOf]
        show w.bondsHeld + (0 - appeal.appealBondHeld) = _
        ring
      rcases hcase with ⟨hnot, _⟩ | ⟨_, rfl, hret⟩ | ⟨_, rfl, hret⟩
      · omega
      · obtain ⟨t', r, ht', hr', _, hw'⟩ := returnSlashAppealBond_ok hret
        obtain rfl := Option.some.inj ht'
        obtain rfl := Option.some.inj hr'
        have hw := hwritten w' (by rw [← hw']) (by rw [← hw']) (by rw [← hw'])
          (by rw [← hw'])
        exact AppealEffect.of_ended h (hw.keyed h) (hw.slots h hfound hkind hnew) hw.history
          (hold.trans hbond) (fun id a => hw.appealBond h hfound hkind id a)
          (by rw [← hw', hresolved]; rfl) (by rw [← hw', hresolved]; rfl)
          (by rw [← hw', hresolved]; rfl) (by rw [← hw', hresolved]; exact (add_zero _).symm)
          (hbonds hw)
      · obtain ⟨t', ht', _, hw'⟩ := forfeitSlashAppealBond_ok hret
        obtain rfl := Option.some.inj ht'
        have hw := hwritten w' (by rw [← hw']; rfl) (by rw [← hw']; rfl)
          (by rw [← hw']; rfl) (by rw [← hw']; rfl)
        exact AppealEffect.of_ended h (hw.keyed h) (hw.slots h hfound hkind hnew) hw.history
          (hold.trans hbond) (fun id a => hw.appealBond h hfound hkind id a)
          (by rw [← hw', hresolved]; rfl) (by rw [← hw', hresolved]; rfl)
          (by rw [← hw', hresolved]; rfl) (by rw [← hw', hresolved]; rfl) (hbonds hw)
    · have hzero : appeal.appealBondHeld = 0 := le_antisymm (not_lt.mp hpos) hnonneg
      rw [bondEvent_none _ _ _ _ _ hzero.le]
      have hw' : resolved = w' := by
        rcases hcase with ⟨_, hw'⟩ | ⟨hpos', _⟩ | ⟨hpos', _⟩
        · exact hw'
        · exact absurd hpos' hpos
        · exact absurd hpos' hpos
      have hw := hwritten w' (by rw [hw']) (by rw [hw']) (by rw [hw']) (by rw [hw'])
      rw [hresolved] at hw'
      refine hw.quiet h hfound hkind (by rw [← hw']; rfl) (by rw [← hw']; rfl)
        (by rw [← hw']; rfl) (by rw [← hw']; rfl) hnew ?_ rfl (hzero.symm.trans hheldOf.symm)
      rw [hold]
      unfold AppealCustody.bond
      rw [if_neg (by omega)]

/-! ## vindications -/

theorem updateSlash_effect (w₁ : World) (f : SlashEntry → SlashEntry) (h : AppealBondsKept w)
    (hledgers : LedgersKept w w₁) (hslashes : w₁.slashes = w.slashes)
    (hf : ∀ e, SameBond e (f e)) : AppealEffect w [] (w₁.updateSlash slashId f) := by
  have hsame : ∀ id, w₁.getSlash id = w.getSlash id := by
    intro id
    unfold World.getSlash
    rw [hslashes]
  rcases updateSlash_cases w₁ slashId f with ⟨e, he, hw'⟩ | ⟨e, he, hw'⟩ | ⟨_, _, hw'⟩
  · rw [hw']
    refine AppealEffect.sameBond (f e) h ((hsame slashId).symm.trans he)
      (hledgers.trans (.of_eq rfl rfl rfl)) ?_ (hf e)
    show ({ w₁.slashes with pending := put w₁.slashes.pending slashId (f e) } : Slashes) = _
    rw [hslashes]
  · rw [hw']
    rw [hslashes] at he ⊢
    refine AppealEffect.quiet h h.keyed (hledgers.trans (.of_eq rfl rfl rfl)) rfl rfl rfl h.slots
      (fun id e' he' => ?_) rfl
    rw [find_put] at he'
    split at he'
    · obtain rfl := Option.some.inj he'
      rw [(hf e).held]
      exact h.history slashId e he
    · exact h.history id e' he'
  · rw [hw']
    refine AppealEffect.quiet h (h.keyed.of_slashes (congrArg Slashes.pending hslashes)) hledgers
      (congrArg Slashes.custody hslashes) (congrArg Slashes.memberCustody hslashes)
      (congrArg Slashes.forfeitedInsurance hslashes) (fun id => hsame id ▸ h.slots id) ?_ ?_
    · rw [hslashes]
      exact h.history
    · unfold World.bondsHeld
      rw [hslashes]

theorem updateSlash_found (hfound : w.getSlash slashId = some entry)
    (f : SlashEntry → SlashEntry) : w.updateSlash slashId f = w.putSlash slashId (f entry) := by
  unfold World.updateSlash
  rw [hfound]

theorem vindicateSlash_effect (h : AppealBondsKept w)
    (hentry : w.vindicatedEntry slashId = some entry)
    (hok : w.vindicateSlash slashId entry = .ok w') :
    AppealEffect w (w.voidEvents slashId entry) w' := by
  obtain ⟨hrev, hwhere⟩ := vindicatedEntry_cases hentry
  unfold World.vindicateSlash at hok
  unfold World.voidEvents
  split at hok
  · next hnone =>
    rw [hnone, ← Except.ok.inj hok]
    split
    · exact .refl h
    · exact .refl h
  · next resolver hresolver =>
    rw [hresolver]
    dsimp only at hok
    split at hok
    · next henforced =>
      rw [if_pos henforced]
      split at hok
      · rw [← Except.ok.inj hok]
        exact updateSlash_effect (w.creditVindicated resolver (entry.actualAmount.getD entry.amount))
          (fun e => { e with status := .reversedWithCredit }) h (.of_eq rfl rfl rfl) rfl
          fun e => ⟨rfl, rfl, rfl, rfl, rfl, nofun⟩
      · rw [← Except.ok.inj hok]
        exact .refl h
    · next henforced =>
      rw [if_neg henforced]
      split at hok
      · next hpos =>
        -- the history has no bonds, so the entry is in the registry
        have hfound : w.getSlash slashId = some entry := by
          rcases hwhere with hfound | hold
          · exact hfound
          · exact absurd (h.history slashId entry hold) hpos.ne'
        have hkind := (h.slot hfound).not_group hresolver
        have hsingle := ((h.slot hfound).single hkind).2.2
        cases hcustody : w.slashes.custody slashId with
        | none =>
          rw [hcustody] at hsingle
          exact absurd (hsingle : entry.appealBondHeld = 0) hpos.ne'
        | some c =>
          rw [hcustody] at hsingle hok
          obtain ⟨_, hagainst, t, ht, _⟩ := hsingle.some
          obtain rfl : resolver = c.resolver := Option.some.inj (hresolver.symm.trans hagainst)
          have htoken : ((some c).bind AppealCustody.token <|> entry.token) = some t := by
            simp [ht]
          rw [htoken] at hok ⊢
          simp only [Option.map_some, Option.getD_some] at hok ⊢
          rw [bondEvent_some _ _ _ _ _ hpos]
          obtain ⟨w₁, h₁, rfl⟩ := map_eq_ok.mp hok
          obtain ⟨t', r, ht', hr', _, rfl⟩ := returnSlashAppealBond_ok h₁
          obtain rfl := Option.some.inj ht'
          obtain rfl := Option.some.inj hr'
          have hvoided : ∀ f, w.updateSlash slashId f = w.putSlash slashId (f entry) :=
            updateSlash_found hfound
          have hreturned : ∀ (w₂ : World) f, w₂.slashes.pending
              = put w.slashes.pending slashId { entry with status := .reversed } →
              w₂.updateSlash slashId f
                = w₂.putSlash slashId (f { entry with status := .reversed }) := by
            intro w₂ f hw₂
            apply updateSlash_found
            rw [getSlash_put hw₂, if_pos rfl]
          rw [hvoided, hreturned _ _ rfl]
          show AppealEffect w
            [ended true slashId c.resolver ⟨c.workflowId, t, entry.appealBondHeld⟩] _
          refine single_ended { entry with status := .reversed, appealBondHeld := 0 } h hfound hkind
            hcustody ht ⟨rfl, rfl, rfl⟩ ?_ rfl rfl rfl (add_zero _).symm rfl rfl rfl
          exact put_put _ _ _ _
      · next hpos =>
        rw [bondEvent_none _ _ _ _ _ (not_lt.mp hpos), ← Except.ok.inj hok]
        exact updateSlash_effect w (fun e => { e with status := .reversed }) h (.of_eq rfl rfl rfl)
          rfl fun e => ⟨rfl, rfl, rfl, rfl, rfl, nofun⟩

theorem vindicateLevel_effect {isRelease : Bool} {level : ℕ} (h : AppealBondsKept w)
    (hok : World.vindicateLevel workflowId isRelease w level = .ok w') :
    AppealEffect w ((w.vindicatedSlash workflowId isRelease level).elim [] fun e =>
      w.voidEvents e.1 e.2) w' := by
  rcases vindicateLevel_ok hok with ⟨hnone, rfl⟩ | ⟨slashId, entry, hsome, hslash⟩
  · rw [hnone]
    exact .refl h
  · rw [hsome]
    exact vindicateSlash_effect h (vindicatedSlash_entry hsome) hslash

theorem vindicate_effect {isRelease : Bool} (levels : List ℕ) (h : AppealBondsKept w)
    (hok : levels.foldlM (World.vindicateLevel workflowId isRelease) w = .ok w') :
    AppealEffect w (World.vindicateEvents workflowId isRelease levels w) w' := by
  induction levels generalizing w with
  | nil =>
    rw [← Except.ok.inj hok]
    exact .refl h
  | cons level levels ih =>
    rw [List.foldlM_cons, bind_eq_ok] at hok
    obtain ⟨w₁, h₁, hrest⟩ := hok
    have hlevel := vindicateLevel_effect h h₁
    rw [World.vindicateEvents, h₁]
    exact hlevel.trans (ih hlevel.kept hrest)

/-! ## proposals and executions -/

theorem AppealEffect.of_slashes (h : AppealBondsKept w) (hledgers : LedgersKept w w')
    (hslashes : w'.slashes = w.slashes) : AppealEffect w [] w' := by
  refine AppealEffect.quiet h (h.keyed.of_slashes (congrArg Slashes.pending hslashes)) hledgers
    (congrArg Slashes.custody hslashes) (congrArg Slashes.memberCustody hslashes)
    (congrArg Slashes.forfeitedInsurance hslashes) (fun id => ?_) ?_ ?_
  · unfold World.getSlash
    rw [hslashes]
    exact h.slots id
  · rw [hslashes]
    exact h.history
  · unfold World.bondsHeld
    rw [hslashes]

theorem insertSlash_effect (h : AppealBondsKept w) (hok : w.insertSlash entry = .ok w')
    (hheld : entry.appealBondHeld = 0) (happeals : entry.appeals = [])
    (hgroup : entry.kind = .fraudGroup → entry.resolver = none) : AppealEffect w [] w' := by
  have hkeyed := h.keyed.insertSlash hok
  obtain ⟨_, _, hfresh, _, rfl⟩ := insertSlash_ok.mp hok
  have hslot := h.slots entry.slashId
  rw [hfresh] at hslot
  obtain ⟨hcustody, hmembers⟩ := hslot
  have hpending : (w.withSlash entry).slashes.pending
      = put w.slashes.pending entry.slashId entry := rfl
  refine AppealEffect.quiet h hkeyed (.of_eq rfl rfl rfl) rfl rfl rfl (fun id => ?_) h.history ?_
  · rw [getSlash_put hpending]
    split
    · next hid =>
      rw [← hid, hcustody]
      by_cases hkind : entry.kind = .fraudGroup
      · refine SlotKept.of_group hkind (hgroup hkind) hheld ?_ fun a => ?_
        · rw [happeals]
          exact List.nodup_nil
        · rw [happeals, hmembers]
          trivial
      · exact SlotKept.of_single hkind happeals hmembers hheld
    · exact h.slots id
  · show sumBy _ (put w.slashes.pending entry.slashId entry) = _
    have hzero : entry.bonds = 0 := by
      unfold SlashEntry.bonds
      rw [hheld, happeals]
      rfl
    rw [sumBy_put h.keyed, entryBy_none hfresh, hzero, sub_zero, add_zero]
    rfl

variable {hash : Distribution → String}

theorem cleansUp_effect (hash : Distribution → String) :
    CleansUp hash fun w _ w' => AppealBondsKept w → AppealEffect w [] w' where
  refl w := .refl
  trans h₁ h₂ h := (h₁ h).trans (h₂ (h₁ h).kept)
  cleanedUp := by
    intro w w' workflowId slashId slash hkeyed hfound hexpired hok h
    have hwhen : slash.status = .pending ∧ slash.kind = .reversal := by
      unfold World.expiredReversal at hexpired
      simp only [Bool.and_eq_true, decide_eq_true_eq] at hexpired
      exact ⟨hexpired.1.1.1, hexpired.1.2⟩
    have hkind : slash.kind ≠ .fraudGroup := by
      rw [hwhen.2]
      nofun
    obtain ⟨happeals, hmembers, hsingle⟩ := (h.slot hfound).single hkind
    have hcustody : w.slashes.custody slashId = none := by
      cases hc : w.slashes.custody slashId with
      | none => rfl
      | some c =>
        rw [hc] at hsingle
        exact absurd hwhen.1 hsingle.2.1
    rw [hcustody] at hsingle
    have hzero : slash.appealBondHeld = 0 := hsingle
    obtain ⟨slash', w₁, hheld', hledgers, hslashes, rfl⟩ : ∃ (slash' : SlashEntry) (w₁ : World),
        slash'.appealBondHeld = 0 ∧ LedgersKept w w₁ ∧ w₁.slashes = w.slashes ∧
        w₁.archiveSlash slashId slash' = w' := by
      rcases cleanupSlash_ok hok with ⟨_, w₁, _, _, _, _, h₁, hw'⟩ | ⟨_, hw'⟩
      · refine ⟨_, w₁, ?_, slashResolverStake_ledgers h₁,
          (docket_eq.mp (slashResolverStake_ok h₁).2.2.2.1).2.2.2.2.1, hw'⟩
        exact hzero
      · refine ⟨_, w, ?_, .of_eq rfl rfl rfl, rfl, hw'⟩
        exact hzero
    have hpending : (w₁.archiveSlash slashId slash').slashes.pending
        = w.slashes.pending.filter fun e => e.1 ≠ slashId := by
      show w₁.slashes.pending.filter _ = _
      rw [hslashes]
    have hcustody' : w₁.slashes.custody = w.slashes.custody := congrArg Slashes.custody hslashes
    have hmembers' : w₁.slashes.memberCustody = w.slashes.memberCustody :=
      congrArg Slashes.memberCustody hslashes
    have hforfeited : w₁.slashes.forfeitedInsurance = w.slashes.forfeitedInsurance :=
      congrArg Slashes.forfeitedInsurance hslashes
    refine AppealEffect.quiet h ?_ (hledgers.trans (.of_eq rfl rfl rfl)) hcustody' hmembers'
      hforfeited (fun id => ?_) (fun id e he => ?_) ?_
    · unfold World.Keyed
      rw [hpending]
      exact nodup_filter hkeyed _
    · have hfind := find_filter (fun k => decide (k ≠ slashId)) w.slashes.pending id
      unfold World.getSlash
      rw [hpending, hfind]
      by_cases hid : id = slashId
      · rw [if_neg (by simpa using hid), hid]
        exact ⟨hcustody, hmembers⟩
      · rw [if_pos (by simpa using hid)]
        exact h.slots id
    · have he' : find (put w₁.slashes.history slashId slash') id = some e := he
      rw [find_put, hslashes] at he'
      split at he'
      · exact Option.some.inj he' ▸ hheld'
      · exact h.history id e he'
    · unfold World.bondsHeld
      have hbonds : slash.bonds = 0 := by
        unfold SlashEntry.bonds
        rw [hzero, happeals]
        rfl
      have hone : sumBy (fun k (e : SlashEntry) => if decide (k ≠ slashId) then 0 else e.bonds)
          w.slashes.pending = 0 := by
        rw [sumBy_eq_entryBy (k := slashId) hkeyed fun e _ he => if_pos (by simpa using he),
          entryBy_some hfound]
        simp [hbonds]
      rw [hpending, sumBy_filter (fun _ (e : SlashEntry) => e.bonds) (fun k => decide (k ≠ slashId)),
        hone, sub_zero]

theorem cleanup_effect (h : AppealBondsKept w)
    (hok : w.cleanupOrphanedSlashes hash workflowId = .ok w') : AppealEffect w [] w' :=
  ((cleansUp_effect hash).moved_cleanup hok h.keyed).2 h

theorem execution_effect (h : AppealBondsKept w)
    (hok : w.executeFraudSlash hash workflowId slashId = .ok w') : AppealEffect w [] w' := by
  obtain ⟨entry, resolver, w₁, slashed, hfound, _, _, _, _, _, _, h₁, hclean⟩ :=
    executeFraudSlash_ok hok
  have hexecuted : AppealEffect w [] ((w₁.freeze resolver w.freezeUntil).setEpoch resolver
      (w.resolverEpochState resolver).1 ((w.resolverEpochState resolver).2 + slashed.total)) := by
    refine AppealEffect.sameBond entry.executed h hfound ?_
      (docket_eq.mp (slashResolverStake_ok h₁).2.2.2.1).2.2.2.2.1 ⟨rfl, rfl, rfl, rfl, rfl, nofun⟩
    have hput : LedgersKept w (w.putSlash slashId entry.executed) := .of_eq rfl rfl rfl
    exact (hput.trans (slashResolverStake_ledgers h₁)).trans (.of_eq rfl rfl rfl)
  exact hexecuted.trans (cleanup_effect hexecuted.kept hclean)

theorem payMember_ledgers {time : ℤ} {acc acc' : World.GroupExecution} {row : Address × ℤ}
    (hok : World.payMember hash workflowId entry time acc row = .ok acc') :
    LedgersKept acc.world acc'.world := by
  rcases payMember_ok hok with ⟨_, _, rfl⟩ | ⟨_, _, rfl⟩ | ⟨_, _, rfl⟩ | ⟨w₁, _, _, _, _, _, h₁, rfl⟩
  · exact .of_eq rfl rfl rfl
  · exact .of_eq rfl rfl rfl
  · exact .of_eq rfl rfl rfl
  · exact (slashResolverStake_ledgers h₁).trans (.of_eq rfl rfl rfl)

theorem groupExecution_effect {allocate : GroupAllocator} (h : AppealBondsKept w)
    (hok : w.executeFraudGroupSlash allocate hash workflowId slashId = .ok w') :
    AppealEffect w [] w' := by
  obtain ⟨entry, allocations, done, hfound, _, _, hstatus, _, _, _, hdone, hclean⟩ :=
    executeFraudGroupSlash_ok hok
  have hledgers : LedgersKept w done.world :=
    foldlM_invariant (I := fun acc => LedgersKept w acc.world)
      (fun acc row acc' _ hacc hrow => hacc.trans (payMember_ledgers hrow)) (.of_eq rfl rfl rfl) hdone
  have hexecuted : AppealEffect w []
      (done.world.putSlash slashId (entry.groupExecuted done.payments done.blocked)) := by
    refine AppealEffect.sameBond (entry.groupExecuted done.payments done.blocked) h hfound
      (hledgers.trans (.of_eq rfl rfl rfl)) ?_ ⟨rfl, rfl, rfl, rfl, rfl, fun _ => hstatus⟩
    have hslashes : done.world.slashes = w.slashes := payMember_slashes hdone
    unfold World.putSlash
    rw [hslashes]
  exact hexecuted.trans (cleanup_effect hexecuted.kept hclean)

/-! ## steps -/

theorem appealStep_effect {env : Environment} {op : AppealOperation} (h : AppealBondsKept w)
    (hok : appealStep env w op = .ok w') : AppealEffect w (w.appealEvents op) w' := by
  cases op with
  | vindicate workflowId isRelease => exact vindicate_effect _ h hok
  | on op hon =>
    cases op with
    | proposeFraudSlash workflowId caller resolver amount =>
      exact insertSlash_effect h (proposeFraudSlash_ok hok).2.2 rfl rfl nofun
    | proposeFraudGroupSlash workflowId caller ids amount incidentFound =>
      exact insertSlash_effect h (proposeFraudGroupSlash_ok hok).2.2.2.2 rfl rfl fun _ => rfl
    | appealSlash workflowId caller slashId => exact appealSlash_effect h hok
    | resolveAppeal workflowId caller upheld slashId provenance => exact resolveAppeal_effect h hok
    | appealFraudGroupSlash workflowId caller slashId => exact memberAppeal_effect h hok
    | resolveFraudGroupAppeal workflowId caller member upheld slashId provenance =>
      exact memberResolution_effect h hok
    | executeFraudSlash workflowId slashId => exact execution_effect h hok
    | executeFraudGroupSlash workflowId slashId => exact groupExecution_effect h hok
    | registerStake resolver amount =>
      obtain ⟨_, _, rfl⟩ := registerStake_ok.mp hok
      exact .of_slashes h (.of_eq rfl rfl rfl) rfl
    | withdrawStake resolver amount =>
      obtain ⟨_, _, rfl⟩ := withdrawStake_ok.mp hok
      exact .of_slashes h (.of_eq rfl rfl rfl) rfl
    | advanceTime time =>
      obtain ⟨_, rfl⟩ := advanceTime_ok.mp hok
      exact .of_slashes h (.of_eq rfl rfl rfl) rfl
    | _ => cases hon

theorem AppealBondsKept.custodySum (h : AppealBondsKept w) : w.custodySum = w.bondsHeld := by
  refine sumBy_congr fun e he => ?_
  have hfound : w.getSlash e.1 = some e.2 := find_of_mem h.keyed he
  have hslot := h.slot hfound
  unfold SlashEntry.bonds
  by_cases hkind : e.2.kind = .fraudGroup
  · obtain ⟨hcustody, _, hheld, happeals, hmembers⟩ := hslot.group hkind
    rw [hcustody, hheld]
    refine congrArg (fun x => (0 : ℤ) + x) (sumBy_congr fun a ha => ?_)
    have hkept := hmembers a.1
    rw [find_of_mem happeals ha] at hkept
    unfold World.memberBond
    cases hc : w.slashes.memberCustody e.1 a.1 with
    | none =>
      rw [hc] at hkept
      exact hkept.1.symm
    | some c =>
      rw [hc] at hkept
      exact hkept.2.2.2.1
  · obtain ⟨happeals, _, hsingle⟩ := hslot.single hkind
    rw [happeals, sumBy_nil, sumBy_nil, add_zero, add_zero]
    cases hc : w.slashes.custody e.1 with
    | none =>
      rw [hc] at hsingle
      exact (hsingle : e.2.appealBondHeld = 0).symm
    | some c =>
      rw [hc] at hsingle
      exact hsingle.2.2.2.2.1

end

/-! ## runs -/

/-- a world in which no appeal has posted a bond yet -/
structure Unappealed (w : World) : Prop where
  keyed : w.Keyed
  heldKeys : (w.held.positions.map Prod.fst).Nodup
  entries : ∀ id e, w.getSlash id = some e → e.appealBondHeld = 0 ∧ e.appeals = [] ∧
    (e.kind = .fraudGroup → e.resolver = none)
  history : ∀ id e, find w.slashes.history id = some e → e.appealBondHeld = 0
  custody : ∀ id, w.slashes.custody id = none
  memberCustody : ∀ id a, w.slashes.memberCustody id a = none
  positions : ∀ p : PositionId, p.ofAppeal = true → w.held.position p = 0

section
variable {w : World}

theorem Unappealed.appealBond (h : Unappealed w) (id : ℕ) (actor : Address) :
    w.appealBond id actor = none := by
  unfold World.appealBond
  rw [h.custody]
  exact slotBond_none (h.memberCustody id) actor

theorem Unappealed.kept (h : Unappealed w) : AppealBondsKept w where
  keyed := h.keyed
  heldKeys := h.heldKeys
  slots id := by
    rw [h.custody]
    cases hfound : w.getSlash id with
    | none => exact ⟨rfl, h.memberCustody id⟩
    | some e =>
      obtain ⟨hheld, happeals, hgroup⟩ := h.entries id e hfound
      by_cases hkind : e.kind = .fraudGroup
      · refine SlotKept.of_group hkind (hgroup hkind) hheld ?_ fun a => ?_
        · rw [happeals]
          exact List.nodup_nil
        · rw [happeals, h.memberCustody]
          trivial
      · exact SlotKept.of_single hkind happeals (h.memberCustody id) hheld
  history := h.history
  positions token workflowId id actor := by
    rw [h.appealBond, h.positions _ rfl]
    rfl

theorem Unappealed.bondsHeld (h : Unappealed w) : w.bondsHeld = 0 := by
  refine sumBy_eq_zero fun e he => ?_
  obtain ⟨hheld, happeals, _⟩ := h.entries e.1 e.2 (find_of_mem h.keyed he)
  unfold SlashEntry.bonds
  rw [hheld, happeals]
  rfl

theorem Unappealed.appealPositions (h : Unappealed w) : w.appealPositions = 0 := by
  refine sumBy_eq_zero fun e he => ?_
  split
  · next hof =>
    have hposition := h.positions e.1 hof
    unfold Held.position at hposition
    rw [find_of_mem h.heldKeys he] at hposition
    exact hposition
  · rfl

end

/-- **All bonds of appeals are accounted for after a run.** -/
structure AppealBondsConserved (env : Environment) (w : World) (ops : List AppealOperation) :
    Prop where
  /-- the custody has what the entries and their members record, and nothing else -/
  custody : (run (appealStep env) w ops).custodySum = (run (appealStep env) w ops).bondsHeld
  registered : ∀ id, (run (appealStep env) w ops).getSlash id = none →
    (run (appealStep env) w ops).slashes.custody id = none ∧
    ∀ a, (run (appealStep env) w ops).slashes.memberCustody id a = none
  /-- so has the held ledger, in all and in each position -/
  held : (run (appealStep env) w ops).bondsHeld = (run (appealStep env) w ops).appealPositions
  positions : ∀ token workflowId id actor, (run (appealStep env) w ops).held.position
    (appealPosition token workflowId id actor)
      = bondAt ((run (appealStep env) w ops).appealBond id actor) token workflowId
  /-- each posting is followed by one refund, by one forfeiture, or by an open bond -/
  followed : ∀ id actor, follow id actor none (emitted (appealStep env) World.appealEvents w ops)
    = some ((run (appealStep env) w ops).appealBond id actor)
  inCustody : (run (appealStep env) w ops).custodySum
    = sumOver AppealEvent.change (emitted (appealStep env) World.appealEvents w ops)
  posted : ∀ token, (run (appealStep env) w ops).totals.bondsPosted token
    = w.totals.bondsPosted token + sumOver (AppealEvent.postedIn token)
      (emitted (appealStep env) World.appealEvents w ops)
  refunds : ∀ workflowId address,
    (run (appealStep env) w ops).claims.amount workflowId .bondRefund address
      = w.claims.amount workflowId .bondRefund address
        + sumOver (AppealEvent.refundedTo workflowId address)
          (emitted (appealStep env) World.appealEvents w ops)
  forfeits : (run (appealStep env) w ops).slashes.forfeitedInsurance
    = w.slashes.forfeitedInsurance + sumOver AppealEvent.forfeits
      (emitted (appealStep env) World.appealEvents w ops)

theorem appeal_bonds_conserved (env : Environment) {w : World} (h : Unappealed w)
    (ops : List AppealOperation) : AppealBondsConserved env w ops := by
  have heffect : AppealEffect w (emitted (appealStep env) World.appealEvents w ops)
      (run (appealStep env) w ops) := by
    refine run_emitted (I := AppealBondsKept) (R := fun w j w' => AppealBondsKept w →
      AppealEffect w j w') (fun w => .refl) (fun _ _ _ _ _ h₁ h₂ hw => ?_) (fun w op w' hw hok => ?_)
      h.kept ops h.kept
    · exact (h₁ hw).trans (h₂ (h₁ hw).kept)
    · exact ⟨(appealStep_effect hw hok).kept, fun _ => appealStep_effect hw hok⟩
  have hbonds := heffect.bonds
  have hheld := heffect.held
  rw [h.bondsHeld, zero_add] at hbonds
  rw [h.appealPositions, zero_add] at hheld
  refine ⟨heffect.kept.custodySum, fun id hnone => ?_, hbonds.trans hheld.symm,
    heffect.kept.positions, fun id actor => ?_, heffect.kept.custodySum.trans hbonds, heffect.posted,
    heffect.refunds, heffect.forfeits⟩
  · have hslot := heffect.kept.slots id
    rw [hnone] at hslot
    exact hslot
  · have hfollowed := heffect.followed id actor
    rwa [h.appealBond] at hfollowed

/-- an escrow with a pending slash, and an appeal bond of 5 -/
def oneAppealed : World :=
  { emptyWorld {} 0 with
    escrows :=
      { transfers := [(0, { token := "USDC", sender := "s", recipient := "r", amountAfterFee := 100
                            disputeResolver := some "judge", escrowState := .disputed })]
        snapshots := fun _ => { appealBondAmount := 5 }
        nextWorkflowId := 1 }
    slashes :=
      { pending := [(0, (emptyWorld {} 0).fraudEntry 0 0 "judge" 100)]
        nextSlashId := 1 } }

theorem unappealed_oneAppealed : Unappealed oneAppealed where
  keyed := List.nodup_singleton 0
  heldKeys := List.nodup_nil
  entries id e he := by
    have hmem := mem_of_find he
    obtain ⟨rfl, rfl⟩ := Prod.mk.inj (List.mem_singleton.mp hmem)
    exact ⟨rfl, rfl, nofun⟩
  history id e he := by cases he
  custody id := rfl
  memberCustody id a := rfl
  positions p _ := rfl

theorem appeal_bonds_conserved_oneAppealed : AppealBondsConserved bareEnvironment oneAppealed
    [.on (.appealSlash 0 "judge" 0) rfl, .on (.resolveAppeal 0 (some "gov") false 0 true) rfl,
      .on (.appealSlash 0 "judge" 0) rfl] :=
  appeal_bonds_conserved bareEnvironment unappealed_oneAppealed _

/-- the second bond for the slash is in custody after the first was forfeited -/
example : (run (appealStep bareEnvironment) oneAppealed
    [.on (.appealSlash 0 "judge" 0) rfl, .on (.resolveAppeal 0 (some "gov") false 0 true) rfl,
      .on (.appealSlash 0 "judge" 0) rfl]).slashes.forfeitedInsurance = 5 := by
  decide +kernel

end PRF.Sew
