import ProtocolRobustness.Sew.BondOps

/-!
# The ledger of appeal bonds

The records of the bonds, their balances, what is held for them and their dispositions are four
ledgers.  An operation adds one open bond to them or takes one open bond out of custody.

* `Bonds.WellFormed`   the records, the balances and the dispositions fit together;
* `Posts`, `Leaves`    what posting a bond and taking one out of custody do;
* `Posts.wellFormed`, `Leaves.wellFormed`   both keep the ledgers together;
* `Bonds.custody`, `Bonds.paidOut`, `Bonds.forfeited`   what the ledgers add up to.
-/

namespace PRF.Sew
open Table

/-! ## sums over the bonds -/

namespace Bonds
variable (bonds : Bonds)

def openSum (f : BondRecord → ℤ) : ℤ :=
  sumBy (fun _ record => if record.status = .opened then f record else 0) bonds.records

/-- what a funder has in custody on a workflow -/
def custody (workflowId : ℕ) (funder : Address) : ℤ :=
  bonds.openSum fun record =>
    if record.workflowId = workflowId ∧ record.funder = funder then record.custodiedAmount else 0

def custodyIn (token : Token) : ℤ :=
  bonds.openSum fun record => if record.asset = token then record.custodiedAmount else 0

/-- what is in custody at a position of the held ledger -/
def custodyAt (position : PositionId) : ℤ :=
  bonds.openSum fun record =>
    if record.position record.workflowId record.asset = position then record.custodiedAmount else 0

/-- what was paid out of bonds on a workflow to a recipient -/
def paidOut (workflowId : ℕ) (recipient : Address) : ℤ :=
  sumBy (fun key disposition => if key.1.workflowId = workflowId ∧ key.2 ≠ .forfeiture then
    GroupSum.net disposition.allocations recipient else 0) bonds.dispositions

def forfeited : ℤ :=
  sumBy (fun key disposition => if key.2 = .forfeiture then disposition.total else 0)
    bonds.dispositions

theorem nextOrdinal_eq (workflowId : ℕ) (funder : Address) :
    (bonds.nextOrdinal workflowId funder : ℤ) = sumBy (fun _ record =>
      if record.workflowId = workflowId ∧ record.funder = funder then 1 else 0) bonds.records := by
  unfold nextOrdinal Bonds.of
  induction bonds.records with
  | nil => rfl
  | cons e records ih =>
    rw [List.map_cons, List.filter_cons, sumBy_cons, ← ih]
    by_cases h : e.2.workflowId = workflowId ∧ e.2.funder = funder
    · rw [if_pos (by simp [h.1, h.2]), if_pos h, List.length_cons]
      push_cast
      ring
    · rw [if_neg (by simpa using h), if_neg h, zero_add]

/-! ## ledgers that fit together -/

/-- **The records, the balances and the dispositions fit together.**  Ids are written from the
record they stand for, ordinals are below the next one, the balance of a funder is the custody of
the open bonds, and every bond has left custody by exactly one disposition of its full custody. -/
structure WellFormed : Prop where
  keys : (bonds.records.map Prod.fst).Nodup
  named : ∀ bondId record, find bonds.records bondId = some record →
    record.bondId = bondId ∧ bondId = ⟨record.workflowId, record.funder, record.ordinal⟩
  numbered : ∀ bondId record, find bonds.records bondId = some record →
    record.ordinal < bonds.nextOrdinal record.workflowId record.funder
  nonneg : ∀ bondId record, find bonds.records bondId = some record → 0 ≤ record.custodiedAmount
  balances : ∀ workflowId funder, bonds.balances workflowId funder = bonds.custody workflowId funder
  dispositionKeys : (bonds.dispositions.map Prod.fst).Nodup
  disposed : ∀ bondId record, find bonds.records bondId = some record →
    record.status = .disposed → record.remainingCustody = 0 ∧
      ∃ disposition recipient,
        find bonds.dispositions (bondId, disposition.kind) = some disposition ∧
        disposition.allocations = [(recipient, record.custodiedAmount)] ∧
        disposition.total = record.custodiedAmount ∧
        ∀ kind, (find bonds.dispositions (bondId, kind)).isSome → kind = disposition.kind
  known : ∀ key, (find bonds.dispositions key).isSome →
    ∃ record, find bonds.records key.1 = some record ∧ record.status = .disposed

variable {bonds}

theorem WellFormed.find_of {workflowId : ℕ} {funder : Address} {record : BondRecord}
    (h : bonds.WellFormed) (hmem : record ∈ bonds.of workflowId funder) :
    find bonds.records record.bondId = some record ∧ record.workflowId = workflowId ∧
      record.funder = funder := by
  unfold Bonds.of at hmem
  obtain ⟨hrecord, hof⟩ := List.mem_filter.mp hmem
  obtain ⟨⟨bondId, _⟩, he, rfl⟩ := List.mem_map.mp hrecord
  have hfind := find_of_mem h.keys he
  rw [(h.named _ _ hfind).1]
  exact ⟨hfind, by simpa using hof⟩

theorem WellFormed.custodyAt_position (h : bonds.WellFormed) {bondId : BondId}
    {record : BondRecord} (hfind : find bonds.records bondId = some record) :
    bonds.custodyAt (record.position record.workflowId record.asset)
      = if record.status = .opened then record.custodiedAmount else 0 := by
  unfold Bonds.custodyAt Bonds.openSum
  rw [sumBy_eq_entryBy h.keys (k := bondId), entryBy_some hfind]
  · simp
  · rintro ⟨other, r⟩ he hne
    have hr := find_of_mem h.keys he
    have hpos : r.position r.workflowId r.asset
        ≠ record.position record.workflowId record.asset := by
      intro heq
      have hid : r.bondId = record.bondId := by
        simp only [BondRecord.position, bondPosition, PositionId.mk.injEq, List.cons.injEq,
          ScopeValue.bond.injEq] at heq
        exact heq.2.2.1
      rw [(h.named _ _ hr).1, (h.named _ _ hfind).1] at hid
      exact hne hid
    simp only [if_neg hpos, ite_self]

theorem WellFormed.fresh (h : bonds.WellFormed) (workflowId : ℕ) (funder : Address) :
    find bonds.records ⟨workflowId, funder, bonds.nextOrdinal workflowId funder⟩ = none := by
  cases hfind : find bonds.records ⟨workflowId, funder, bonds.nextOrdinal workflowId funder⟩ with
  | none => rfl
  | some record =>
    have hname := (h.named _ _ hfind).2
    have hnumber := h.numbered _ _ hfind
    simp only [BondId.mk.injEq] at hname
    rw [← hname.1, ← hname.2.1] at hnumber
    omega

end Bonds

/-! ## what an operation does to the ledgers -/

/-- a new open bond: its record, its balance and what is held for it -/
structure Posts (w w' : World) (record : BondRecord) : Prop where
  opened : record.status = .opened
  named : record.bondId = ⟨record.workflowId, record.funder, record.ordinal⟩
  ordinal : record.ordinal = w.bonds.nextOrdinal record.workflowId record.funder
  nonneg : 0 ≤ record.custodiedAmount
  records : w'.bonds.records = put w.bonds.records record.bondId record
  balances : w'.bonds.balances
    = addAt₂ w.bonds.balances record.workflowId record.funder record.custodiedAmount
  dispositions : w'.bonds.dispositions = w.bonds.dispositions
  held : w'.held
    = w.held.move (record.position record.workflowId record.asset) record.custodiedAmount

/-- an open bond leaves custody: its record, its balance, what is held for it and its disposition -/
structure Leaves (w w' : World) (record : BondRecord) (disposition : Disposition)
    (recipient : Address) : Prop where
  found : find w.bonds.records disposition.bondId = some record
  opened : record.status = .opened
  allocations : disposition.allocations = [(recipient, record.custodiedAmount)]
  total : disposition.total = record.custodiedAmount
  records : w'.bonds.records = put w.bonds.records disposition.bondId
    { record with status := .disposed, remainingCustody := 0 }
  balances : w'.bonds.balances
    = addAt₂ w.bonds.balances record.workflowId record.funder (-record.custodiedAmount)
  dispositions : w'.bonds.dispositions
    = put w.bonds.dispositions (disposition.bondId, disposition.kind) disposition
  held : w'.held
    = w.held.move (record.position record.workflowId record.asset) (-record.custodiedAmount)

section
variable {w w' : World} {record : BondRecord} {disposition : Disposition} {recipient : Address}

theorem Posts.fresh (h : Posts w w' record) (hw : w.bonds.WellFormed) :
    find w.bonds.records record.bondId = none := by
  rw [h.named, h.ordinal]
  exact hw.fresh _ _

theorem Posts.sumBy (h : Posts w w' record) (hw : w.bonds.WellFormed)
    (f : BondId → BondRecord → ℤ) :
    sumBy f w'.bonds.records = sumBy f w.bonds.records + f record.bondId record := by
  rw [h.records, sumBy_put hw.keys, entryBy_none (h.fresh hw), sub_zero]

theorem Posts.openSum (h : Posts w w' record) (hw : w.bonds.WellFormed) (f : BondRecord → ℤ) :
    w'.bonds.openSum f = w.bonds.openSum f + f record := by
  unfold Bonds.openSum
  rw [h.sumBy hw, if_pos h.opened]

theorem Leaves.sumBy (h : Leaves w w' record disposition recipient) (hw : w.bonds.WellFormed)
    (f : BondId → BondRecord → ℤ) :
    sumBy f w'.bonds.records = sumBy f w.bonds.records - f disposition.bondId record
      + f disposition.bondId { record with status := .disposed, remainingCustody := 0 } := by
  rw [h.records, sumBy_put hw.keys, entryBy_some h.found]

theorem Leaves.openSum (h : Leaves w w' record disposition recipient) (hw : w.bonds.WellFormed)
    (f : BondRecord → ℤ) : w'.bonds.openSum f = w.bonds.openSum f - f record := by
  unfold Bonds.openSum
  rw [h.sumBy hw, if_pos h.opened, if_neg (by simp), add_zero]

theorem Posts.nextOrdinal (h : Posts w w' record) (hw : w.bonds.WellFormed) (workflowId : ℕ)
    (funder : Address) : w'.bonds.nextOrdinal workflowId funder
      = w.bonds.nextOrdinal workflowId funder
        + if record.workflowId = workflowId ∧ record.funder = funder then 1 else 0 := by
  have hsum := h.sumBy hw fun _ r =>
    if r.workflowId = workflowId ∧ r.funder = funder then 1 else 0
  rw [← Bonds.nextOrdinal_eq, ← Bonds.nextOrdinal_eq] at hsum
  exact_mod_cast hsum

theorem Leaves.nextOrdinal (h : Leaves w w' record disposition recipient)
    (hw : w.bonds.WellFormed) (workflowId : ℕ) (funder : Address) :
    w'.bonds.nextOrdinal workflowId funder = w.bonds.nextOrdinal workflowId funder := by
  have hsum := h.sumBy hw fun _ r =>
    if r.workflowId = workflowId ∧ r.funder = funder then 1 else 0
  rw [← Bonds.nextOrdinal_eq, ← Bonds.nextOrdinal_eq, sub_add_cancel] at hsum
  exact_mod_cast hsum

/-- no disposition of an open bond was recorded before -/
theorem Leaves.undisposed (h : Leaves w w' record disposition recipient)
    (hw : w.bonds.WellFormed) (kind : DispositionKind) :
    find w.bonds.dispositions (disposition.bondId, kind) = none := by
  cases hfind : find w.bonds.dispositions (disposition.bondId, kind) with
  | none => rfl
  | some other =>
    obtain ⟨record', hfound, hdisposed⟩ := hw.known (disposition.bondId, kind) (by simp [hfind])
    have hsame : record = record' := Option.some.inj (h.found.symm.trans hfound)
    rw [← hsame, h.opened] at hdisposed
    cases hdisposed

theorem Posts.wellFormed (h : Posts w w' record) (hw : w.bonds.WellFormed) :
    w'.bonds.WellFormed where
  keys := by
    rw [h.records]
    exact nodup_put hw.keys _ _
  named bondId r hr := by
    rw [h.records, find_put] at hr
    split at hr
    · next hid =>
      obtain rfl := Option.some.inj hr
      exact ⟨hid, hid.symm.trans h.named⟩
    · exact hw.named bondId r hr
  numbered bondId r hr := by
    rw [h.nextOrdinal hw]
    rw [h.records, find_put] at hr
    split at hr
    · obtain rfl := Option.some.inj hr
      rw [h.ordinal, if_pos ⟨rfl, rfl⟩]
      exact Nat.lt_succ_self _
    · exact (hw.numbered bondId r hr).trans_le (Nat.le_add_right _ _)
  nonneg bondId r hr := by
    rw [h.records, find_put] at hr
    split at hr
    · obtain rfl := Option.some.inj hr
      exact h.nonneg
    · exact hw.nonneg bondId r hr
  balances workflowId funder := by
    rw [h.balances, addAt₂_apply, hw.balances, Bonds.custody, Bonds.custody, h.openSum hw]
    split <;> simp
  dispositionKeys := by
    rw [h.dispositions]
    exact hw.dispositionKeys
  disposed bondId r hr hdisposed := by
    rw [h.dispositions]
    rw [h.records, find_put] at hr
    split at hr
    · obtain rfl := Option.some.inj hr
      rw [h.opened] at hdisposed
      cases hdisposed
    · exact hw.disposed bondId r hr hdisposed
  known key hkey := by
    rw [h.dispositions] at hkey
    obtain ⟨r, hr, hdisposed⟩ := hw.known key hkey
    refine ⟨r, ?_, hdisposed⟩
    rw [h.records, find_put, if_neg, hr]
    intro hid
    rw [← hid, h.fresh hw] at hr
    cases hr

theorem Leaves.wellFormed (h : Leaves w w' record disposition recipient)
    (hw : w.bonds.WellFormed) : w'.bonds.WellFormed where
  keys := by
    rw [h.records]
    exact nodup_put hw.keys _ _
  named bondId r hr := by
    rw [h.records, find_put] at hr
    split at hr
    · next hid =>
      obtain rfl := Option.some.inj hr
      exact hid ▸ hw.named _ record h.found
    · exact hw.named bondId r hr
  numbered bondId r hr := by
    rw [h.nextOrdinal hw]
    rw [h.records, find_put] at hr
    split at hr
    · obtain rfl := Option.some.inj hr
      exact hw.numbered _ record h.found
    · exact hw.numbered bondId r hr
  nonneg bondId r hr := by
    rw [h.records, find_put] at hr
    split at hr
    · obtain rfl := Option.some.inj hr
      exact hw.nonneg _ record h.found
    · exact hw.nonneg bondId r hr
  balances workflowId funder := by
    rw [h.balances, addAt₂_apply, hw.balances, Bonds.custody, Bonds.custody, h.openSum hw]
    split <;> simp [sub_eq_add_neg]
  dispositionKeys := by
    rw [h.dispositions]
    exact nodup_put hw.dispositionKeys _ _
  disposed bondId r hr hdisposed := by
    rw [h.dispositions]
    rw [h.records, find_put] at hr
    split at hr
    · next hid =>
      obtain rfl := Option.some.inj hr
      refine ⟨rfl, disposition, recipient, ?_, h.allocations, h.total, fun kind hkind => ?_⟩
      · rw [hid, find_put, if_pos rfl]
      · rw [find_put] at hkind
        split at hkind
        · next hkey => exact (Prod.mk.inj hkey).2.symm
        · rw [← hid, h.undisposed hw] at hkind
          cases hkind
    · next hid =>
      obtain ⟨hcustody, d, payee, hd, halloc, htotal, honly⟩ := hw.disposed bondId r hr hdisposed
      have hother : ∀ kind, (disposition.bondId, disposition.kind) ≠ (bondId, kind) :=
        fun kind hkey => hid (Prod.mk.inj hkey).1
      refine ⟨hcustody, d, payee, ?_, halloc, htotal, fun kind hkind => ?_⟩
      · rw [find_put, if_neg (hother _), hd]
      · rw [find_put, if_neg (hother _)] at hkind
        exact honly kind hkind
  known key hkey := by
    rw [h.records, find_put]
    by_cases hid : disposition.bondId = key.1
    · exact ⟨_, if_pos hid, rfl⟩
    · rw [if_neg hid]
      rw [h.dispositions, find_put, if_neg fun hk => hid (Prod.ext_iff.mp hk).1] at hkey
      exact hw.known key hkey

/-! ## what an operation does to the sums -/

theorem Posts.custodyIn (h : Posts w w' record) (hw : w.bonds.WellFormed) (token : Token) :
    w'.held.total token - w'.bonds.custodyIn token
      = w.held.total token - w.bonds.custodyIn token := by
  unfold Bonds.custodyIn
  rw [h.held, Held.total_move, h.openSum hw]
  show (if record.asset = token then _ else _) - _ = _
  split <;> ring

theorem Leaves.custodyIn (h : Leaves w w' record disposition recipient)
    (hw : w.bonds.WellFormed) (token : Token) :
    w'.held.total token - w'.bonds.custodyIn token
      = w.held.total token - w.bonds.custodyIn token := by
  unfold Bonds.custodyIn
  rw [h.held, Held.total_move, h.openSum hw]
  show (if record.asset = token then _ else _) - _ = _
  split <;> ring

theorem Posts.custodyAt (h : Posts w w' record) (hw : w.bonds.WellFormed)
    (position : PositionId) : w'.held.position position - w'.bonds.custodyAt position
      = w.held.position position - w.bonds.custodyAt position := by
  unfold Bonds.custodyAt
  rw [h.held, Held.position_move, h.openSum hw]
  split <;> ring

theorem Leaves.custodyAt (h : Leaves w w' record disposition recipient)
    (hw : w.bonds.WellFormed) (position : PositionId) :
    w'.held.position position - w'.bonds.custodyAt position
      = w.held.position position - w.bonds.custodyAt position := by
  unfold Bonds.custodyAt
  rw [h.held, Held.position_move, h.openSum hw]
  split <;> ring

theorem Leaves.paidOut (h : Leaves w w' record disposition recipient) (hw : w.bonds.WellFormed)
    (workflowId : ℕ) (address : Address) :
    w'.bonds.paidOut workflowId address = w.bonds.paidOut workflowId address
      + if record.workflowId = workflowId ∧ disposition.kind ≠ .forfeiture ∧ recipient = address
        then record.custodiedAmount else 0 := by
  unfold Bonds.paidOut
  rw [h.dispositions, sumBy_put hw.dispositionKeys, entryBy_none (h.undisposed hw _), sub_zero,
    h.allocations, GroupSum.net_cons, GroupSum.net_nil, add_zero, (hw.named _ _ h.found).2]
  dsimp only
  split_ifs <;> simp_all

theorem Leaves.forfeited (h : Leaves w w' record disposition recipient) (hw : w.bonds.WellFormed) :
    w'.bonds.forfeited = w.bonds.forfeited
      + if disposition.kind = .forfeiture then record.custodiedAmount else 0 := by
  unfold Bonds.forfeited
  rw [h.dispositions, sumBy_put hw.dispositionKeys, entryBy_none (h.undisposed hw _), sub_zero,
    h.total]

end

end PRF.Sew
