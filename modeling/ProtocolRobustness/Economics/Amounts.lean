import ProtocolRobustness.Library.CheckedSum

/-!
# Amounts by identifier

* `Amounts`          maps from identifiers to amounts, with distinct keys;
* `HostAmounts`      the same maps with numbers of the host, `values` with their amounts as integers;
* `Sums`             whether the numbers of such a map can be added up;
* `mass`, `sums_of_mass`   what they may add to a 64-bit sum, and that it bounds their sums.
-/

set_option linter.unusedSectionVars false

namespace PRF.Economics
open Table GroupSum LongArith

@[ext] structure Amounts (ι : Type) where
  entries : List (ι × ℤ)
  nodup : (entries.map Prod.fst).Nodup
deriving DecidableEq

namespace Amounts
section
variable {ι : Type} (m : Amounts ι)

def empty : Amounts ι := ⟨[], List.nodup_nil⟩

def ids : List ι := m.entries.map Prod.fst

def total : ℤ := (m.entries.map Prod.snd).sum

end

section
variable {ι : Type} [DecidableEq ι] (m m' : Amounts ι)

def get (id : ι) : ℤ := (find m.entries id).getD 0

/-- equal as maps -/
def Same : Prop := m.entries.Perm m'.entries

instance : Decidable (m.Same m') := inferInstanceAs (Decidable (m.entries.Perm m'.entries))

/-- `(update m id (fnil + 0) amount)` -/
def add (id : ι) (amount : ℤ) : Amounts ι :=
  ⟨GroupSum.add m.entries (id, amount), nodup_add m.nodup _⟩

/-- `(merge-with + m m')` -/
def merge : Amounts ι := ⟨collect m.entries m'.entries, nodup_collect m.nodup _⟩

/-- every identifier with a value -/
def tabulate (ids : List ι) (f : ι → ℤ) : Amounts ι where
  entries := ids.dedup.map fun id => (id, f id)
  nodup := by
    have h : (ids.dedup.map fun id => (id, f id)).map Prod.fst = ids.dedup := by
      simp [List.map_map, Function.comp_def]
    rw [h]
    exact List.nodup_dedup ids

/-- with every amount replaced -/
def map (f : ℤ → ℤ) : Amounts ι where
  entries := m.entries.map fun e => (e.1, f e.2)
  nodup := by
    have h : (m.entries.map fun e => (e.1, f e.2)).map Prod.fst = m.entries.map Prod.fst := by
      simp [List.map_map, Function.comp_def]
    rw [h]
    exact m.nodup

end

/-! ### reading them -/

section
variable {ι : Type} [DecidableEq ι] {m m' m'' : Amounts ι}

theorem Same.refl (m : Amounts ι) : m.Same m := List.Perm.refl _

theorem Same.total (h : m.Same m') : m.total = m'.total := (List.Perm.map Prod.snd h).sum_eq

theorem Same.mem_ids (h : m.Same m') (id : ι) : id ∈ m.ids ↔ id ∈ m'.ids :=
  (List.Perm.map Prod.fst h).mem_iff

theorem get_of_not_mem {id : ι} (h : id ∉ m.ids) : m.get id = 0 := by
  unfold get
  rw [(find_eq_none_iff _ _).mpr h]
  rfl

theorem get_of_mem {e : ι × ℤ} (he : e ∈ m.entries) : m.get e.1 = e.2 := by
  unfold get
  rw [find_of_mem m.nodup he]
  rfl

theorem get_eq_net (m : Amounts ι) (id : ι) : m.get id = net m.entries id := by
  by_cases h : id ∈ m.ids
  · obtain ⟨e, he, rfl⟩ := List.mem_map.mp h
    unfold get
    rw [find_of_mem m.nodup he, net_of_mem m.nodup he]
    rfl
  · rw [get_of_not_mem h, net_of_not_mem h]

theorem total_eq_sum {ids : List ι} (hn : ids.Nodup) (h : ∀ id ∈ m.ids, id ∈ ids) :
    m.total = (ids.map m.get).sum := by
  have hnet : m.get = net m.entries := funext m.get_eq_net
  rw [hnet, sum_net hn fun e he => h e.1 (List.mem_map_of_mem he)]
  rfl

theorem total_nonneg {ids : List ι} (hn : ids.Nodup) (h : ∀ id ∈ m.ids, id ∈ ids)
    (h0 : ∀ id ∈ ids, 0 ≤ m.get id) : 0 ≤ m.total := by
  rw [total_eq_sum hn h]
  refine List.sum_nonneg fun x hx => ?_
  obtain ⟨id, hid, rfl⟩ := List.mem_map.mp hx
  exact h0 id hid

theorem get_tabulate {ids : List ι} {f : ι → ℤ} {id : ι} (h : id ∈ ids) :
    find (tabulate ids f).entries id = some (f id) := by
  refine find_of_mem (tabulate ids f).nodup ?_
  exact List.mem_map.mpr ⟨id, List.mem_dedup.mpr h, rfl⟩

theorem mem_ids_tabulate {ids : List ι} {f : ι → ℤ} {id : ι} :
    id ∈ (tabulate ids f).ids ↔ id ∈ ids := by
  simp [Amounts.ids, tabulate, List.map_map, Function.comp_def]

theorem get_merge (m m' : Amounts ι) (id : ι) : (m.merge m').get id = m.get id + m'.get id := by
  rw [get_eq_net m']
  exact getD_find_collect _ _ _

theorem get_add (m : Amounts ι) (id id' : ι) (amount : ℤ) :
    (m.add id amount).get id' = m.get id' + if id = id' then amount else 0 := by
  unfold get Amounts.add
  rw [find_add]
  by_cases h : id = id'
  · simp [h]
  · simp [h]

theorem mem_ids_add {m : Amounts ι} {id id' : ι} {amount : ℤ} :
    id' ∈ (m.add id amount).ids ↔ id' ∈ m.ids ∨ id' = id := by
  have h : (m.add id amount).ids = if id ∈ m.ids then m.ids else m.ids ++ [id] := keys_put _ _ _
  rw [h]
  by_cases hid : id ∈ m.ids
  · simp only [if_pos hid]
    exact ⟨Or.inl, fun h' => h'.elim (fun h => h) fun h => h ▸ hid⟩
  · simp only [if_neg hid, List.mem_append, List.mem_singleton]

theorem mem_ids_merge {m : Amounts ι} {m' : Amounts ι} {id : ι} :
    id ∈ (m.merge m').ids ↔ id ∈ m.ids ∨ id ∈ m'.ids := by
  have h : find (m.merge m').entries id = none ↔ id ∉ m.ids ∧ id ∉ m'.ids := by
    unfold merge
    rw [GroupSum.find_collect]
    by_cases hid : id ∈ m'.ids
    · have hid' : id ∈ m'.entries.map Prod.fst := hid
      simp [hid, hid']
    · have hid' : id ∉ m'.entries.map Prod.fst := hid
      simp only [if_neg hid', hid, not_false_iff, and_true]
      exact find_eq_none_iff _ _
  rw [find_eq_none_iff] at h
  have h' := not_congr h
  rwa [not_not, not_and_or, not_not, not_not] at h'

theorem get_tabulate_of_mem {ids : List ι} {f : ι → ℤ} {id : ι} (h : id ∈ ids) :
    (tabulate ids f).get id = f id := by
  unfold get
  rw [get_tabulate h]
  rfl

theorem same_iff : m.Same m' ↔ (∀ id, id ∈ m.ids ↔ id ∈ m'.ids) ∧ ∀ id, m.get id = m'.get id := by
  constructor
  · intro h
    refine ⟨h.mem_ids, fun id => ?_⟩
    unfold get
    rw [find_perm m.nodup h]
  · rintro ⟨hids, hget⟩
    refine perm_of_find m.nodup m'.nodup fun id => ?_
    by_cases hid : id ∈ m.ids
    · obtain ⟨e, he, rfl⟩ := List.mem_map.mp hid
      obtain ⟨e', he', hkey⟩ := List.mem_map.mp ((hids e.1).mp hid)
      have hvalue : e.2 = e'.2 := by
        rw [← get_of_mem he, ← get_of_mem he', hkey]
        exact hget e.1
      rw [find_of_mem m.nodup he, find_of_mem m'.nodup (hkey ▸ he' : (e.1, e'.2) ∈ m'.entries), hvalue]
    · rw [(find_eq_none_iff _ _).mpr hid, (find_eq_none_iff _ _).mpr fun h => hid ((hids id).mpr h)]

theorem total_add (m : Amounts ι) (id : ι) (amount : ℤ) :
    (m.add id amount).total = m.total + amount := by
  have hids : ∀ id' ∈ (m.add id amount).ids, id' ∈ (m.add id amount).ids := fun _ h => h
  have hm : ∀ id' ∈ m.ids, id' ∈ (m.add id amount).ids := fun _ h => mem_ids_add.mpr (Or.inl h)
  have hid : id ∈ (m.add id amount).ids := mem_ids_add.mpr (Or.inr rfl)
  rw [total_eq_sum (m.add id amount).nodup hids, total_eq_sum (m.add id amount).nodup hm]
  have hget : (m.add id amount).get = fun id' => m.get id' + if id' = id then amount else 0 := by
    funext id'
    rw [get_add]
    simp only [eq_comm (a := id)]
  rw [hget, List.sum_map_add, List.sum_map_ite_eq,
    List.count_eq_one_of_mem (m.add id amount).nodup hid]
  simp [Function.comp_def]

end
end Amounts

/-! ## numbers of the host by identifier -/

structure HostAmounts (ι : Type) where
  entries : List (ι × HostInt)
  nodup : (entries.map Prod.fst).Nodup
deriving DecidableEq

namespace HostAmounts
section
variable {ι : Type} (m m' : HostAmounts ι)

def empty : HostAmounts ι := ⟨[], List.nodup_nil⟩

def ids : List ι := m.entries.map Prod.fst

def numbers : List HostInt := m.entries.map Prod.snd

def values : Amounts ι where
  entries := CheckedSum.values m.entries
  nodup := by
    unfold CheckedSum.values
    rw [List.map_map]
    exact m.nodup

def total : ℤ := m.values.total

/-- `(reduce + 0 (vals m))` is computed without an overflow -/
def Sums : Prop := HostInt.Totals m.numbers

instance : Decidable m.Sums := inferInstanceAs (Decidable (HostInt.Totals _))

/-- with every number replaced -/
def map (f : HostInt → HostInt) : HostAmounts ι where
  entries := m.entries.map fun e => (e.1, f e.2)
  nodup := by
    rw [List.map_map]
    exact m.nodup

end

section
variable {ι : Type} [DecidableEq ι] (m m' : HostAmounts ι)

/-- `(get m id 0)` -/
def number (id : ι) : HostInt := (find m.entries id).getD (.ofInt 0)

def get (id : ι) : ℤ := m.values.get id

/-- equal as maps -/
def Same : Prop := m.values.Same m'.values

instance : Decidable (m.Same m') := inferInstanceAs (Decidable (Amounts.Same _ _))

/-- `(update m id (fnil + 0) amount)` -/
def add (id : ι) (amount : HostInt) : HostAmounts ι :=
  ⟨put m.entries id ((m.number id).addPromote amount), nodup_put m.nodup _ _⟩

/-- `(merge-with + m m')` -/
def merge : HostAmounts ι := m'.entries.foldl (fun m e => m.add e.1 e.2) m

/-- every identifier with a number -/
def tabulate (ids : List ι) (f : ι → HostInt) : HostAmounts ι where
  entries := ids.dedup.map fun id => (id, f id)
  nodup := by
    have h : (ids.dedup.map fun id => (id, f id)).map Prod.fst = ids.dedup := by
      simp [List.map_map, Function.comp_def]
    rw [h]
    exact List.nodup_dedup ids

end

section
variable {ι : Type} [DecidableEq ι] {m m' : HostAmounts ι}

@[simp] theorem ids_values (m : HostAmounts ι) : m.values.ids = m.ids := CheckedSum.values_keys _

theorem number_value (m : HostAmounts ι) (id : ι) : (m.number id).value = m.get id := by
  have hfind : find m.values.entries id = (find m.entries id).map HostInt.value :=
    CheckedSum.find_values m.entries id
  unfold number get Amounts.get
  rw [hfind]
  cases find m.entries id <;> rfl

@[simp] theorem values_add (m : HostAmounts ι) (id : ι) (amount : HostInt) :
    (m.add id amount).values = m.values.add id amount.value := by
  refine Amounts.ext ?_
  show CheckedSum.values (put m.entries id _) = put (CheckedSum.values m.entries) id _
  unfold CheckedSum.values
  rw [map_put, HostInt.addPromote_value, number_value]
  rfl

@[simp] theorem values_merge (m m' : HostAmounts ι) :
    (m.merge m').values = m.values.merge m'.values := by
  refine Amounts.ext ?_
  show (m'.entries.foldl (fun m e => m.add e.1 e.2) m).values.entries
    = collect m.values.entries (m'.entries.map fun e => (e.1, e.2.value))
  generalize m'.entries = es
  induction es generalizing m with
  | nil => rfl
  | cons e es ih =>
    rw [List.foldl_cons, List.map_cons, collect_cons, ih, values_add]
    rfl

@[simp] theorem values_tabulate (ids : List ι) (f : ι → HostInt) :
    (tabulate ids f).values = .tabulate ids fun id => (f id).value := by
  refine Amounts.ext ?_
  show (ids.dedup.map fun id => (id, f id)).map _ = ids.dedup.map _
  rw [List.map_map]
  rfl

theorem total_numbers (m : HostAmounts ι) : (HostInt.total m.numbers).value = m.total := by
  rw [HostInt.total_value]
  unfold numbers HostAmounts.total Amounts.total values CheckedSum.values
  rw [List.map_map, List.map_map]
  rfl

theorem get_add (m : HostAmounts ι) (id id' : ι) (amount : HostInt) :
    (m.add id amount).get id' = m.get id' + if id = id' then amount.value else 0 := by
  unfold get
  rw [values_add, Amounts.get_add]

theorem get_merge (m m' : HostAmounts ι) (id : ι) : (m.merge m').get id = m.get id + m'.get id := by
  unfold get
  rw [values_merge, Amounts.get_merge]

theorem total_add (m : HostAmounts ι) (id : ι) (amount : HostInt) :
    (m.add id amount).total = m.total + amount.value := by
  unfold total
  rw [values_add, Amounts.total_add]

theorem mem_ids_add {m : HostAmounts ι} {id id' : ι} {amount : HostInt} :
    id' ∈ (m.add id amount).ids ↔ id' ∈ m.ids ∨ id' = id := by
  rw [← ids_values, values_add, Amounts.mem_ids_add, ids_values]

theorem mem_ids_merge {m m' : HostAmounts ι} {id : ι} :
    id ∈ (m.merge m').ids ↔ id ∈ m.ids ∨ id ∈ m'.ids := by
  rw [← ids_values, values_merge, Amounts.mem_ids_merge, ids_values, ids_values]

theorem mem_ids_tabulate {ids : List ι} {f : ι → HostInt} {id : ι} :
    id ∈ (tabulate ids f).ids ↔ id ∈ ids := by
  rw [← ids_values, values_tabulate, Amounts.mem_ids_tabulate]

theorem get_of_not_mem {id : ι} (h : id ∉ m.ids) : m.get id = 0 :=
  Amounts.get_of_not_mem (by rwa [ids_values])

theorem same_iff : m.Same m' ↔ (∀ id, id ∈ m.ids ↔ id ∈ m'.ids) ∧ ∀ id, m.get id = m'.get id := by
  rw [← ids_values, ← ids_values]
  exact Amounts.same_iff

theorem Same.refl (m : HostAmounts ι) : m.Same m := Amounts.Same.refl _

theorem Same.total (h : m.Same m') : m.total = m'.total := Amounts.Same.total h

theorem Same.mem_ids (h : m.Same m') (id : ι) : id ∈ m.ids ↔ id ∈ m'.ids := by
  rw [← ids_values, ← ids_values]
  exact Amounts.Same.mem_ids h id

/-! ### what the numbers may add to a 64-bit sum -/

def loads (m : HostAmounts ι) : Amounts ι where
  entries := m.entries.map fun e => (e.1, e.2.load)
  nodup := by
    rw [List.map_map]
    exact m.nodup

def mass (m : HostAmounts ι) : ℤ := m.loads.total

theorem mass_eq (m : HostAmounts ι) : m.mass = (m.entries.map fun e => e.2.load).sum := by
  unfold mass Amounts.total loads
  rw [List.map_map]
  rfl

theorem get_loads (m : HostAmounts ι) (id : ι) : m.loads.get id = (m.number id).load := by
  have hfind : find m.loads.entries id = (find m.entries id).map HostInt.load :=
    find_map m.entries (fun _ => HostInt.load) id
  unfold Amounts.get number
  rw [hfind]
  cases find m.entries id <;> rfl

theorem ids_loads (m : HostAmounts ι) : m.loads.ids = m.ids := by
  unfold Amounts.ids loads
  rw [List.map_map]
  rfl

theorem mass_nonneg (m : HostAmounts ι) : 0 ≤ m.mass := by
  rw [mass_eq]
  refine List.sum_nonneg fun x hx => ?_
  obtain ⟨e, -, rfl⟩ := List.mem_map.mp hx
  exact e.2.load_nonneg

theorem sum_loads (m : HostAmounts ι) {ids : List ι} (hn : ids.Nodup) (h : ∀ id ∈ m.ids, id ∈ ids) :
    (ids.map fun id => (m.number id).load).sum = m.mass := by
  unfold mass
  rw [Amounts.total_eq_sum hn (by rwa [ids_loads])]
  exact congrArg List.sum (List.map_congr_left fun id _ => (get_loads m id).symm)

theorem load_number_le (m : HostAmounts ι) (id : ι) : (m.number id).load ≤ m.mass := by
  by_cases hid : id ∈ m.ids
  · rw [← sum_loads m m.nodup fun _ h => h]
    exact List.single_le_sum (fun x hx => by
      obtain ⟨id', -, rfl⟩ := List.mem_map.mp hx
      exact (m.number id').load_nonneg) _ (List.mem_map_of_mem hid)
  · have hnone : find m.entries id = none := (find_eq_none_iff _ _).mpr hid
    unfold number
    rw [hnone]
    exact m.mass_nonneg

theorem mass_put (m : HostAmounts ι) (id : ι) (x : HostInt) :
    (⟨put m.entries id x, nodup_put m.nodup _ _⟩ : HostAmounts ι).mass
      = m.mass + (x.load - (m.number id).load) := by
  have hadd : (⟨put m.entries id x, nodup_put m.nodup _ _⟩ : HostAmounts ι).loads
      = m.loads.add id (x.load - (m.number id).load) := by
    refine Amounts.ext ?_
    have hget : (find m.loads.entries id).getD 0 = (m.number id).load := get_loads m id
    show (put m.entries id x).map _ = put m.loads.entries id ((find m.loads.entries id).getD 0 + _)
    rw [map_put, hget, add_sub_cancel]
    rfl
  unfold mass
  rw [hadd, Amounts.total_add]

theorem mass_add (m : HostAmounts ι) (id : ι) (amount : HostInt) :
    (m.add id amount).mass ≤ m.mass + amount.load := by
  have hload := HostInt.load_addPromote (m.number id) amount
  have hput : (m.add id amount).mass = _ := mass_put m id _
  omega

theorem mass_merge (m m' : HostAmounts ι) : (m.merge m').mass ≤ m.mass + m'.mass := by
  rw [mass_eq m']
  unfold merge
  generalize m'.entries = es
  induction es generalizing m with
  | nil => simp
  | cons e es ih =>
    rw [List.foldl_cons, List.map_cons, List.sum_cons]
    have hadd := mass_add m e.1 e.2
    have htail := ih (m.add e.1 e.2)
    omega

theorem sums_of_mass {m : HostAmounts ι} (h : m.mass < 2 ^ 63) : m.Sums := by
  rw [mass_eq] at h
  have hnumbers : (m.numbers.map HostInt.load).sum < 2 ^ 63 := by
    unfold numbers
    rwa [List.map_map]
  obtain ⟨c, hc, -⟩ := HostInt.sum?_of_load hnumbers
  exact Option.isSome_of_eq_some hc

end
end HostAmounts

end PRF.Economics
