import Mathlib.Data.List.Nodup
import Mathlib.Data.List.Sort
import Mathlib.Tactic

/-!
# Lists that are sorted, and lists with keys

Members that are not after each other are equal; members with keys are looked up by a key, and sorted
by it.

* `sort_eq_of_perm`   two orders of one list are sorted to the same list;
* `mem_take_iff`      the first members of a sorted list, by counting what does not come after;
* `search_eq_some`    with distinct keys, a member is found under its key and no other is;
* `search_eq`         what a search gives, from what it may and must find;
* `eq_of_mem_iff`     lists in the order of their keys, with the same members.
-/

namespace Sorted

section
variable {α : Type*} (r : α → α → Prop) [DecidableRel r] [Std.Total r] [IsTrans α r]

theorem sort_eq_of_perm {l l' : List α} (hp : l.Perm l')
    (hanti : ∀ a ∈ l, ∀ b ∈ l, r a b → r b a → a = b) :
    l.insertionSort r = l'.insertionSort r := by
  have hs := List.perm_insertionSort r l
  have hs' := List.perm_insertionSort r l'
  refine List.Perm.eq_of_pairwise ?_ (List.pairwise_insertionSort _ l)
    (List.pairwise_insertionSort _ l') (hs.trans (hp.trans hs'.symm))
  intro a b ha hb hab hba
  have hb' : b ∈ l := hp.mem_iff.mpr (hs'.mem_iff.mp hb)
  exact hanti a (hs.mem_iff.mp ha) b hb' hab hba

omit [IsTrans α r] in
theorem mem_take_iff {l : List α} (hl : l.Pairwise r) (hnd : l.Nodup)
    (hanti : ∀ a ∈ l, ∀ b ∈ l, r a b → r b a → a = b) {a : α} (ha : a ∈ l) (n : ℕ) :
    a ∈ l.take n ↔ (l.countP fun b => decide (¬ r a b)) < n := by
  obtain ⟨l₁, l₂, rfl⟩ := List.append_of_mem ha
  rw [List.pairwise_append] at hl
  have hout := (List.nodup_cons.mp (List.nodup_middle.mp hnd)).1
  have hnot : ∀ b ∈ l₁, ¬ r a b := by
    intro b hb hab
    have heq := hanti a ha b (List.mem_append_left _ hb) hab (hl.2.2 b hb a List.mem_cons_self)
    exact hout (List.mem_append_left _ (heq ▸ hb))
  have hafter : ∀ b ∈ a :: l₂, r a b := by
    intro b hb
    rcases List.mem_cons.mp hb with rfl | hb
    · exact (Std.Total.total (r := r) b b).elim id id
    · exact (List.pairwise_cons.mp hl.2.1).1 b hb
  have hcount : (l₁ ++ a :: l₂).countP (fun b => decide (¬ r a b)) = l₁.length := by
    rw [List.countP_append, List.countP_eq_length.mpr fun b hb => decide_eq_true (hnot b hb),
      List.countP_eq_zero.mpr fun b hb => by simpa using hafter b hb]
    rfl
  rw [hcount]
  constructor
  · intro h
    by_contra hle
    rw [List.take_append_of_le_length (by omega)] at h
    exact hout (List.mem_append_left _ (List.mem_of_mem_take h))
  · intro h
    obtain ⟨k, rfl⟩ : ∃ k, n = l₁.length + (k + 1) := ⟨n - l₁.length - 1, by omega⟩
    rw [List.take_length_add_append, List.take_succ_cons]
    exact List.mem_append_right _ List.mem_cons_self

end

end Sorted

namespace Keyed

section
variable {α κ : Type*} {key : α → κ} {l l' : List α}

theorem eq_of_key_eq (hn : (l.map key).Nodup) {a b : α} (ha : a ∈ l) (hb : b ∈ l)
    (h : key a = key b) : a = b :=
  List.inj_on_of_nodup_map hn ha hb h

theorem nodup_filterMap_key {β : Type*} {key' : β → κ} {f : α → Option β} (hn : (l.map key).Nodup)
    (hf : ∀ a ∈ l, ∀ b, f a = some b → key' b = key a) : ((l.filterMap f).map key').Nodup := by
  induction l with
  | nil => exact List.nodup_nil
  | cons a l ih =>
    rw [List.map_cons, List.nodup_cons] at hn
    have htail := ih hn.2 fun a ha => hf a (List.mem_cons_of_mem _ ha)
    cases hfa : f a with
    | none => rwa [List.filterMap_cons_none hfa]
    | some b =>
      rw [List.filterMap_cons_some hfa, List.map_cons, List.nodup_cons]
      refine ⟨fun hmem => hn.1 ?_, htail⟩
      obtain ⟨b', hb', hkey⟩ := List.mem_map.mp hmem
      obtain ⟨a', ha', hfa'⟩ := List.mem_filterMap.mp hb'
      have hb : key a' = key a := by
        rw [← hf a' (List.mem_cons_of_mem _ ha') b' hfa', hkey]
        exact hf a List.mem_cons_self b hfa
      exact hb ▸ List.mem_map_of_mem ha'

end

/-! ## searching -/

section
variable {α κ : Type*} [DecidableEq κ] {key : α → κ} {l : List α}

/-- a search gives what is the only member under the key, or nothing where there is none -/
theorem search_eq {k : κ} {x : Option α} (honly : ∀ a ∈ l, key a = k → x = some a)
    (hmem : ∀ a, x = some a → a ∈ l ∧ key a = k) : l.find? (fun a => key a = k) = x := by
  cases hfind : l.find? (fun a => key a = k) with
  | none =>
    cases x with
    | none => rfl
    | some a =>
      obtain ⟨ha, hk⟩ := hmem a rfl
      exact absurd (decide_eq_true hk) (List.find?_eq_none.mp hfind a ha)
  | some a =>
    have hk : key a = k := by simpa using List.find?_some hfind
    exact (honly a (List.mem_of_find?_eq_some hfind) hk).symm

theorem search_eq_some (hn : (l.map key).Nodup) {k : κ} {a : α} :
    l.find? (fun a => key a = k) = some a ↔ a ∈ l ∧ key a = k := by
  constructor
  · exact fun h => ⟨List.mem_of_find?_eq_some h, by simpa using List.find?_some h⟩
  · intro h
    refine search_eq (fun b hb hk => ?_) fun b hb => Option.some.inj hb ▸ h
    rw [eq_of_key_eq hn h.1 hb (h.2.trans hk.symm)]

end

/-! ## sorting -/

section
variable {α κ : Type*} [LinearOrder κ] {key : α → κ} {l l' : List α}

/-- distinct keys in order increase strictly -/
theorem pairwise_lt_of_le (h : l.Pairwise fun a b => key a ≤ key b) (hn : (l.map key).Nodup) :
    l.Pairwise fun a b => key a < key b := by
  have hne : l.Pairwise fun a b => key a ≠ key b := List.pairwise_map.mp hn
  exact (h.and hne).imp fun hab => lt_of_le_of_ne hab.1 hab.2

theorem pairwise_lt_sort (hn : (l.map key).Nodup) :
    (l.insertionSort fun a b => key a ≤ key b).Pairwise fun a b => key a < key b := by
  have : Std.Total fun a b : α => key a ≤ key b := ⟨fun a b => le_total (key a) (key b)⟩
  have : IsTrans α fun a b => key a ≤ key b := ⟨fun _ _ _ => le_trans⟩
  have hperm := List.perm_insertionSort (fun a b => key a ≤ key b) l
  exact pairwise_lt_of_le (List.pairwise_insertionSort _ l)
    ((hperm.map key).nodup_iff.mpr hn)

/-- lists whose keys increase are equal when they have the same members -/
theorem eq_of_mem_iff (h : l.Pairwise fun a b => key a < key b)
    (h' : l'.Pairwise fun a b => key a < key b) (hmem : ∀ a, a ∈ l ↔ a ∈ l') : l = l' := by
  have hperm : l.Perm l' := (List.perm_ext_iff_of_nodup (h.imp fun hab => ne_of_apply_ne key hab.ne)
    (h'.imp fun hab => ne_of_apply_ne key hab.ne)).mpr hmem
  exact hperm.eq_of_pairwise (fun a b _ _ hab hba => absurd (hab.trans hba) (lt_irrefl _)) h h'

end

end Keyed
