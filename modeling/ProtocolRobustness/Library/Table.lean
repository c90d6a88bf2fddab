import Mathlib.Data.List.Basic
import Mathlib.Data.List.Nodup
import Mathlib.Tactic

/-!
# Tables as association lists

A finite map kept as the list of its entries: `find` reads the first entry under a key, `put`
replaces the entry under a key or adds one, `into` puts a list of entries one after the other.

* `find_put`, `find_into`   reading after a write;
* `into_fresh`    entries with fresh, distinct keys are appended as they are;
* `find_of_mem`   with distinct keys, every entry is found under its key.
-/

namespace Table

section
variable {κ ν : Type*} [DecidableEq κ]

def find (m : List (κ × ν)) (k : κ) : Option ν := (m.find? fun e => e.1 = k).map Prod.snd

def put (m : List (κ × ν)) (k : κ) (v : ν) : List (κ × ν) :=
  if k ∈ m.map Prod.fst then m.map fun e => if e.1 = k then (k, v) else e else m ++ [(k, v)]

def into (m : List (κ × ν)) (es : List (κ × ν)) : List (κ × ν) :=
  es.foldl (fun m e => put m e.1 e.2) m

theorem find_nil (k : κ) : find ([] : List (κ × ν)) k = none := rfl

theorem find_cons (e : κ × ν) (m : List (κ × ν)) (k : κ) :
    find (e :: m) k = if e.1 = k then some e.2 else find m k := by
  unfold find
  rw [List.find?_cons]
  by_cases h : e.1 = k <;> simp [h]

theorem find_append (m m' : List (κ × ν)) (k : κ) :
    find (m ++ m') k = (find m k).or (find m' k) := by
  induction m with
  | nil => rfl
  | cons e m ih =>
    rw [List.cons_append, find_cons, find_cons, ih]
    by_cases h : e.1 = k <;> simp [h]

theorem find_eq_none_iff (m : List (κ × ν)) (k : κ) : find m k = none ↔ k ∉ m.map Prod.fst := by
  unfold find
  rw [Option.map_eq_none_iff, List.find?_eq_none]
  constructor
  · intro h hk
    obtain ⟨e, he, rfl⟩ := List.mem_map.mp hk
    exact h e he (by simp)
  · intro h e he hk
    exact h ((of_decide_eq_true hk) ▸ List.mem_map_of_mem he)

theorem mem_of_find {m : List (κ × ν)} {k : κ} {v : ν} (h : find m k = some v) : (k, v) ∈ m := by
  obtain ⟨e, he, hv⟩ := Option.map_eq_some_iff.mp h
  have hk : e.1 = k := by simpa using List.find?_some he
  have e' : e = (k, v) := Prod.ext hk hv
  exact e' ▸ List.mem_of_find?_eq_some he

theorem find_of_mem {m : List (κ × ν)} (hm : (m.map Prod.fst).Nodup) {k : κ} {v : ν}
    (h : (k, v) ∈ m) : find m k = some v := by
  induction m with
  | nil => cases h
  | cons e m ih =>
    rw [List.map_cons, List.nodup_cons] at hm
    rw [find_cons]
    rcases List.mem_cons.mp h with rfl | h'
    · rw [if_pos rfl]
    · have hne : e.1 ≠ k := fun hk => hm.1 (hk ▸ List.mem_map_of_mem h')
      rw [if_neg hne, ih hm.2 h']

theorem put_fresh {m : List (κ × ν)} {k : κ} (h : k ∉ m.map Prod.fst) (v : ν) :
    put m k v = m ++ [(k, v)] :=
  if_neg h

theorem find_put (m : List (κ × ν)) (k k' : κ) (v : ν) :
    find (put m k v) k' = if k = k' then some v else find m k' := by
  unfold put
  by_cases h : k ∈ m.map Prod.fst
  · rw [if_pos h]
    induction m with
    | nil => cases h
    | cons e m ih =>
      rw [List.map_cons, find_cons, find_cons]
      by_cases he : e.1 = k
      · rw [if_pos he]
        by_cases hk : k = k'
        · rw [if_pos hk, if_pos hk]
        · rw [if_neg hk, if_neg hk, if_neg (he ▸ hk)]
          by_cases hm : k ∈ m.map Prod.fst
          · rw [ih hm, if_neg hk]
          · have hid : (m.map fun e => if e.1 = k then (k, v) else e) = m := by
              conv_rhs => rw [← List.map_id m]
              refine List.map_congr_left fun e' he' => if_neg fun hk' => hm ?_
              exact hk' ▸ List.mem_map_of_mem he'
            rw [hid]
      · rw [if_neg he]
        have hm : k ∈ m.map Prod.fst := by
          rcases List.mem_cons.mp (List.map_cons ▸ h) with hk | hk
          · exact absurd hk.symm he
          · exact hk
        rw [ih hm]
        by_cases hk : k = k'
        · rw [if_pos hk, if_pos hk, if_neg (hk ▸ he)]
        · rw [if_neg hk, if_neg hk]
  · rw [if_neg h, find_append, find_cons, find_nil]
    by_cases hk : k = k'
    · rw [if_pos hk, if_pos hk, (find_eq_none_iff m k').mpr (hk ▸ h)]
      rfl
    · rw [if_neg hk, if_neg hk]
      cases find m k' <;> rfl

theorem mem_put {m : List (κ × ν)} {k : κ} {v : ν} {e : κ × ν} (he : e ∈ put m k v) :
    e = (k, v) ∨ e ∈ m ∧ e.1 ≠ k := by
  unfold put at he
  split at he
  · obtain ⟨e', he', rfl⟩ := List.mem_map.mp he
    split
    · exact Or.inl rfl
    · next hne => exact Or.inr ⟨he', hne⟩
  · next hnew =>
    rcases List.mem_append.mp he with he | he
    · exact Or.inr ⟨he, fun hk => hnew (hk ▸ List.mem_map_of_mem he)⟩
    · exact Or.inl (List.mem_singleton.mp he)

theorem keys_put (m : List (κ × ν)) (k : κ) (v : ν) :
    (put m k v).map Prod.fst = if k ∈ m.map Prod.fst then m.map Prod.fst
      else m.map Prod.fst ++ [k] := by
  unfold put
  split
  · rw [List.map_map]
    refine List.map_congr_left fun e _ => ?_
    by_cases he : e.1 = k <;> simp [he]
  · rw [List.map_append]
    rfl

/-- the second of two writes under a key counts -/
theorem put_put (m : List (κ × ν)) (k : κ) (v v' : ν) : put (put m k v) k v' = put m k v' := by
  have hmem : k ∈ (put m k v).map Prod.fst := by
    rw [keys_put]
    split
    · next hk => exact hk
    · exact List.mem_append_right _ (List.mem_singleton_self k)
  rw [put, if_pos hmem]
  unfold put
  split
  · rw [List.map_map]
    refine List.map_congr_left fun e _ => ?_
    by_cases he : e.1 = k <;> simp [he]
  · next hk =>
    have hid : (m.map fun e => if e.1 = k then (k, v') else e) = m := by
      conv_rhs => rw [← List.map_id m]
      refine List.map_congr_left fun e he => if_neg fun hk' => hk ?_
      exact hk' ▸ List.mem_map_of_mem he
    rw [List.map_append, hid]
    simp

theorem nodup_put {m : List (κ × ν)} (h : (m.map Prod.fst).Nodup) (k : κ) (v : ν) :
    ((put m k v).map Prod.fst).Nodup := by
  rw [keys_put]
  split
  · exact h
  · next hk =>
    rw [List.nodup_append]
    refine ⟨h, List.nodup_singleton k, fun a ha b hb => ?_⟩
    rw [List.mem_singleton.mp hb]
    exact fun he => hk (he ▸ ha)

/-- a change of every value -/
theorem map_put {μ : Type*} (m : List (κ × ν)) (g : ν → μ) (k : κ) (v : ν) :
    (put m k v).map (fun e => (e.1, g e.2)) = put (m.map fun e => (e.1, g e.2)) k (g v) := by
  have hkeys : (m.map fun e => (e.1, g e.2)).map Prod.fst = m.map Prod.fst := by
    rw [List.map_map]
    rfl
  unfold put
  rw [hkeys]
  by_cases h : k ∈ m.map Prod.fst
  · rw [if_pos h, if_pos h, List.map_map, List.map_map]
    refine List.map_congr_left fun e _ => ?_
    by_cases he : e.1 = k <;> simp [he]
  · rw [if_neg h, if_neg h, List.map_append]
    rfl

theorem find_map {μ : Type*} (m : List (κ × ν)) (g : κ → ν → μ) (k : κ) :
    find (m.map fun e => (e.1, g e.1 e.2)) k = (find m k).map (g k) := by
  induction m with
  | nil => rfl
  | cons e m ih =>
    rw [List.map_cons, find_cons, find_cons, ih]
    by_cases h : e.1 = k
    · subst h
      simp
    · simp [h]

/-- tables with distinct keys that are read alike hold the same entries -/
theorem perm_of_find {m m' : List (κ × ν)} (h : (m.map Prod.fst).Nodup)
    (h' : (m'.map Prod.fst).Nodup) (hf : ∀ k, find m k = find m' k) : m.Perm m' := by
  rw [List.perm_ext_iff_of_nodup h.of_map h'.of_map]
  rintro ⟨k, v⟩
  constructor
  · exact fun hm => mem_of_find ((hf k).symm.trans (find_of_mem h hm))
  · exact fun hm => mem_of_find ((hf k).trans (find_of_mem h' hm))

theorem find_perm {m m' : List (κ × ν)} (h : (m.map Prod.fst).Nodup) (hp : m.Perm m') (k : κ) :
    find m k = find m' k := by
  have h' : (m'.map Prod.fst).Nodup := (hp.map Prod.fst).nodup_iff.mp h
  cases hf : find m k with
  | none =>
    rw [find_eq_none_iff, (hp.map Prod.fst).mem_iff] at hf
    exact ((find_eq_none_iff m' k).mpr hf).symm
  | some v => exact (find_of_mem h' (hp.mem_iff.mp (mem_of_find hf))).symm

theorem into_nil (m : List (κ × ν)) : into m [] = m := rfl
theorem into_cons (m : List (κ × ν)) (e : κ × ν) (es : List (κ × ν)) :
    into m (e :: es) = into (put m e.1 e.2) es := rfl

theorem nodup_into {m : List (κ × ν)} (h : (m.map Prod.fst).Nodup) (es : List (κ × ν)) :
    ((into m es).map Prod.fst).Nodup := by
  induction es generalizing m with
  | nil => exact h
  | cons e es ih => exact ih (nodup_put h e.1 e.2)

/-- no keys but those of the entries -/
theorem mem_keys_into {m es : List (κ × ν)} {k : κ} (h : k ∈ (into m es).map Prod.fst) :
    k ∈ m.map Prod.fst ∨ k ∈ es.map Prod.fst := by
  induction es generalizing m with
  | nil => exact Or.inl h
  | cons e es ih =>
    rw [List.map_cons, List.mem_cons]
    rcases ih h with h | h
    · rw [keys_put] at h
      split at h
      · exact Or.inl h
      · rcases List.mem_append.mp h with h | h
        · exact Or.inl h
        · exact Or.inr (Or.inl (List.mem_singleton.mp h))
    · exact Or.inr (Or.inr h)

theorem find_into (m : List (κ × ν)) {es : List (κ × ν)} (h : (es.map Prod.fst).Nodup) (k : κ) :
    find (into m es) k = (find es k).or (find m k) := by
  induction es generalizing m with
  | nil => rfl
  | cons e es ih =>
    rw [List.map_cons, List.nodup_cons] at h
    rw [into_cons, ih _ h.2, find_put, find_cons]
    by_cases hk : e.1 = k
    · rw [if_pos hk, if_pos hk, (find_eq_none_iff es k).mpr (hk ▸ h.1)]
      rfl
    · rw [if_neg hk, if_neg hk]

theorem into_fresh (m es : List (κ × ν)) (h : ((m ++ es).map Prod.fst).Nodup) :
    into m es = m ++ es := by
  induction es generalizing m with
  | nil => rw [into_nil, List.append_nil]
  | cons e es ih =>
    have hk : e.1 ∉ m.map Prod.fst := fun hk => by
      rw [List.map_append, List.nodup_append] at h
      exact h.2.2 _ hk _ List.mem_cons_self rfl
    rw [into_cons, put_fresh hk, ih]
    · rw [List.append_assoc]
      rfl
    · rw [List.append_assoc]
      exact h

end

end Table
