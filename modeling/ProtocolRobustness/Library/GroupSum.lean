import ProtocolRobustness.Library.Table

/-!
# Sums by key, and over tables

* `net`       what a list of entries adds up to under a key;
* `add`, `collect`   a table that is updated entry by entry;
* `find_collect`     under the keys of the entries it holds the old value plus the net;
* `byFst`, `bySnd`   entries with two keys, by one of them;
* `net_byFst`        a net under the first key is the sum over the second ones;
* `net_add_le`       it is at least what two of the second keys have of it, when none has less than
                     nothing;
* `sumBy_put`        a write to a table takes out what was under the key and puts in the new value;
* `sumBy_congr`      only the values on the entries count;
* `sumBy_add`        an amount added under a key counts once;
* `sumBy_filter`     what is left of the sum when entries are dropped.
-/

set_option linter.unusedSectionVars false

namespace GroupSum
open Table

section
variable {κ : Type*} [DecidableEq κ]

def net (es : List (κ × ℤ)) (k : κ) : ℤ := ((es.filter fun e => e.1 = k).map Prod.snd).sum

theorem net_nil (k : κ) : net [] k = 0 := rfl

theorem net_cons (e : κ × ℤ) (es : List (κ × ℤ)) (k : κ) :
    net (e :: es) k = (if e.1 = k then e.2 else 0) + net es k := by
  unfold net
  rw [List.filter_cons]
  by_cases h : e.1 = k <;> simp [h]

theorem net_append (es fs : List (κ × ℤ)) (k : κ) : net (es ++ fs) k = net es k + net fs k := by
  unfold net
  rw [List.filter_append, List.map_append, List.sum_append]

theorem net_perm {es fs : List (κ × ℤ)} (h : es.Perm fs) (k : κ) : net es k = net fs k :=
  ((h.filter _).map _).sum_eq

theorem net_of_not_mem {es : List (κ × ℤ)} {k : κ} (h : k ∉ es.map Prod.fst) : net es k = 0 := by
  induction es with
  | nil => rfl
  | cons e es ih =>
    rw [List.map_cons, List.mem_cons, not_or] at h
    rw [net_cons, if_neg (Ne.symm h.1), ih h.2, add_zero]

/-- with one entry under a key, the net is that entry -/
theorem net_of_mem {es : List (κ × ℤ)} (hn : (es.map Prod.fst).Nodup) {k : κ} {x : ℤ}
    (h : (k, x) ∈ es) : net es k = x := by
  induction es with
  | nil => cases h
  | cons e es ih =>
    rw [List.map_cons, List.nodup_cons] at hn
    rw [net_cons]
    rcases List.mem_cons.mp h with rfl | h'
    · rw [if_pos rfl, net_of_not_mem hn.1, add_zero]
    · have hne : e.1 ≠ k := fun hk => hn.1 (hk ▸ List.mem_map_of_mem h')
      rw [if_neg hne, ih hn.2 h', zero_add]

theorem net_filter_ne_zero (es : List (κ × ℤ)) (k : κ) :
    net (es.filter fun e => e.2 ≠ 0) k = net es k := by
  induction es with
  | nil => rfl
  | cons e es ih =>
    rw [List.filter_cons]
    by_cases h : e.2 = 0
    · rw [if_neg (by simp [h]), ih, net_cons, h, ite_self, zero_add]
    · rw [if_pos (by simp [h]), net_cons, net_cons, ih]

/-- the nets of all keys make the sum of the entries -/
theorem sum_net {ks : List κ} (hks : ks.Nodup) {es : List (κ × ℤ)}
    (h : ∀ e ∈ es, e.1 ∈ ks) : (ks.map (net es)).sum = (es.map Prod.snd).sum := by
  induction es with
  | nil =>
    have hzero : (net [] : κ → ℤ) = fun _ => 0 := funext net_nil
    rw [hzero]
    simp
  | cons e es ih =>
    obtain ⟨he, hes⟩ := List.forall_mem_cons.mp h
    have hone : (ks.map fun k => if e.1 = k then e.2 else 0).sum = e.2 := by
      simp only [eq_comm (a := e.1)]
      rw [List.sum_map_ite_eq, List.count_eq_one_of_mem hks he]
      simp
    have hnet : net (e :: es) = fun k => (if e.1 = k then e.2 else 0) + net es k :=
      funext fun k => net_cons e es k
    rw [hnet, List.sum_map_add, hone, ih hes, List.map_cons, List.sum_cons]

/-! ## tables of sums -/

/-- `(update m k (fnil + 0) x)` -/
def add (m : List (κ × ℤ)) (e : κ × ℤ) : List (κ × ℤ) :=
  put m e.1 ((find m e.1).getD 0 + e.2)

def collect (m es : List (κ × ℤ)) : List (κ × ℤ) := es.foldl add m

theorem collect_cons (m : List (κ × ℤ)) (e : κ × ℤ) (es : List (κ × ℤ)) :
    collect m (e :: es) = collect (add m e) es := rfl
theorem collect_append (m es fs : List (κ × ℤ)) :
    collect m (es ++ fs) = collect (collect m es) fs := List.foldl_append

theorem find_add (m : List (κ × ℤ)) (e : κ × ℤ) (k : κ) :
    find (add m e) k = if e.1 = k then some ((find m k).getD 0 + e.2) else find m k := by
  rw [add, find_put]
  by_cases h : e.1 = k
  · rw [if_pos h, if_pos h, h]
  · rw [if_neg h, if_neg h]

theorem find_collect (m es : List (κ × ℤ)) (k : κ) : find (collect m es) k
    = if k ∈ es.map Prod.fst then some ((find m k).getD 0 + net es k) else find m k := by
  induction es generalizing m with
  | nil => rfl
  | cons e es ih =>
    rw [collect_cons, ih, find_add, List.map_cons, net_cons]
    by_cases he : e.1 = k
    · rw [if_pos he, if_pos he, if_pos (List.mem_cons.mpr (Or.inl he.symm))]
      by_cases hk : k ∈ es.map Prod.fst
      · rw [if_pos hk, Option.getD_some, add_assoc]
      · rw [if_neg hk, net_of_not_mem hk, add_zero]
    · rw [if_neg he, if_neg he, zero_add]
      by_cases hk : k ∈ es.map Prod.fst
      · rw [if_pos hk, if_pos (List.mem_cons_of_mem _ hk)]
      · rw [if_neg hk, if_neg (List.not_mem_cons_of_ne_of_not_mem (Ne.symm he) hk)]

theorem getD_find_collect (m es : List (κ × ℤ)) (k : κ) :
    (find (collect m es) k).getD 0 = (find m k).getD 0 + net es k := by
  rw [find_collect]
  split
  · rfl
  · next h => rw [net_of_not_mem h, add_zero]

theorem nodup_add {m : List (κ × ℤ)} (h : (m.map Prod.fst).Nodup) (e : κ × ℤ) :
    ((add m e).map Prod.fst).Nodup :=
  nodup_put h _ _

theorem nodup_collect {m : List (κ × ℤ)} (h : (m.map Prod.fst).Nodup) (es : List (κ × ℤ)) :
    ((collect m es).map Prod.fst).Nodup := by
  induction es generalizing m with
  | nil => exact h
  | cons e es ih => exact ih (nodup_add h e)

end

section
variable {κ ι : Type*} [DecidableEq κ] [DecidableEq ι]

def byFst (es : List ((κ × ι) × ℤ)) : List (κ × ℤ) := es.map fun e => (e.1.1, e.2)

def bySnd (es : List ((κ × ι) × ℤ)) : List (ι × ℤ) := es.map fun e => (e.1.2, e.2)

theorem net_cons_pair (e : (κ × ι) × ℤ) (es : List ((κ × ι) × ℤ)) (k : κ) (i : ι) :
    net (e :: es) (k, i) = (if e.1.1 = k ∧ e.1.2 = i then e.2 else 0) + net es (k, i) := by
  rw [net_cons]
  simp only [Prod.ext_iff]

/-- the entries with the other sign -/
def negated (es : List (κ × ℤ)) : List (κ × ℤ) := es.map fun e => (e.1, -e.2)

theorem net_negated (es : List (κ × ℤ)) (k : κ) : net (negated es) k = -net es k := by
  induction es with
  | nil => rfl
  | cons e es ih =>
    show net ((e.1, -e.2) :: negated es) k = _
    rw [net_cons, net_cons, ih]
    split <;> omega

theorem byFst_append (es fs : List ((κ × ι) × ℤ)) : byFst (es ++ fs) = byFst es ++ byFst fs :=
  List.map_append

theorem bySnd_append (es fs : List ((κ × ι) × ℤ)) : bySnd (es ++ fs) = bySnd es ++ bySnd fs :=
  List.map_append

theorem byFst_negated (es : List ((κ × ι) × ℤ)) : byFst (negated es) = negated (byFst es) := by
  simp [byFst, negated]

theorem bySnd_negated (es : List ((κ × ι) × ℤ)) : bySnd (negated es) = negated (bySnd es) := by
  simp [bySnd, negated]

/-- a net under the first key is the sum over the second ones -/
theorem net_byFst {is : List ι} (his : is.Nodup) {es : List ((κ × ι) × ℤ)}
    (h : ∀ e ∈ es, e.1.2 ∈ is) (k : κ) :
    net (byFst es) k = (is.map fun i => net es (k, i)).sum := by
  have hunder : ∀ i, net es (k, i) = net (bySnd (es.filter fun e => e.1.1 = k)) i := by
    intro i
    clear h
    induction es with
    | nil => rfl
    | cons e es ih =>
      rw [net_cons_pair, List.filter_cons, ih]
      by_cases hk : e.1.1 = k
      · simp only [hk, decide_true, if_true, true_and]
        show _ = net ((e.1.2, e.2) :: bySnd _) i
        rw [net_cons]
      · simp only [hk, decide_false, false_and, if_false, zero_add, Bool.false_eq_true]
  have hkeys : ∀ e ∈ bySnd (es.filter fun e => e.1.1 = k), e.1 ∈ is := by
    intro e he
    obtain ⟨e', he', rfl⟩ := List.mem_map.mp he
    exact h e' (List.mem_filter.mp he').1
  have hsum : net (byFst es) k
      = ((bySnd (es.filter fun e => e.1.1 = k)).map Prod.snd).sum := by
    unfold net byFst bySnd
    rw [List.filter_map, List.map_map, List.map_map]
    rfl
  rw [hsum, ← sum_net his hkeys]
  simp only [hunder]

theorem net_byFst_nonneg {es : List ((κ × ι) × ℤ)} {k : κ} (h : ∀ i, 0 ≤ net es (k, i)) :
    0 ≤ net (byFst es) k := by
  rw [net_byFst (List.nodup_dedup (es.map fun e => e.1.2))
    (fun e he => List.mem_dedup.mpr (List.mem_map_of_mem he)) k]
  apply List.sum_nonneg
  intro x hx
  obtain ⟨i, _, rfl⟩ := List.mem_map.mp hx
  exact h i

theorem net_swap (es : List ((κ × ι) × ℤ)) (k : κ) (i : ι) :
    net (es.map fun e => ((e.1.2, e.1.1), e.2)) (i, k) = net es (k, i) := by
  induction es with
  | nil => rfl
  | cons e es ih =>
    rw [List.map_cons, net_cons_pair, net_cons_pair, ih]
    simp only [and_comm]

theorem net_bySnd_nonneg {es : List ((κ × ι) × ℤ)} {i : ι} (h : ∀ k, 0 ≤ net es (k, i)) :
    0 ≤ net (bySnd es) i := by
  have hswap : bySnd es = byFst (es.map fun e => ((e.1.2, e.1.1), e.2)) := by
    simp [bySnd, byFst]
  rw [hswap]
  apply net_byFst_nonneg
  intro k
  rw [net_swap]
  exact h k

/-- **A net under the first key is at least what two of the second keys have of it.** -/
theorem net_add_le {es : List ((κ × ι) × ℤ)} {k : κ} (h : ∀ i, 0 ≤ net es (k, i)) {i j : ι}
    (hij : i ≠ j) : net es (k, i) + net es (k, j) ≤ net (byFst es) k := by
  let rest := ((es.map fun e => e.1.2).dedup.filter fun l => l ≠ i ∧ l ≠ j)
  have hnodup : (i :: j :: rest).Nodup := by
    refine List.nodup_cons.mpr ⟨?_, List.nodup_cons.mpr ⟨?_, (List.nodup_dedup _).filter _⟩⟩
    · simp [rest, hij]
    · simp [rest]
  have hkeys : ∀ e ∈ es, e.1.2 ∈ i :: j :: rest := by
    intro e he
    have hmem : e.1.2 ∈ (es.map fun e => e.1.2).dedup :=
      List.mem_dedup.mpr (List.mem_map_of_mem (f := fun e => e.1.2) he)
    by_cases hi : e.1.2 = i
    · simp [hi]
    · by_cases hj : e.1.2 = j
      · simp [hj]
      · refine List.mem_cons_of_mem _ (List.mem_cons_of_mem _ (List.mem_filter.mpr ⟨hmem, ?_⟩))
        simp [hi, hj]
  have hrest : 0 ≤ (rest.map fun l => net es (k, l)).sum := by
    apply List.sum_nonneg
    intro x hx
    obtain ⟨l, _, rfl⟩ := List.mem_map.mp hx
    exact h l
  rw [net_byFst hnodup hkeys k, List.map_cons, List.map_cons, List.sum_cons, List.sum_cons]
  linarith

end

end GroupSum

namespace Table

section
variable {κ ν : Type*} [DecidableEq κ]

def sumBy (f : κ → ν → ℤ) (m : List (κ × ν)) : ℤ := (m.map fun e => f e.1 e.2).sum

variable {f g : κ → ν → ℤ} {m : List (κ × ν)}

theorem sumBy_nil (f : κ → ν → ℤ) : sumBy f [] = 0 := rfl

theorem sumBy_cons (f : κ → ν → ℤ) (e : κ × ν) (m : List (κ × ν)) :
    sumBy f (e :: m) = f e.1 e.2 + sumBy f m := by
  simp [sumBy]

theorem sumBy_append (f : κ → ν → ℤ) (m m' : List (κ × ν)) :
    sumBy f (m ++ m') = sumBy f m + sumBy f m' := by
  simp [sumBy]

theorem sumBy_congr (h : ∀ e ∈ m, f e.1 e.2 = g e.1 e.2) : sumBy f m = sumBy g m :=
  congrArg List.sum (List.map_congr_left h)

theorem sumBy_eq_zero (h : ∀ e ∈ m, f e.1 e.2 = 0) : sumBy f m = 0 := by
  induction m with
  | nil => rfl
  | cons e m ih =>
    obtain ⟨he, hm⟩ := List.forall_mem_cons.mp h
    rw [sumBy_cons, he, ih hm, add_zero]

theorem sumBy_nonneg (h : ∀ e ∈ m, 0 ≤ f e.1 e.2) : 0 ≤ sumBy f m := by
  induction m with
  | nil => exact le_rfl
  | cons e m ih =>
    obtain ⟨he, hm⟩ := List.forall_mem_cons.mp h
    rw [sumBy_cons]
    exact add_nonneg he (ih hm)

theorem le_sumBy (h : ∀ e ∈ m, 0 ≤ f e.1 e.2) {e : κ × ν} (he : e ∈ m) :
    f e.1 e.2 ≤ sumBy f m := by
  induction m with
  | nil => cases he
  | cons e' m ih =>
    obtain ⟨he', hm⟩ := List.forall_mem_cons.mp h
    rw [sumBy_cons]
    rcases List.mem_cons.mp he with rfl | he
    · linarith [sumBy_nonneg hm]
    · linarith [ih hm he]

/-- what the sum has under a key -/
def entryBy (f : κ → ν → ℤ) (m : List (κ × ν)) (k : κ) : ℤ := ((find m k).map (f k)).getD 0

theorem entryBy_some {k : κ} {v : ν} (h : find m k = some v) : entryBy f m k = f k v := by
  simp [entryBy, h]

theorem entryBy_none {k : κ} (h : find m k = none) : entryBy f m k = 0 := by
  simp [entryBy, h]

/-- a sum with one key that counts -/
theorem sumBy_eq_entryBy (h : (m.map Prod.fst).Nodup) {k : κ}
    (hf : ∀ e ∈ m, e.1 ≠ k → f e.1 e.2 = 0) : sumBy f m = entryBy f m k := by
  induction m with
  | nil => rfl
  | cons e m ih =>
    rw [List.map_cons, List.nodup_cons] at h
    obtain ⟨he, hm⟩ := List.forall_mem_cons.mp hf
    rw [sumBy_cons, ih h.2 hm]
    by_cases hk : e.1 = k
    · rw [entryBy_none ((find_eq_none_iff m k).mpr (hk ▸ h.1)), add_zero,
        entryBy_some (v := e.2) (by rw [find_cons, if_pos hk]), hk]
    · rw [he hk, zero_add, entryBy, entryBy, find_cons, if_neg hk]

private theorem sumBy_replace {k : κ} (hk : k ∉ m.map Prod.fst) (v : ν) :
    sumBy f (m.map fun e => if e.1 = k then (k, v) else e) = sumBy f m := by
  have hid : (m.map fun e => if e.1 = k then (k, v) else e) = m := by
    conv_rhs => rw [← List.map_id m]
    refine List.map_congr_left fun e he => if_neg fun hk' => hk ?_
    exact hk' ▸ List.mem_map_of_mem he
  rw [hid]

/-- **A write takes out what was under the key and puts in the new value.** -/
theorem sumBy_put (h : (m.map Prod.fst).Nodup) (k : κ) (v : ν) :
    sumBy f (put m k v) = sumBy f m - entryBy f m k + f k v := by
  by_cases hk : k ∈ m.map Prod.fst
  · rw [put, if_pos hk]
    induction m with
    | nil => cases hk
    | cons e m ih =>
      rw [List.map_cons, List.nodup_cons] at h
      rw [List.map_cons, sumBy_cons, sumBy_cons]
      by_cases he : e.1 = k
      · have hrest : k ∉ m.map Prod.fst := he ▸ h.1
        have hentry : entryBy f (e :: m) k = f e.1 e.2 := by
          rw [entryBy_some (v := e.2) (by rw [find_cons, if_pos he]), he]
        rw [if_pos he, sumBy_replace hrest, hentry]
        ring
      · have hm : k ∈ m.map Prod.fst := by
          rcases List.mem_cons.mp (List.map_cons ▸ hk) with hk | hk
          · exact absurd hk.symm he
          · exact hk
        have hentry : entryBy f (e :: m) k = entryBy f m k := by
          rw [entryBy, find_cons, if_neg he, ← entryBy]
        rw [if_neg he, ih h.2 hm, hentry]
        ring
  · rw [put_fresh hk, sumBy_append, sumBy_cons, sumBy_nil,
      entryBy_none ((find_eq_none_iff m k).mpr hk)]
    ring

/-- an amount added under a key counts once, where the key counts -/
theorem sumBy_add {m : List (κ × ℤ)} (h : (m.map Prod.fst).Nodup) (p : κ → Prop) [DecidablePred p]
    (e : κ × ℤ) : sumBy (fun k x => if p k then x else 0) (GroupSum.add m e)
      = sumBy (fun k x => if p k then x else 0) m + if p e.1 then e.2 else 0 := by
  have hentry : entryBy (fun k x => if p k then x else 0) m e.1
      = if p e.1 then (find m e.1).getD 0 else 0 := by
    unfold entryBy
    cases find m e.1 <;> simp
  rw [GroupSum.add, sumBy_put h, hentry]
  split <;> ring

theorem sumBy_filter (f : κ → ν → ℤ) (p : κ → Bool) (m : List (κ × ν)) :
    sumBy f (m.filter fun e => p e.1)
      = sumBy f m - sumBy (fun k v => if p k then 0 else f k v) m := by
  induction m with
  | nil => rfl
  | cons e m ih =>
    rw [List.filter_cons, sumBy_cons, sumBy_cons]
    cases hp : p e.1
    · simp only [Bool.false_eq_true, if_false, ih]
      ring
    · simp only [if_true, sumBy_cons, ih]
      ring

theorem find_filter (p : κ → Bool) (m : List (κ × ν)) (k : κ) :
    find (m.filter fun e => p e.1) k = if p k then find m k else none := by
  induction m with
  | nil => simp [find_nil]
  | cons e m ih =>
    rw [List.filter_cons]
    cases hp : p e.1
    · rw [if_neg (by simp), ih, find_cons]
      by_cases he : e.1 = k
      · rw [if_pos he, ← he, hp]
        simp
      · rw [if_neg he]
    · rw [if_pos rfl, find_cons, find_cons, ih]
      by_cases he : e.1 = k
      · rw [if_pos he, if_pos he, ← he, hp, if_pos rfl]
      · rw [if_neg he, if_neg he]

theorem nodup_filter (h : (m.map Prod.fst).Nodup) (p : κ × ν → Bool) :
    ((m.filter p).map Prod.fst).Nodup :=
  h.sublist (List.filter_sublist.map Prod.fst)

end

end Table
