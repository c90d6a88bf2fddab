import ProtocolRobustness.Library.GroupSum
import ProtocolRobustness.Library.HostInt

/-!
# Sums by key in checked 64-bit arithmetic

* `sums`             a table of numbers updated entry by entry, as long as the additions succeed;
* `values`           the numbers of a table or of its entries as integers;
* `Adds`             some number of a list is big, or their sum fits;
* `NeverOverflows`   every running total of every key does;
* `exists_sums_iff`  the table is built exactly when no running total overflows;
* `total`, `find_sums`   and then holds the sum of each key;
* `sums_of_load`     it is built when the loads of the numbers add up to something that fits;
* `Agree`            two lists have the same sums.
-/

set_option linter.unusedSectionVars false

namespace CheckedSum
open LongArith Table

section
variable {κ : Type*} [DecidableEq κ]

/-- `(merge-with + m {k x})` -/
def add? (m : List (κ × HostInt)) (e : κ × HostInt) : Option (List (κ × HostInt)) :=
  match find m e.1 with
  | none => some (put m e.1 e.2)
  | some x => (x.add? e.2).map (put m e.1)

def sums (m es : List (κ × HostInt)) : Option (List (κ × HostInt)) := es.foldlM add? m

/-- the numbers as integers -/
def values (es : List (κ × HostInt)) : List (κ × ℤ) := es.map fun e => (e.1, e.2.value)

/-- the numbers under a key -/
def under (es : List (κ × HostInt)) (k : κ) : List HostInt := (es.filter fun e => e.1 = k).map Prod.snd

def Adds (xs : List HostInt) : Prop := (∃ x ∈ xs, x.big = true) ∨ Fits (xs.map HostInt.value).sum

def NeverOverflows (es : List (κ × HostInt)) : Prop := ∀ n k, Adds (under (es.take n) k)

theorem sums_cons (m : List (κ × HostInt)) (e : κ × HostInt) (es : List (κ × HostInt)) :
    sums m (e :: es) = (add? m e).bind fun m' => sums m' es := rfl
theorem sums_append (m es fs : List (κ × HostInt)) :
    sums m (es ++ fs) = (sums m es).bind fun m' => sums m' fs := List.foldlM_append

theorem values_append (es fs : List (κ × HostInt)) : values (es ++ fs) = values es ++ values fs :=
  List.map_append

theorem values_keys (es : List (κ × HostInt)) : (values es).map Prod.fst = es.map Prod.fst := by
  unfold values
  rw [List.map_map]
  rfl

theorem find_values (m : List (κ × HostInt)) (k : κ) : find (values m) k = (find m k).map HostInt.value := by
  induction m with
  | nil => rfl
  | cons e m ih =>
    show find ((e.1, e.2.value) :: values m) k = _
    rw [find_cons, find_cons, ih]
    by_cases h : e.1 = k
    · rw [if_pos h, if_pos h, Option.map_some]
    · rw [if_neg h, if_neg h]

theorem under_append (es fs : List (κ × HostInt)) (k : κ) :
    under (es ++ fs) k = under es k ++ under fs k := by
  unfold under
  rw [List.filter_append, List.map_append]

theorem under_single (e : κ × HostInt) (k : κ) : under [e] k = if e.1 = k then [e.2] else [] := by
  unfold under
  by_cases h : e.1 = k <;> simp [h]

theorem net_values (es : List (κ × HostInt)) (k : κ) :
    GroupSum.net (values es) k = ((under es k).map HostInt.value).sum := by
  induction es with
  | nil => rfl
  | cons e es ih =>
    show GroupSum.net ((e.1, e.2.value) :: values es) k = _
    rw [GroupSum.net_cons, ih, ← List.singleton_append, under_append, under_single]
    by_cases h : e.1 = k
    · rw [if_pos h, if_pos h, List.map_append, List.sum_append, List.map_singleton,
        List.sum_singleton]
    · rw [if_neg h, if_neg h, List.nil_append, zero_add]

theorem under_eq_nil_iff (es : List (κ × HostInt)) (k : κ) :
    under es k = [] ↔ k ∉ es.map Prod.fst := by
  unfold under
  rw [List.map_eq_nil_iff, List.filter_eq_nil_iff]
  constructor
  · intro h hk
    obtain ⟨e, he, rfl⟩ := List.mem_map.mp hk
    exact h e he (by simp)
  · intro h e he hk
    exact h (of_decide_eq_true hk ▸ List.mem_map_of_mem he)

/-! ## what a table of sums holds -/

/-- the table holds, under each key that occurs, the sum of its numbers, big when one of them is -/
def Holds (m es : List (κ × HostInt)) : Prop :=
  ∀ k, match find m k with
    | none => under es k = []
    | some x => under es k ≠ [] ∧ x.value = ((under es k).map HostInt.value).sum ∧
        (x.big = true ↔ ∃ y ∈ under es k, y.big = true)

theorem Holds.nil : Holds ([] : List (κ × HostInt)) [] := fun _ => rfl

theorem adds_single (x : HostInt) : Adds [x] := by
  cases hb : x.big with
  | true => exact Or.inl ⟨x, List.mem_singleton_self x, hb⟩
  | false =>
    refine Or.inr ?_
    simpa using x.fits hb

/-- a running total adds up when the addition that makes it succeeds -/
theorem adds_append_iff {xs : List HostInt} {x y : HostInt} (hv : x.value = (xs.map HostInt.value).sum)
    (hb : x.big = true ↔ ∃ z ∈ xs, z.big = true) :
    Adds (xs ++ [y]) ↔ ((x.big || y.big) = false → Fits (x.value + y.value)) := by
  have hsum : ((xs ++ [y]).map HostInt.value).sum = x.value + y.value := by
    rw [hv, List.map_append, List.sum_append]
    simp
  have hbig : (∃ z ∈ xs ++ [y], z.big = true) ↔ (x.big || y.big) = true := by
    rw [Bool.or_eq_true, hb]
    constructor
    · rintro ⟨z, hz, h⟩
      rcases List.mem_append.mp hz with hz | hz
      · exact Or.inl ⟨z, hz, h⟩
      · exact Or.inr (List.mem_singleton.mp hz ▸ h)
    · rintro (⟨z, hz, h⟩ | h)
      · exact ⟨z, List.mem_append_left _ hz, h⟩
      · exact ⟨y, List.mem_append_right _ (List.mem_singleton_self y), h⟩
  rw [Adds, hbig, hsum, ← Bool.not_eq_true]
  exact ⟨fun h hn => h.resolve_left hn, fun h => or_iff_not_imp_left.mpr h⟩

theorem Holds.put {m es : List (κ × HostInt)} (h : Holds m es) {e : κ × HostInt} {x : HostInt}
    (hv : x.value = ((under (es ++ [e]) e.1).map HostInt.value).sum)
    (hb : x.big = true ↔ ∃ y ∈ under (es ++ [e]) e.1, y.big = true) :
    Holds (put m e.1 x) (es ++ [e]) := by
  intro k
  rw [find_put]
  by_cases hk : e.1 = k
  · rw [if_pos hk]
    subst hk
    refine ⟨?_, hv, hb⟩
    rw [under_append, under_single, if_pos rfl]
    exact List.append_ne_nil_of_right_ne_nil _ (List.cons_ne_nil _ _)
  · rw [if_neg hk, under_append, under_single, if_neg hk, List.append_nil]
    exact h k

/-- one entry: it is added exactly when the running total of its key adds up -/
theorem Holds.add {m es : List (κ × HostInt)} (h : Holds m es) (e : κ × HostInt) :
    (Adds (under (es ++ [e]) e.1) → ∃ m', add? m e = some m' ∧ Holds m' (es ++ [e])) ∧
      (¬ Adds (under (es ++ [e]) e.1) → add? m e = none) := by
  have hunder : under (es ++ [e]) e.1 = under es e.1 ++ [e.2] := by
    rw [under_append, under_single, if_pos rfl]
  have hk := h e.1
  unfold add?
  cases hf : find m e.1 with
  | none =>
    rw [hf] at hk
    have hone : under (es ++ [e]) e.1 = [e.2] := by rw [hunder, hk, List.nil_append]
    rw [hone]
    refine ⟨fun _ => ⟨_, rfl, h.put ?_ ?_⟩, fun hno => absurd (adds_single e.2) hno⟩
    · rw [hone]
      simp
    · rw [hone]
      simp
  | some x =>
    rw [hf] at hk
    obtain ⟨_, hv, hb⟩ := hk
    rw [hunder, adds_append_iff hv hb]
    constructor
    · intro hfits
      obtain ⟨a, ha, hav, hab⟩ := HostInt.hold_of hfits
      have hadd : x.add? e.2 = some a := ha
      refine ⟨Table.put m e.1 a, congrArg (Option.map _) hadd, h.put ?_ ?_⟩
      · rw [hunder, List.map_append, List.sum_append, ← hv, hav]
        simp
      · rw [hunder, hab, Bool.or_eq_true, hb]
        simp only [List.mem_append, List.mem_singleton]
        constructor
        · rintro (⟨y, hy, hyb⟩ | hy)
          · exact ⟨y, Or.inl hy, hyb⟩
          · exact ⟨e.2, Or.inr rfl, hy⟩
        · rintro ⟨y, hy | rfl, hyb⟩
          · exact Or.inl ⟨y, hy, hyb⟩
          · exact Or.inr hyb
    · intro hno
      have hadd : x.add? e.2 = none := HostInt.hold_eq_none hno
      exact congrArg (Option.map _) hadd

theorem NeverOverflows.append_iff {es : List (κ × HostInt)} {e : κ × HostInt} :
    NeverOverflows (es ++ [e]) ↔ NeverOverflows es ∧ Adds (under (es ++ [e]) e.1) := by
  constructor
  · intro h
    constructor
    · intro n k
      rcases le_total n es.length with hn | hn
      · have hk := h n k
        rwa [List.take_append_of_le_length hn] at hk
      · have hk := h es.length k
        rwa [List.take_append_of_le_length le_rfl, List.take_length, ← List.take_of_length_le hn]
          at hk
    · have hk := h (es.length + 1) e.1
      rwa [List.take_of_length_le (by simp)] at hk
  · rintro ⟨h, he⟩ n k
    rcases le_or_gt n es.length with hn | hn
    · rw [List.take_append_of_le_length hn]
      exact h n k
    · rw [List.take_of_length_le (by simp; omega)]
      by_cases hk : e.1 = k
      · exact hk ▸ he
      · rw [under_append, under_single, if_neg hk, List.append_nil]
        have hall := h es.length k
        rwa [List.take_length] at hall

/-- the run of the sums -/
theorem sums_spec (es : List (κ × HostInt)) :
    (NeverOverflows es → ∃ m, sums [] es = some m ∧ Holds m es) ∧
      (¬ NeverOverflows es → sums [] es = none) := by
  induction es using List.reverseRecOn with
  | nil =>
    refine ⟨fun _ => ⟨[], rfl, Holds.nil⟩, fun hno => absurd (fun n k => ?_) hno⟩
    rw [List.take_nil]
    exact Or.inr (by show Fits 0; decide)
  | append_singleton es e ih =>
    rw [NeverOverflows.append_iff, sums_append]
    constructor
    · rintro ⟨hes, he⟩
      obtain ⟨m, hm, hholds⟩ := ih.1 hes
      obtain ⟨m', hm', hholds'⟩ := (hholds.add e).1 he
      exact ⟨m', by rw [hm, Option.bind_some, sums_cons, hm']; rfl, hholds'⟩
    · intro hno
      by_cases hes : NeverOverflows es
      · obtain ⟨m, hm, hholds⟩ := ih.1 hes
        rw [hm, Option.bind_some, sums_cons, (hholds.add e).2 fun he => hno ⟨hes, he⟩]
        rfl
      · rw [ih.2 hes]
        rfl

/-- **The table is built exactly when no running total overflows.** -/
theorem exists_sums_iff (es : List (κ × HostInt)) : (∃ m, sums [] es = some m) ↔ NeverOverflows es := by
  constructor
  · rintro ⟨m, hm⟩
    by_contra hno
    rw [(sums_spec es).2 hno] at hm
    cases hm
  · intro h
    obtain ⟨m, hm, _⟩ := (sums_spec es).1 h
    exact ⟨m, hm⟩

/-- what a list adds up to under a key that occurs -/
def total (es : List (κ × HostInt)) (k : κ) : Option ℤ :=
  if k ∈ es.map Prod.fst then some (GroupSum.net (values es) k) else none

/-- **It then holds the sum of every key that occurs.** -/
theorem find_sums {m es : List (κ × HostInt)} (h : sums [] es = some m) (k : κ) :
    find (values m) k = total es k := by
  rw [find_values, total]
  obtain ⟨m', hm', hholds⟩ := (sums_spec es).1 ((exists_sums_iff es).mp ⟨m, h⟩)
  obtain rfl : m' = m := Option.some.inj (hm'.symm.trans h)
  have hk := hholds k
  cases hf : find m' k with
  | none =>
    rw [hf] at hk
    rw [if_neg ((under_eq_nil_iff es k).mp hk)]
    rfl
  | some x =>
    rw [hf] at hk
    rw [if_pos (not_not.mp fun hno => hk.1 ((under_eq_nil_iff es k).mpr hno)), net_values,
      Option.map_some, hk.2.1]

/-! ## sums that are small -/

/-- numbers whose loads are small add up, unless one of them is big -/
theorem adds_of_load {xs : List HostInt} (h : (xs.map HostInt.load).sum < 2 ^ 63) : Adds xs := by
  by_cases hbig : ∃ x ∈ xs, x.big = true
  · exact Or.inl hbig
  · refine Or.inr (HostInt.fits_of_abs (lt_of_le_of_lt ?_ h))
    clear h
    induction xs with
    | nil => simp
    | cons x xs ih =>
      rw [List.map_cons, List.sum_cons, List.map_cons, List.sum_cons]
      have hx : x.big = false := by
        rw [← Bool.not_eq_true]
        exact fun hb => hbig ⟨x, List.mem_cons_self, hb⟩
      have htail := ih fun ⟨y, hy, hb⟩ => hbig ⟨y, List.mem_cons_of_mem _ hy, hb⟩
      rw [HostInt.load_long hx]
      exact (abs_add_le _ _).trans (add_le_add_right htail _)

/-- **The table is built when the loads add up to something that fits.** -/
theorem sums_of_load {es : List (κ × HostInt)} (h : (es.map fun e => e.2.load).sum < 2 ^ 63) :
    ∃ m, sums [] es = some m := by
  refine (exists_sums_iff es).mpr fun n k => adds_of_load (lt_of_le_of_lt ?_ h)
  unfold under
  rw [List.map_map]
  have hsub : (((es.take n).filter fun e => e.1 = k).map fun e => e.2.load).Sublist
      (es.map fun e => e.2.load) := (List.filter_sublist.trans (List.take_sublist n es)).map _
  refine hsub.sum_le_sum fun x hx => ?_
  obtain ⟨e, -, rfl⟩ := List.mem_map.mp hx
  exact e.2.load_nonneg

/-! ## lists with the same sums -/

/-- the same keys occur, with the same sums -/
def Agree (es fs : List (κ × HostInt)) : Prop :=
  ∀ k, (k ∈ es.map Prod.fst ↔ k ∈ fs.map Prod.fst) ∧
    GroupSum.net (values es) k = GroupSum.net (values fs) k

theorem Agree.of_perm {es fs : List (κ × HostInt)} (h : es.Perm fs) : Agree es fs := fun k =>
  ⟨(h.map Prod.fst).mem_iff, GroupSum.net_perm (h.map _) k⟩

theorem Agree.trans {es fs gs : List (κ × HostInt)} (h : Agree es fs) (h' : Agree fs gs) :
    Agree es gs := fun k => ⟨(h k).1.trans (h' k).1, (h k).2.trans (h' k).2⟩

theorem Agree.append {es es' fs fs' : List (κ × HostInt)} (h : Agree es fs) (h' : Agree es' fs') :
    Agree (es ++ es') (fs ++ fs') := by
  intro k
  constructor
  · rw [List.map_append, List.map_append, List.mem_append, List.mem_append, (h k).1, (h' k).1]
  · rw [values_append, values_append, GroupSum.net_append, GroupSum.net_append, (h k).2, (h' k).2]

theorem Agree.flatMap {ι : Type*} {l : List ι} {f g : ι → List (κ × HostInt)}
    (h : ∀ i ∈ l, Agree (f i) (g i)) : Agree (l.flatMap f) (l.flatMap g) := by
  induction l with
  | nil => exact Agree.of_perm (List.Perm.refl _)
  | cons i l ih =>
    rw [List.flatMap_cons, List.flatMap_cons]
    exact (h i List.mem_cons_self).append (ih fun j hj => h j (List.mem_cons_of_mem _ hj))

theorem agree_iff {es fs : List (κ × HostInt)} : Agree es fs ↔ ∀ k, total es k = total fs k := by
  unfold total
  constructor
  · intro h k
    rw [(h k).2]
    exact if_congr (h k).1 rfl rfl
  · intro h k
    have hk := h k
    by_cases h1 : k ∈ es.map Prod.fst <;> by_cases h2 : k ∈ fs.map Prod.fst
    · rw [if_pos h1, if_pos h2] at hk
      exact ⟨iff_of_true h1 h2, Option.some.inj hk⟩
    · rw [if_pos h1, if_neg h2] at hk
      cases hk
    · rw [if_neg h1, if_pos h2] at hk
      cases hk
    · refine ⟨iff_of_false h1 h2, ?_⟩
      rw [GroupSum.net_of_not_mem (values_keys es ▸ h1),
        GroupSum.net_of_not_mem (values_keys fs ▸ h2)]

/-- a table with distinct keys adds up to its own numbers -/
theorem find_eq_total {m : List (κ × HostInt)} (hm : (m.map Prod.fst).Nodup) (k : κ) :
    find (values m) k = total m k := by
  unfold total
  cases hf : find (values m) k with
  | none =>
    rw [find_eq_none_iff, values_keys] at hf
    rw [if_neg hf]
  | some x =>
    have hx := mem_of_find hf
    rw [if_pos (values_keys m ▸ List.mem_map_of_mem hx),
      GroupSum.net_of_mem (values_keys m ▸ hm) hx]

/-- the table of sums agrees with what it was built from -/
theorem Agree.of_sums {m es : List (κ × HostInt)} (hm : (m.map Prod.fst).Nodup)
    (h : sums [] es = some m) : Agree m es :=
  agree_iff.mpr fun k => (find_eq_total hm k).symm.trans (find_sums h k)

end

end CheckedSum
