import ProtocolRobustness.Accounting.Reductions
import ProtocolRobustness.Library.CheckedSum
import ProtocolRobustness.Library.Fallible
import ProtocolRobustness.Library.Keyed

/-!
# The folds of an accounting reduction

The serial fold, the fold of a unit and the merge of partials are sums in checked arithmetic.

* `Follows`            a step on totals that adds an entry as `CheckedSum.add?` does;
* `Totals.same_iff`    equal totals are those that are read alike;
* `entriesOf`          what the sources under some roots add;
* `serialValues_eq`, `partialValues_eq`, `merge_eq`   each of the three as a fold of entries.
-/

namespace PRF.Accounting
open LongArith CheckedSum

/-! ## steps -/

/-- a step adds an entry, or throws where the addition overflows -/
def Follows (f : Totals → Keyword × HostInt → Except Failure Totals) : Prop :=
  ∀ m e, match add? m.entries e with
    | some t => ∃ n, f m e = .ok n ∧ n.entries = t
    | none => f m e = .error .overflow

theorem update_follows : Follows Totals.update := by
  intro m e
  unfold add? Totals.update
  cases hf : Table.find m.entries e.1 with
  | none =>
    rw [Option.getD_none, HostInt.zero_add?]
    exact ⟨m.put e.1 e.2, rfl, rfl⟩
  | some x =>
    rw [Option.getD_some]
    show match (x.add? e.2).map (Table.put m.entries e.1) with
      | some t => _
      | none => _
    cases ha : x.add? e.2 with
    | none => rfl
    | some y => exact ⟨m.put e.1 y, rfl, rfl⟩

theorem mergeEntry_follows : Follows Totals.mergeEntry := by
  intro m e
  unfold add? Totals.mergeEntry
  cases hf : Table.find m.entries e.1 with
  | none => exact ⟨m.put e.1 e.2, rfl, rfl⟩
  | some x =>
    show match (x.add? e.2).map (Table.put m.entries e.1) with
      | some t => _
      | none => _
    cases ha : x.add? e.2 with
    | none =>
      show (orThrow (x.add? e.2) Failure.overflow >>= _) = _
      rw [ha]
      rfl
    | some y =>
      refine ⟨m.put e.1 y, ?_, rfl⟩
      show (orThrow (x.add? e.2) Failure.overflow >>= _) = _
      rw [ha]
      rfl

section
variable {f : Totals → Keyword × HostInt → Except Failure Totals} (hf : Follows f)
include hf

theorem Follows.foldlM (m : Totals) (es : List (Keyword × HostInt)) :
    match sums m.entries es with
    | some t => ∃ n, es.foldlM f m = .ok n ∧ n.entries = t
    | none => es.foldlM f m = .error .overflow := by
  induction es generalizing m with
  | nil => exact ⟨m, rfl, rfl⟩
  | cons e es ih =>
    have h := hf m e
    rw [sums_cons, List.foldlM_cons]
    cases ha : add? m.entries e with
    | none =>
      rw [ha] at h
      rw [h]
      rfl
    | some t =>
      rw [ha] at h
      obtain ⟨n, hn, rfl⟩ := h
      rw [hn]
      exact ih n

/-- **The fold succeeds exactly when no running total overflows.** -/
theorem Follows.exists_iff (es : List (Keyword × HostInt)) :
    (∃ n, es.foldlM f .empty = .ok n) ↔ NeverOverflows es := by
  have h : match sums [] es with
    | some t => ∃ n, es.foldlM f .empty = .ok n ∧ n.entries = t
    | none => es.foldlM f .empty = .error .overflow := hf.foldlM .empty es
  rw [← exists_sums_iff]
  cases hs : sums [] es with
  | none =>
    rw [hs] at h
    rw [h]
    exact ⟨nofun, nofun⟩
  | some t =>
    rw [hs] at h
    obtain ⟨n, hn, _⟩ := h
    exact iff_of_true ⟨n, hn⟩ ⟨t, rfl⟩

/-- **The totals agree with the entries they were folded from.** -/
theorem Follows.agree {es : List (Keyword × HostInt)} {n : Totals} (h : es.foldlM f .empty = .ok n) :
    Agree n.entries es := by
  have hs : match sums [] es with
    | some t => ∃ n, es.foldlM f .empty = .ok n ∧ n.entries = t
    | none => es.foldlM f .empty = .error .overflow := hf.foldlM .empty es
  cases ht : sums [] es with
  | none =>
    rw [ht, h] at hs
    cases hs
  | some t =>
    rw [ht, h] at hs
    obtain ⟨n', hn, rfl⟩ := hs
    obtain rfl := Except.ok.inj hn
    exact Agree.of_sums n.nodup ht

end

/-! ## equal totals -/

theorem values_nodup (m : Totals) : ((values m.entries).map Prod.fst).Nodup :=
  values_keys m.entries ▸ m.nodup

theorem listing_eq_of_perm {m n : Totals} (h : (values m.entries).Perm (values n.entries)) :
    m.listing = n.listing := by
  refine Sorted.sort_eq_of_perm entryNotAfter h ?_
  rintro ⟨k, x⟩ hx ⟨l, y⟩ hy hkl hlk
  obtain rfl : k = l := keywordNotAfter_antisymm hkl hlk
  have h1 := Table.find_of_mem (values_nodup m) hx
  have h2 := Table.find_of_mem (values_nodup m) hy
  rw [Option.some.inj (h1.symm.trans h2)]

theorem listing_perm (m : Totals) : m.listing.Perm (values m.entries) :=
  List.perm_insertionSort _ _

/-- **Equal totals are those that agree.** -/
theorem Totals.same_iff {m n : Totals} : m.same n = true ↔ Agree m.entries n.entries := by
  have hiff : m.listing = n.listing ↔ Agree m.entries n.entries := by
    rw [agree_iff]
    constructor
    · intro h k
      have hp : (values m.entries).Perm (values n.entries) :=
        (listing_perm m).symm.trans (h ▸ listing_perm n)
      rw [← find_eq_total m.nodup, ← find_eq_total n.nodup]
      exact Table.find_perm (values_nodup m) hp k
    · intro h
      refine listing_eq_of_perm (Table.perm_of_find (values_nodup m) (values_nodup n) fun k => ?_)
      rw [find_eq_total m.nodup, find_eq_total n.nodup, h]
  unfold Totals.same
  rw [decide_eq_true_iff]
  exact hiff

theorem Totals.value_eq {m n : Totals} (h : m.same n = true) : m.value = n.value := by
  have hl : m.listing = n.listing := of_decide_eq_true h
  unfold Totals.value
  rw [hl]

/-! ## the three folds -/

/-- what the sources under some roots add -/
def entriesOf (r : Request) (roots : List String) : List (Keyword × HostInt) :=
  roots.filterMap fun root =>
    (Table.find (r.sources.map fun s => (s.sourceRoot, s)) root).map Source.entry

def serialEntries (r : Request) : List (Keyword × HostInt) := r.sources.map Source.entry

theorem serialValues_eq (r : Request) :
    serialValues r = (serialEntries r).foldlM Totals.update .empty := by
  unfold serialValues serialEntries
  rw [List.foldlM_map]

theorem merge_eq (m : Totals) (ps : List PartialResult) :
    ps.foldlM (fun result p => result.mergeWith p.values) m
      = (ps.flatMap fun p => p.values.entries).foldlM Totals.mergeEntry m := by
  induction ps generalizing m with
  | nil => rfl
  | cons p ps ih =>
    rw [List.foldlM_cons, List.flatMap_cons, List.foldlM_append]
    show (m.mergeWith p.values >>= _) = (m.mergeWith p.values >>= _)
    congr 1
    funext n
    exact ih n

theorem source_keys (r : Request) : (r.sources.map fun s => (s.sourceRoot, s)).map Prod.fst = r.sourceRoots := by
  rw [List.map_map]
  rfl

section
variable {r : Request} (hr : r.sourceRoots.Nodup)
include hr

theorem sourceMap_eq : Table.into [] (r.sources.map fun s => (s.sourceRoot, s))
    = r.sources.map fun s => (s.sourceRoot, s) :=
  Table.into_fresh _ _ (source_keys r ▸ hr)

theorem find_source {s : Source} (h : s ∈ r.sources) :
    Table.find (r.sources.map fun s => (s.sourceRoot, s)) s.sourceRoot = some s :=
  Table.find_of_mem (source_keys r ▸ hr) (List.mem_map_of_mem h)

theorem entriesOf_sourceRoots : entriesOf r r.sourceRoots = serialEntries r := by
  unfold entriesOf serialEntries Request.sourceRoots
  rw [List.filterMap_map]
  refine (List.filterMap_congr fun s hs => ?_).trans (congrFun List.filterMap_eq_map r.sources)
  show (Table.find _ s.sourceRoot).map _ = _
  rw [find_source hr hs]
  rfl

theorem entriesOf_agree {roots : List String} (h : roots.Perm r.sourceRoots) :
    Agree (entriesOf r roots) (serialEntries r) := by
  rw [← entriesOf_sourceRoots hr]
  exact Agree.of_perm (h.filterMap _)

theorem entriesOf_cons {s : Source} (h : s ∈ r.sources) (roots : List String) :
    entriesOf r (s.sourceRoot :: roots) = s.entry :: entriesOf r roots := by
  unfold entriesOf
  rw [List.filterMap_cons, find_source hr h]
  rfl

theorem partialValues_eq {u : WorkUnit} (h : ∀ root ∈ u.sourceRoots, root ∈ r.sourceRoots) :
    partialValues r u = (entriesOf r u.sourceRoots).foldlM Totals.update .empty := by
  unfold partialValues
  rw [sourceMap_eq hr]
  generalize Totals.empty = m
  revert h
  generalize u.sourceRoots = roots
  intro h
  induction roots generalizing m with
  | nil => rfl
  | cons root roots ih =>
    obtain ⟨hroot, hroots⟩ := List.forall_mem_cons.mp h
    obtain ⟨s, hs, rfl⟩ := List.mem_map.mp hroot
    rw [entriesOf_cons hr hs, List.foldlM_cons, List.foldlM_cons, find_source hr hs]
    show (m.update s.entry >>= _) = (m.update s.entry >>= _)
    congr 1
    funext n
    exact ih n hroots

end

end PRF.Accounting
