import ProtocolRobustness.Effects.Transition

/-!
# What effects come to

* `Effect.entry`         a target and its delta;
* `normalizeEffects_eq`   the normal form holds each target with a net that is not zero, once;
* `Quantities.collect`   deltas added to a state one by one;
* `applyEffects_spec`    as long as no quantity ends below zero, a list of effects changes the
                         quantities with a net that is not zero, and only these.
-/

namespace PRF
open Bytes Fallible

def Effect.entry (e : Effect) : String × ℤ := (e.quantityRoot, e.delta)

/-- the net delta of a target -/
def netOf (effects : List Effect) (root : String) : ℤ :=
  GroupSum.net (effects.map Effect.entry) root

/-- every effect is of the schema that is known -/
def Known (effects : List Effect) : Prop := ∀ e ∈ effects, e.schemaVersion = effectSchema

theorem map_entry_fst (effects : List Effect) :
    (effects.map Effect.entry).map Prod.fst = effects.map Effect.quantityRoot := by
  rw [List.map_map]
  rfl

/-! ## normal forms -/

section
variable {effects : List Effect}

theorem totals_eq (h : Known effects) :
    totals effects = .ok (GroupSum.collect [] (effects.map Effect.entry)) := by
  unfold totals
  generalize ([] : List (String × ℤ)) = m
  induction effects generalizing m with
  | nil => rfl
  | cons e effects ih =>
    have he : (decide (e.schemaVersion = effectSchema)) = true :=
      decide_eq_true (h e List.mem_cons_self)
    rw [List.foldlM_cons, he]
    exact ih (fun f hf => h f (List.mem_cons_of_mem e hf)) _

def normalForm (effects : List Effect) : List Effect :=
  (((GroupSum.collect [] (effects.map Effect.entry)).filter fun e => e.2 ≠ 0).insertionSort
    fun e f => notAfter e.1 f.1).map fun e => delta e.1 e.2

theorem normalizeEffects_eq (h : Known effects) :
    normalizeEffects effects = .ok (normalForm effects) := by
  unfold normalizeEffects
  rw [totals_eq h]
  rfl

theorem known_normalForm : Known (normalForm effects) := by
  intro e he
  obtain ⟨p, _, rfl⟩ := List.mem_map.mp he
  rfl

theorem entries_normalForm : ((normalForm effects).map Effect.entry).Perm
    ((GroupSum.collect [] (effects.map Effect.entry)).filter fun e => e.2 ≠ 0) := by
  unfold normalForm
  rw [List.map_map]
  show (List.map id _).Perm _
  rw [List.map_id]
  exact List.perm_insertionSort _ _

theorem roots_nodup : ((normalForm effects).map Effect.quantityRoot).Nodup := by
  rw [← map_entry_fst, (entries_normalForm.map Prod.fst).nodup_iff]
  exact (GroupSum.nodup_collect (m := []) List.nodup_nil _).sublist (List.filter_sublist.map Prod.fst)

theorem mem_entries_normalForm {root : String} {d : ℤ} :
    (root, d) ∈ (normalForm effects).map Effect.entry ↔ d = netOf effects root ∧ d ≠ 0 := by
  rw [entries_normalForm.mem_iff, List.mem_filter]
  have hn := GroupSum.nodup_collect (m := ([] : List (String × ℤ))) List.nodup_nil
    (effects.map Effect.entry)
  constructor
  · rintro ⟨hm, hd⟩
    have hf := Table.find_of_mem hn hm
    have hsum := GroupSum.getD_find_collect [] (effects.map Effect.entry) root
    rw [hf, Option.getD_some, Table.find_nil, Option.getD_none, zero_add] at hsum
    exact ⟨hsum, by simpa using hd⟩
  · rintro ⟨rfl, hd⟩
    refine ⟨Table.mem_of_find ?_, by simpa using hd⟩
    rw [GroupSum.find_collect, if_pos, Table.find_nil, Option.getD_none, zero_add]
    · rfl
    · by_contra hk
      exact hd (GroupSum.net_of_not_mem hk)

theorem mem_roots_normalForm {root : String} :
    root ∈ (normalForm effects).map Effect.quantityRoot ↔ netOf effects root ≠ 0 := by
  rw [← map_entry_fst, List.mem_map]
  constructor
  · rintro ⟨⟨r, d⟩, hm, rfl⟩
    obtain ⟨hd, h0⟩ := mem_entries_normalForm.mp hm
    exact hd ▸ h0
  · exact fun h => ⟨(root, netOf effects root), mem_entries_normalForm.mpr ⟨rfl, h⟩, rfl⟩

theorem netOf_normalForm (root : String) : netOf (normalForm effects) root = netOf effects root := by
  by_cases h : netOf effects root = 0
  · rw [h]
    refine GroupSum.net_of_not_mem ?_
    rw [map_entry_fst, mem_roots_normalForm]
    exact not_not.mpr h
  · refine GroupSum.net_of_mem ?_ (mem_entries_normalForm.mpr ⟨rfl, h⟩)
    rw [map_entry_fst]
    exact roots_nodup

end

/-! ## effects on a state -/

namespace Quantities

/-- deltas added one by one -/
def collect (s : Quantities) (es : List (String × ℤ)) : Quantities :=
  ⟨GroupSum.collect s.entries es, GroupSum.nodup_collect s.nodup es⟩

theorem collect_cons (s : Quantities) (e : String × ℤ) (es : List (String × ℤ)) :
    s.collect (e :: es) = (s.collect [e]).collect es := rfl
theorem collect_append (s : Quantities) (es fs : List (String × ℤ)) :
    s.collect (es ++ fs) = (s.collect es).collect fs := by
  unfold collect
  simp only [GroupSum.collect_append]

theorem find_collect (s : Quantities) (es : List (String × ℤ)) (root : String) :
    (s.collect es).find root = if root ∈ es.map Prod.fst
      then some (s.amount root + GroupSum.net es root) else s.find root :=
  GroupSum.find_collect s.entries es root

theorem amount_collect (s : Quantities) (es : List (String × ℤ)) (root : String) :
    (s.collect es).amount root = s.amount root + GroupSum.net es root :=
  GroupSum.getD_find_collect s.entries es root

end Quantities

section
variable {effects : List Effect} {s : Quantities}

theorem applyEffect_eq {e : Effect} (h : 0 ≤ s.amount e.quantityRoot + e.delta) :
    applyEffect s e = .ok (s.collect [e.entry]) := by
  unfold applyEffect
  simp only [whenNot, decide_eq_true h]
  rfl

theorem foldlM_applyEffect {ns : List Effect} (hn : (ns.map Effect.quantityRoot).Nodup)
    (h : ∀ e ∈ ns, 0 ≤ s.amount e.quantityRoot + e.delta) :
    ns.foldlM applyEffect s = .ok (s.collect (ns.map Effect.entry)) := by
  induction ns generalizing s with
  | nil => rfl
  | cons e ns ih =>
    rw [List.map_cons, List.nodup_cons] at hn
    rw [List.map_cons, Quantities.collect_cons, List.foldlM_cons,
      applyEffect_eq (h e List.mem_cons_self)]
    refine ih hn.2 fun f hf => ?_
    have hne : e.quantityRoot ≠ f.quantityRoot := fun he => hn.1 (he ▸ List.mem_map_of_mem hf)
    have hsame : (s.collect [e.entry]).amount f.quantityRoot = s.amount f.quantityRoot := by
      have hz : (if e.entry.1 = f.quantityRoot then e.entry.2 else 0) = 0 := if_neg hne
      rw [Quantities.amount_collect, GroupSum.net_cons, GroupSum.net_nil, hz, add_zero, add_zero]
    rw [hsame]
    exact h f (List.mem_cons_of_mem e hf)

theorem applyEffects_eq (hk : Known effects)
    (h : ∀ root, 0 ≤ s.amount root + netOf effects root) :
    applyEffects s effects = .ok (s.collect ((normalForm effects).map Effect.entry)) := by
  unfold applyEffects
  rw [normalizeEffects_eq hk]
  refine foldlM_applyEffect roots_nodup fun e he => ?_
  obtain ⟨hd, _⟩ := mem_entries_normalForm.mp (List.mem_map_of_mem he)
  rw [hd]
  exact h e.quantityRoot

theorem find_collect_normalForm (root : String) :
    (s.collect ((normalForm effects).map Effect.entry)).find root
      = if netOf effects root ≠ 0 then some (s.amount root + netOf effects root)
        else s.find root := by
  rw [Quantities.find_collect, map_entry_fst]
  simp only [mem_roots_normalForm]
  split
  · exact congrArg (fun d => some (s.amount root + d)) (netOf_normalForm root)
  · rfl

/-- **Effects change the quantities with a net that is not zero.** -/
theorem applyEffects_spec (hk : Known effects)
    (h : ∀ root, 0 ≤ s.amount root + netOf effects root) :
    ∃ s', applyEffects s effects = .ok s' ∧ ∀ root, s'.find root
      = if netOf effects root ≠ 0 then some (s.amount root + netOf effects root)
        else s.find root :=
  ⟨_, applyEffects_eq hk h, find_collect_normalForm⟩

end

end PRF
