import ProtocolRobustness.Canonical.Injective
import ProtocolRobustness.Effects.Net

/-!
# Roots of states

* `stateRoot_eq`        a state without negative quantities has a root;
* `listing`             its entries as the encoder sees them;
* `stateBytes_eq_iff`   states have one preimage when they hold the same quantities;
* `transition_spec`     the transition of known effects, and the state it ends in.
-/

namespace PRF
open Bytes Fallible

theorem mem_of_amount {s : Quantities} {e : String × ℤ} (he : e ∈ s.entries) :
    s.amount e.1 = e.2 := by
  unfold Quantities.amount Quantities.find
  rw [Table.find_of_mem s.nodup he]
  rfl

theorem stateRoot_eq {sha256 : ByteString → String} {s : Quantities}
    (h : ∀ root, 0 ≤ s.amount root) : stateRoot sha256 s = .ok (sha256 (stateBytes s)) := by
  have hall : (s.entries.all fun e => 0 ≤ e.2) = true := by
    rw [List.all_eq_true]
    intro e he
    rw [decide_eq_true_eq, ← mem_of_amount he]
    exact h e.1
  unfold stateRoot
  rw [hall]
  rfl

/-- the entries of a state as the encoder sees them -/
def Quantities.listing (s : Quantities) : List (Key × Value) :=
  s.entries.map fun e => (.str e.1, .int e.2)

theorem listing_keys (s : Quantities) : (s.listing.map Prod.fst).Nodup := by
  unfold Quantities.listing
  rw [List.map_map]
  have hinj : Function.Injective Key.str := fun _ _ h => Key.str.inj h
  show (s.entries.map (Key.str ∘ Prod.fst)).Nodup
  rw [← List.map_map]
  exact s.nodup.map hinj

theorem listing_normal (s : Quantities) : ∀ e ∈ s.listing, Normal e.2 := by
  intro e he
  obtain ⟨p, _, rfl⟩ := List.mem_map.mp he
  exact Normal.int p.2

theorem entryBytes_congr {es fs : List (Key × Value)} (h : entryBytes es = entryBytes fs) :
    canonicalBytes (.map es) = canonicalBytes (.map fs) := by
  have hl := congrArg List.length h
  rw [entryBytes_eq, entryBytes_eq, List.length_map, List.length_map] at hl
  rw [canonicalBytes, canonicalBytes, h, hl]

/-- the listing of the map around a state, in the order of the encoder -/
def Quantities.normalValue (fs : List (Key × Value)) : Value :=
  .map [(key "quantities", .map fs), (key "schema-version", .str "canonical-effect-state.v1")]

theorem normal_normalValue {fs : List (Key × Value)} (h : Normal (.map fs)) :
    Normal (Quantities.normalValue fs) := by
  refine Normal.map ?_ fun e he => ?_
  · rw [List.pairwise_cons]
    refine ⟨fun e he => ?_, List.pairwise_singleton _ _⟩
    obtain rfl := List.mem_singleton.mp he
    show compareBytes (keyBytes (key "quantities")) (keyBytes (key "schema-version")) = .lt
    decide +kernel
  · rcases List.mem_cons.mp he with rfl | he
    · exact h
    · obtain rfl := List.mem_singleton.mp he
      exact Normal.str _

theorem value_bytes {s : Quantities} {fs : List (Key × Value)} (hp : s.listing.Perm fs) :
    canonicalBytes s.value = canonicalBytes (Quantities.normalValue fs) := by
  have hswap : canonicalBytes s.value = canonicalBytes (Quantities.normalValue s.listing) :=
    canonicalBytes_map_perm (List.Perm.swap _ _ _)
      (by show [key "schema-version", key "quantities"].Nodup; decide)
  rw [hswap]
  refine entryBytes_congr ?_
  simp only [entryBytes, canonicalBytes_map_perm hp (listing_keys s)]

theorem listing_perm {s t : Quantities} (h : s.listing.Perm t.listing) :
    s.entries.Perm t.entries := by
  refine (List.map_perm_map_iff fun e f hef => ?_).mp h
  obtain ⟨hk, hv⟩ := Prod.mk.inj hef
  exact Prod.ext (Key.str.inj hk) (Value.int.inj hv)

/-- **States have one preimage when they hold the same quantities.** -/
theorem stateBytes_eq_iff {s t : Quantities} :
    stateBytes s = stateBytes t ↔ ∀ root, s.find root = t.find root := by
  unfold stateBytes
  rw [List.append_cancel_left_eq]
  constructor
  · intro h
    obtain ⟨fs, hp, hn⟩ := exists_normal (listing_keys s) (listing_normal s)
    obtain ⟨gs, hp', hn'⟩ := exists_normal (listing_keys t) (listing_normal t)
    rw [value_bytes hp, value_bytes hp'] at h
    have hv := canonicalBytes_injective (normal_normalValue hn) (normal_normalValue hn') h
    obtain rfl : fs = gs := by
      unfold Quantities.normalValue at hv
      simpa using hv
    exact Table.find_perm s.nodup (listing_perm (hp.trans hp'.symm))
  · intro h
    have hperm : s.listing.Perm t.listing := (Table.perm_of_find s.nodup t.nodup h).map _
    rw [value_bytes hperm, value_bytes (List.Perm.refl t.listing)]

/-! ## transitions -/

/-- **Known effects that leave no quantity below zero have a transition.** -/
theorem transition_spec (sha256 : ByteString → String) {s : Quantities} {effects : List Effect}
    (hk : Known effects) (hs : ∀ root, 0 ≤ s.amount root)
    (h : ∀ root, 0 ≤ s.amount root + netOf effects root) :
    ∃ canonical, transition sha256 s effects = .ok canonical ∧
      canonical.effects = normalForm effects ∧
      canonical.stateBeforeRoot = sha256 (stateBytes s) ∧
      canonical.stateAfterRoot = sha256 (stateBytes canonical.stateAfter) ∧
      ∀ root, canonical.stateAfter.find root
        = if netOf effects root ≠ 0 then some (s.amount root + netOf effects root)
          else s.find root := by
  obtain ⟨after, happly, hfind⟩ := applyEffects_spec (s := s) known_normalForm
    (fun root => (netOf_normalForm root).symm ▸ h root)
  simp only [netOf_normalForm] at hfind
  have hafter : ∀ root, 0 ≤ after.amount root := by
    intro root
    rw [Quantities.amount, hfind]
    split
    · exact h root
    · exact hs root
  unfold transition effectsRoot
  simp only [normalizeEffects_eq hk, normalizeEffects_eq known_normalForm, happly, stateRoot_eq hs,
    stateRoot_eq hafter, bind, Except.bind, pure, Except.pure]
  exact ⟨_, rfl, rfl, rfl, rfl, hfind⟩

end PRF
