import ProtocolRobustness.Extensions.Registry

/-!
# Runs of the live registry

Whatever is registered and taken out, in whatever order, and refused or not: an entry stands under
its own key and has the root of its capability, the core stays, and a frozen registry is as it was.

* `Sound`                what holds of every registry;
* `Grown`                what registration leaves of a registry;
* `unregisterPackage_ok` what is left when a package goes;
* `change`               all that one operation can do;
* `registry_kept`        runs of the live registry.
-/

set_option linter.unusedSectionVars false

namespace PRF.Extensions
open Table Fallible

section
variable {ρ : Type} [DecidableEq ρ] {M : Manifests ρ} {emap emap' : ExtensionMap ρ}
  {k : CapabilityKey} {e e' : Entry ρ} {pkg : Package ρ} {cap : Capability} {pid : Keyword}

/-! ## invariants -/

/-- What holds of an entry of a registry. -/
structure EntrySound (M : Manifests ρ) (k : CapabilityKey) (e : Entry ρ) : Prop where
  key : capabilityKey e.capability = k
  rooted : e.descriptorRoot = M.descriptorRoot e.capability
  provided : e.providers ≠ []
  distinct : (e.providers.map Provider.packageRoot).Nodup

/-- What holds of every registry. -/
structure Sound (M : Manifests ρ) (emap : ExtensionMap ρ) : Prop where
  keys : (emap.map Prod.fst).Nodup
  entries : ∀ k e, find emap k = some e → EntrySound M k e

theorem Sound.nil : Sound M ([] : ExtensionMap ρ) := ⟨List.nodup_nil, fun _ _ h => by cases h⟩

theorem Sound.put (h : Sound M emap) (he : EntrySound M k e) : Sound M (put emap k e) where
  keys := nodup_put h.keys k e
  entries k' e' hfind := by
    rw [find_put] at hfind
    split at hfind
    · next hk =>
      obtain rfl := Option.some.inj hfind
      exact hk ▸ he
    · exact h.entries k' e' hfind

/-- An entry that is there stays: the same capability, the same root, and no fewer providers. -/
structure Extends (e e' : Entry ρ) : Prop where
  capability : e'.capability = e.capability
  root : e'.descriptorRoot = e.descriptorRoot
  builtin : e'.builtin = e.builtin
  providers : e.providers <+: e'.providers

theorem Extends.refl (e : Entry ρ) : Extends e e := ⟨rfl, rfl, rfl, List.prefix_refl _⟩

theorem Extends.trans {e₁ : Entry ρ} (h : Extends e e₁) (h' : Extends e₁ e') : Extends e e' :=
  ⟨h'.capability.trans h.capability, h'.root.trans h.root, h'.builtin.trans h.builtin,
    h.providers.trans h'.providers⟩

/-- the entries of a registry are in another one, extended -/
def Grown (emap emap' : ExtensionMap ρ) : Prop :=
  ∀ k e, find emap k = some e → ∃ e', find emap' k = some e' ∧ Extends e e'

theorem Grown.refl (emap : ExtensionMap ρ) : Grown emap emap := fun _ e he => ⟨e, he, .refl e⟩

theorem Grown.trans {emap₁ : ExtensionMap ρ} (h : Grown emap emap₁) (h' : Grown emap₁ emap') :
    Grown emap emap' := by
  intro k e he
  obtain ⟨e₁, he₁, hext⟩ := h k e he
  obtain ⟨e', he', hext'⟩ := h' k e₁ he₁
  exact ⟨e', he', hext.trans hext'⟩

/-- the capabilities of the core are in another registry, extended -/
def CoreKept (emap emap' : ExtensionMap ρ) : Prop :=
  ∀ k e, find emap k = some e → e.builtin = true → ∃ e', find emap' k = some e' ∧ Extends e e'

theorem CoreKept.refl (emap : ExtensionMap ρ) : CoreKept emap emap :=
  fun _ e he _ => ⟨e, he, .refl e⟩

theorem CoreKept.trans {emap₁ : ExtensionMap ρ} (h : CoreKept emap emap₁)
    (h' : CoreKept emap₁ emap') : CoreKept emap emap' := by
  intro k e he hbuiltin
  obtain ⟨e₁, he₁, hext⟩ := h k e he hbuiltin
  obtain ⟨e', he', hext'⟩ := h' k e₁ he₁ (hext.builtin.trans hbuiltin)
  exact ⟨e', he', hext.trans hext'⟩

theorem Grown.coreKept (h : Grown emap emap') : CoreKept emap emap' := fun k e he _ => h k e he

/-! ## registration -/

/-- **A registration adds an entry or a provider, and changes nothing else.** -/
theorem registerCapability_ok (h : registerCapability M emap pkg cap = .ok emap')
    (hs : Sound M emap) : Sound M emap' ∧ Grown emap emap' := by
  unfold registerCapability at h
  split at h
  · cases h
  · split at h
    · cases h
    · dsimp only at h
      split at h
      · next existing hexisting =>
        split at h
        · next hroot =>
          split at h
          · obtain rfl := Except.ok.inj h
            exact ⟨hs, .refl emap⟩
          · next hnew =>
            obtain rfl := Except.ok.inj h
            have hsound := hs.entries _ existing hexisting
            constructor
            · refine hs.put ⟨hsound.key, hsound.rooted, by simp, ?_⟩
              rw [List.map_append, List.map_singleton, List.nodup_append]
              refine ⟨hsound.distinct, List.nodup_singleton _, fun a ha b hb heq => hnew ?_⟩
              obtain ⟨p, hp, hpa⟩ := List.mem_map.mp ha
              refine List.any_eq_true.mpr ⟨p, hp, decide_eq_true ?_⟩
              rw [hpa, heq, List.mem_singleton.mp hb]
              rfl
            · intro k e he
              rw [find_put]
              split
              · next hk =>
                subst hk
                obtain rfl := Option.some.inj (hexisting.symm.trans he)
                exact ⟨_, rfl, rfl, rfl, rfl, List.prefix_append _ _⟩
              · exact ⟨e, he, .refl e⟩
        · split at h <;> cases h
      · next hnone =>
        obtain rfl := Except.ok.inj h
        constructor
        · exact hs.put ⟨rfl, rfl, List.cons_ne_nil _ _, List.nodup_singleton _⟩
        · intro k e he
          rw [find_put]
          split
          · next hk =>
            subst hk
            rw [hnone] at he
            cases he
          · exact ⟨e, he, .refl e⟩

theorem registerPackage_ok (h : registerPackage M emap pkg = .ok emap') (hs : Sound M emap) :
    Sound M emap' ∧ Grown emap emap' := by
  unfold registerPackage at h
  split at h
  · cases h
  · refine foldlM_invariant (I := fun emap₁ => Sound M emap₁ ∧ Grown emap emap₁) ?_
      ⟨hs, .refl emap⟩ h
    intro emap₁ cap emap₂ _ hi hok
    obtain ⟨hs₂, hgrown⟩ := registerCapability_ok hok hi.1
    exact ⟨hs₂, hi.2.trans hgrown⟩

/-! ## taking out -/

theorem find_without (emap : ExtensionMap ρ) (k k' : CapabilityKey) :
    find (without emap k) k' = if k = k' then none else find emap k' := by
  induction emap with
  | nil => simp [without, find_nil]
  | cons e emap ih =>
    unfold without at ih ⊢
    rw [List.filter_cons, find_cons]
    by_cases he : e.1 = k
    · rw [if_neg (by simpa using he), ih]
      by_cases hk : k = k'
      · rw [if_pos hk, if_pos hk]
      · rw [if_neg hk, if_neg hk, if_neg (he ▸ hk)]
    · rw [if_pos (by simpa using he), find_cons, ih]
      by_cases hk : e.1 = k'
      · rw [if_pos hk, if_pos hk, if_neg fun heq => he (hk.trans heq.symm)]
      · rw [if_neg hk, if_neg hk]

theorem nodup_without (h : (emap.map Prod.fst).Nodup) (k : CapabilityKey) :
    ((without emap k).map Prod.fst).Nodup :=
  h.sublist (List.filter_sublist.map Prod.fst)

/-- what is left of an entry without the providers of a package -/
def trimmed (pid : Keyword) (e : Entry ρ) : Option (Entry ρ) :=
  let remaining := e.providers.filter fun p => p.packageId ≠ pid
  if remaining = [] then none else some { e with providers := remaining }

/-- a package provides nothing that an entry needs -/
def Untouched (pid : Keyword) (e : Entry ρ) : Prop := ∀ p ∈ e.providers, p.packageId ≠ pid

theorem trimmed_untouched (h : Untouched pid e) (hp : e.providers ≠ []) : trimmed pid e = some e := by
  have hall : (e.providers.filter fun p => p.packageId ≠ pid) = e.providers :=
    List.filter_eq_self.mpr fun p hmem => decide_eq_true (h p hmem)
  unfold trimmed
  dsimp only
  rw [hall, if_neg hp]

theorem unregisterEntry_ok {acc acc' : ExtensionMap ρ}
    (h : unregisterEntry pid acc (k, e) = .ok acc') (hfound : find acc k = some e)
    (hp : e.providers ≠ []) (hkeys : (acc.map Prod.fst).Nodup) :
    (∀ k', find acc' k' = if k = k' then trimmed pid e else find acc k')
      ∧ (e.builtin = true → Untouched pid e) ∧ (acc'.map Prod.fst).Nodup := by
  unfold unregisterEntry at h
  dsimp only at h
  split at h
  · next hlength =>
    obtain rfl := Except.ok.inj h
    have huntouched : Untouched pid e := by
      have hall := List.length_filter_eq_length_iff.mp hlength.symm
      exact fun p hmem => of_decide_eq_true (hall p hmem)
    refine ⟨fun k' => ?_, fun _ => huntouched, hkeys⟩
    split
    · next hk => rw [← hk, hfound, trimmed_untouched huntouched hp]
    · rfl
  · split at h
    · cases h
    · next hbuiltin =>
      have hno : e.builtin = true → Untouched pid e := fun hb => absurd hb hbuiltin
      split at h
      · next hremaining =>
        obtain rfl := Except.ok.inj h
        refine ⟨fun k' => ?_, hno, nodup_put hkeys k _⟩
        rw [find_put]
        unfold trimmed
        dsimp only
        rw [if_neg hremaining]
      · next hremaining =>
        obtain rfl := Except.ok.inj h
        refine ⟨fun k' => ?_, hno, nodup_without hkeys k⟩
        rw [find_without]
        unfold trimmed
        dsimp only
        rw [if_pos (not_not.mp hremaining)]

/-- **What is left when a package goes**: every entry without the package's providers, and none that
it alone provides; a package that provides a capability of the core does not go. -/
theorem unregisterPackage_ok (h : unregisterPackage emap pid = .ok emap')
    (hkeys : (emap.map Prod.fst).Nodup)
    (hprovided : ∀ k e, find emap k = some e → e.providers ≠ []) :
    (∀ k, find emap' k = (find emap k).bind (trimmed pid))
      ∧ (∀ k e, find emap k = some e → e.builtin = true → Untouched pid e)
      ∧ (emap'.map Prod.fst).Nodup := by
  have hfold : ∀ (l acc : ExtensionMap ρ) acc', l.foldlM (unregisterEntry pid) acc = .ok acc' →
      (l.map Prod.fst).Nodup → (acc.map Prod.fst).Nodup →
      (∀ k e, (k, e) ∈ l → find acc k = some e ∧ e.providers ≠ []) →
      (∀ k, find acc' k = if k ∈ l.map Prod.fst then (find acc k).bind (trimmed pid)
        else find acc k)
      ∧ (∀ k e, (k, e) ∈ l → e.builtin = true → Untouched pid e)
      ∧ (acc'.map Prod.fst).Nodup := by
    intro l
    induction l with
    | nil =>
      intro acc acc' hok _ hacc _
      obtain rfl := Except.ok.inj hok
      exact ⟨fun k => rfl, fun k e he => absurd he List.not_mem_nil, hacc⟩
    | cons entry l ih =>
      obtain ⟨k₀, e₀⟩ := entry
      intro acc acc' hok hl hacc hfound
      rw [List.foldlM_cons, bind_eq_ok] at hok
      obtain ⟨acc₁, h₁, hrest⟩ := hok
      rw [List.map_cons, List.nodup_cons] at hl
      obtain ⟨hfirst, hp₀⟩ := hfound k₀ e₀ List.mem_cons_self
      obtain ⟨hfind₁, hbuiltin₁, hacc₁⟩ := unregisterEntry_ok h₁ hfirst hp₀ hacc
      have hne : ∀ k e, (k, e) ∈ l → k₀ ≠ k := by
        intro k e he heq
        exact hl.1 (List.mem_map.mpr ⟨(k, e), he, heq.symm⟩)
      obtain ⟨hfind, hbuiltin, hacc'⟩ := ih acc₁ acc' hrest hl.2 hacc₁ fun k e he => by
        rw [hfind₁, if_neg (hne k e he)]
        exact hfound k e (List.mem_cons_of_mem _ he)
      refine ⟨fun k => ?_, fun k e he hb => ?_, hacc'⟩
      · rw [hfind, hfind₁, List.map_cons]
        by_cases hk : k₀ = k
        · subst hk
          rw [if_neg hl.1, if_pos rfl, if_pos List.mem_cons_self, hfirst, Option.bind_some]
        · have hiff : k ∈ l.map Prod.fst ↔ k ∈ k₀ :: l.map Prod.fst := by
            rw [List.mem_cons, or_iff_right (Ne.symm hk)]
          rw [if_neg hk]
          exact if_congr hiff rfl rfl
      · rcases List.mem_cons.mp he with heq | he
        · obtain ⟨rfl, rfl⟩ := Prod.mk.inj heq
          exact hbuiltin₁ hb
        · exact hbuiltin k e he hb
  obtain ⟨hfind, hbuiltin, hkeys'⟩ := hfold emap emap emap' h hkeys hkeys fun k e he =>
    ⟨find_of_mem hkeys he, hprovided k e (find_of_mem hkeys he)⟩
  refine ⟨fun k => ?_, fun k e he => hbuiltin k e (mem_of_find he), hkeys'⟩
  rw [hfind]
  split
  · rfl
  · next hk => rw [(find_eq_none_iff emap k).mpr hk]; rfl

/-! ## one operation -/

/-- an operation that takes nothing out -/
def Op.registers : Op ρ → Bool
  | .registerCapability _ _ => true
  | .registerPackage _ => true
  | .unregisterCapability _ => false
  | .unregisterPackage _ => false
  | .freeze => true

theorem trimmed_eq_some (h : trimmed pid e = some e') : e'.capability = e.capability
    ∧ e'.descriptorRoot = e.descriptorRoot ∧ e'.providers ≠ []
    ∧ e'.providers = e.providers.filter fun p => p.packageId ≠ pid := by
  unfold trimmed at h
  dsimp only at h
  split at h
  · cases h
  · next hne =>
    obtain rfl := Option.some.inj h
    exact ⟨rfl, rfl, hne, rfl⟩

theorem unregisterPackage_kept (h : unregisterPackage emap pid = .ok emap') (hs : Sound M emap) :
    Sound M emap' ∧ CoreKept emap emap' := by
  obtain ⟨hfind, hbuiltin, hkeys⟩ := unregisterPackage_ok h hs.keys
    fun k e he => (hs.entries k e he).provided
  refine ⟨⟨hkeys, fun k e' he' => ?_⟩, fun k e he hb => ?_⟩
  · rw [hfind] at he'
    obtain ⟨e, he, htrimmed⟩ := Option.bind_eq_some_iff.mp he'
    have hsound := hs.entries k e he
    obtain ⟨hcap, hroot, hprovided, hproviders⟩ := trimmed_eq_some htrimmed
    refine ⟨hcap ▸ hsound.key, ?_, hprovided, ?_⟩
    · rw [hroot, hcap]
      exact hsound.rooted
    · rw [hproviders]
      exact hsound.distinct.sublist (List.filter_sublist.map _)
  · refine ⟨e, ?_, .refl e⟩
    rw [hfind, he, Option.bind_some]
    exact trimmed_untouched (hbuiltin k e he hb) (hs.entries k e he).provided

theorem unregisterCapability_kept (h : unregisterCapability emap k = .ok emap')
    (hs : Sound M emap) : Sound M emap' ∧ CoreKept emap emap' := by
  unfold unregisterCapability at h
  split at h
  · obtain rfl := Except.ok.inj h
    exact ⟨hs, .refl emap⟩
  · next existing hexisting =>
    split at h
    · cases h
    · next hbuiltin =>
      obtain rfl := Except.ok.inj h
      refine ⟨⟨nodup_without hs.keys k, fun k' e he => ?_⟩, fun k' e he hb => ?_⟩
      · rw [find_without] at he
        split at he
        · cases he
        · exact hs.entries k' e he
      · refine ⟨e, ?_, .refl e⟩
        rw [find_without, if_neg ?_]
        · exact he
        · rintro rfl
          rw [hexisting] at he
          obtain rfl := Option.some.inj he
          exact hbuiltin hb

/-- All that one operation can do to the live registry. -/
structure Change (M : Manifests ρ) (s : Live ρ) (op : Op ρ) (s' : Live ρ) : Prop where
  sound : Sound M s.entries → Sound M s'.entries
  core : Sound M s.entries → CoreKept s.entries s'.entries
  grown : op.registers = true → Sound M s.entries → Grown s.entries s'.entries
  frozen : s.frozen = true → s' = s

theorem checkedSwap_ok {s s' : Live ρ}
    {f : ExtensionMap ρ → Except RegistryError (ExtensionMap ρ)} (h : checkedSwap s f = .ok s') :
    ¬ s.frozen = true ∧ ∃ emap', f s.entries = .ok emap' ∧ s' = { s with entries := emap' } := by
  unfold checkedSwap at h
  split at h
  · cases h
  · next hfrozen =>
    obtain ⟨emap', hok, heq⟩ := map_eq_ok.mp h
    exact ⟨hfrozen, emap', hok, heq.symm⟩

theorem change {s s' : Live ρ} {op : Op ρ} (h : step M s op = .ok s') : Change M s op s' := by
  have hswap : ∀ {f : ExtensionMap ρ → Except RegistryError (ExtensionMap ρ)},
      checkedSwap s f = .ok s' →
      (∀ emap', f s.entries = .ok emap' → Sound M s.entries →
        Sound M emap' ∧ CoreKept s.entries emap'
          ∧ (op.registers = true → Grown s.entries emap')) → Change M s op s' := by
    intro f hf hspec
    obtain ⟨hfrozen, emap', hok, rfl⟩ := checkedSwap_ok hf
    exact ⟨fun hs => (hspec emap' hok hs).1, fun hs => (hspec emap' hok hs).2.1,
      fun hr hs => (hspec emap' hok hs).2.2 hr, fun hs => absurd hs hfrozen⟩
  cases op with
  | registerCapability pkg cap =>
    unfold step at h
    refine hswap h fun emap' hok hs => ?_
    obtain ⟨hs', hgrown⟩ := registerCapability_ok hok hs
    exact ⟨hs', hgrown.coreKept, fun _ => hgrown⟩
  | registerPackage pkg =>
    unfold step at h
    refine hswap h fun emap' hok hs => ?_
    obtain ⟨hs', hgrown⟩ := registerPackage_ok hok hs
    exact ⟨hs', hgrown.coreKept, fun _ => hgrown⟩
  | unregisterCapability key =>
    unfold step at h
    refine hswap h fun emap' hok hs => ?_
    obtain ⟨hs', hkept⟩ := unregisterCapability_kept hok hs
    exact ⟨hs', hkept, fun hr => Bool.noConfusion hr⟩
  | unregisterPackage pid =>
    unfold step at h
    refine hswap h fun emap' hok hs => ?_
    obtain ⟨hs', hkept⟩ := unregisterPackage_kept hok hs
    exact ⟨hs', hkept, fun hr => Bool.noConfusion hr⟩
  | freeze =>
    obtain rfl := Except.ok.inj h
    refine ⟨id, fun _ => .refl _, fun _ _ => .refl _, fun hfrozen => ?_⟩
    rw [← hfrozen]

/-! ## runs -/

section
variable {s : Live ρ}

/-- the registry that is loaded with the core -/
def seeded (entries : ExtensionMap ρ) : Live ρ := ⟨false, entries⟩

theorem run_sound (hs : Sound M s.entries) (ops : List (Op ρ)) :
    Sound M (Runs.run (step M) s ops).entries :=
  Runs.run_induction (I := fun s => Sound M s.entries)
    (fun _ _ _ hs hstep => (change hstep).sound hs) hs ops

theorem run_core (hs : Sound M s.entries) (ops : List (Op ρ)) :
    CoreKept s.entries (Runs.run (step M) s ops).entries := by
  refine (Runs.run_induction
    (I := fun s' : Live ρ => Sound M s'.entries ∧ CoreKept s.entries s'.entries) ?_ ⟨hs, .refl _⟩ ops).2
  intro s₁ op s₂ hi hstep
  have hchange := change hstep
  exact ⟨hchange.sound hi.1, hi.2.trans (hchange.core hi.1)⟩

theorem run_grown (hs : Sound M s.entries) {ops : List (Op ρ)}
    (hops : ∀ op ∈ ops, op.registers = true) :
    Grown s.entries (Runs.run (step M) s ops).entries := by
  induction ops generalizing s with
  | nil => exact .refl _
  | cons op ops ih =>
    rw [Runs.run_cons]
    have hrest := fun op' hop' => hops op' (List.mem_cons_of_mem _ hop')
    rcases Runs.after_cases (step M) s op with ⟨s', hstep, hafter⟩ | ⟨-, hafter⟩
    · have hchange := change hstep
      rw [hafter]
      exact (hchange.grown (hops op List.mem_cons_self) hs).trans (ih (hchange.sound hs) hrest)
    · rw [hafter]
      exact ih hs hrest

theorem run_frozen (hfrozen : s.frozen = true) (ops : List (Op ρ)) :
    Runs.run (step M) s ops = s := by
  refine (Runs.run_induction (I := fun s' => s' = s) ?_ rfl ops)
  rintro s₁ op s₂ rfl hstep
  exact (change hstep).frozen hfrozen

end

/-! ## the core -/

theorem registerCapability_builtin (h : registerCapability M emap pkg cap = .ok emap')
    (hid : pkg.id = corePackageId) (hall : ∀ k e, find emap k = some e → e.builtin = true) :
    ∀ k e, find emap' k = some e → e.builtin = true := by
  unfold registerCapability at h
  split at h
  · cases h
  · split at h
    · cases h
    · dsimp only at h
      split at h
      · next existing hexisting =>
        split at h
        · split at h
          · obtain rfl := Except.ok.inj h
            exact hall
          · obtain rfl := Except.ok.inj h
            intro k e he
            rw [find_put] at he
            split at he
            · obtain rfl := Option.some.inj he
              exact hall _ existing hexisting
            · exact hall k e he
        · split at h <;> cases h
      · obtain rfl := Except.ok.inj h
        intro k e he
        rw [find_put] at he
        split at he
        · obtain rfl := Option.some.inj he
          exact decide_eq_true hid
        · exact hall k e he

theorem registerPackage_builtin (h : registerPackage M [] pkg = .ok emap)
    (hid : pkg.id = corePackageId) : ∀ k e, find emap k = some e → e.builtin = true := by
  unfold registerPackage at h
  split at h
  · cases h
  · refine foldlM_invariant
      (I := fun emap : ExtensionMap ρ => ∀ k e, find emap k = some e → e.builtin = true) ?_ ?_ h
    · exact fun _ _ _ _ hall hok => registerCapability_builtin hok hid hall
    · exact fun _ _ hfind => by cases hfind

/-- **Runs of the live registry.**  Every entry stands under its own key, with the root of its
capability and providers whose packages differ; the core is never removed or replaced; a package that
goes takes its own providers with it and no others, and does not go where it provides for the core; a
registry that is frozen stays as it is; and registrations keep every entry, with at most more
providers. -/
theorem registry_kept {core : Package ρ} {entries : ExtensionMap ρ}
    (hcore : registerPackage M [] core = .ok entries) (hid : core.id = corePackageId)
    (ops more : List (Op ρ)) :
    let s := Runs.run (step M) (seeded entries) ops
    Sound M s.entries ∧ Grown entries s.entries
      ∧ (∀ pid s', step M s (.unregisterPackage pid) = .ok s' →
        (∀ k, find s'.entries k = (find s.entries k).bind (trimmed pid))
        ∧ ∀ k e, find s.entries k = some e → e.builtin = true → Untouched pid e)
      ∧ (s.frozen = true → Runs.run (step M) s more = s)
      ∧ ((∀ op ∈ more, op.registers = true) → Grown s.entries (Runs.run (step M) s more).entries) := by
  have hseed : Sound M (seeded entries).entries := (registerPackage_ok hcore .nil).1
  have hsound := run_sound hseed ops
  refine ⟨hsound, ?_, ?_, fun hfrozen => run_frozen hfrozen more, fun hmore => run_grown hsound hmore⟩
  · intro k e he
    exact run_core hseed ops k e he (registerPackage_builtin hcore hid k e he)
  · intro pid s' hstep
    obtain ⟨-, emap', hok, rfl⟩ := checkedSwap_ok
      (show checkedSwap _ (fun emap => unregisterPackage emap pid) = .ok s' from hstep)
    obtain ⟨hfind, hbuiltin, -⟩ := unregisterPackage_ok hok hsound.keys
      fun k e he => (hsound.entries k e he).provided
    exact ⟨hfind, hbuiltin⟩

end

/-! ## a sample -/

def sampleManifests : Manifests ℕ where
  descriptorRoot cap := if cap.id = "award/fixed" then 0 else 1
  packageRoot pkg := if pkg.id = corePackageId then 1 else 2
  qualified _ := true

/-- a capability that takes an amount and pays it out -/
def sampleContract : Composition.Authored where
  version := some 1
  input := some ⟨some "context", some "amount", none⟩
  output := some ⟨some "result", some "amount", none⟩
  roles := none
  modes := none
  effects := some ⟨some ["pay"], none, none⟩
  custody := none
  control := none
  determinism := none
  adapters := none
  verification := none
  executionSafety := some .pureCalculation

def sampleCapability : Capability where
  kind := "economics/award"
  id := "award/fixed"
  version := some 1
  contractVersion := some 1
  profile := none
  entrypoint := some "award/fixed"
  inputSchema := none
  outputSchema := none
  verificationContract := none
  legacy := ⟨none, none, none⟩
  compositionContract := some sampleContract
  declaredDependencies := []
  verifies := none

def sampleCore : Package ℕ :=
  ⟨corePackageId, "1", 1, 1, none, none, none, none, [sampleCapability]⟩

def sampleEntries : ExtensionMap ℕ :=
  [(("economics/award", "award/fixed"),
    ⟨sampleCapability, 0, true, [⟨corePackageId, "1", 1, .unsealed⟩]⟩)]

def samplePackage : Package ℕ :=
  { sampleCore with id := "vendor/awards", capabilities := [
    { sampleCapability with id := "award/share", entrypoint := some "award/share" }] }

theorem registry_kept_sample :
    let s := Runs.run (step sampleManifests) (seeded sampleEntries)
      [.registerPackage samplePackage, .unregisterPackage corePackageId]
    Sound sampleManifests s.entries ∧ Grown sampleEntries s.entries :=
  have hcore : registerPackage sampleManifests [] sampleCore = .ok sampleEntries := by decide
  have h := registry_kept hcore rfl
    [.registerPackage samplePackage, .unregisterPackage corePackageId] []
  ⟨h.1, h.2.1⟩

end PRF.Extensions
