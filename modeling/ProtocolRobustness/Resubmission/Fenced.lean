import ProtocolRobustness.Resubmission.AdmissionStore

/-!
# Fenced admission is exclusive and happens once

* `Sound`             the invariant of the state of a family;
* `Kept`              the state with the writes that made it: the fences they handed out, the
                      finalizations they published;
* `Grows`             what no later write takes back;
* `Fenced`, `Lasting`   what holds at every point, and between two points;
* `admission_fenced`  every interleaving is fenced.
-/

set_option linter.unusedSectionVars false

namespace PRF.Admission
open CompareAndSet Callers

section
variable {ι : Type*} [DecidableEq ι] {H : AdmissionRoots ι}

/-! ## the state of a family -/

structure Sound (H : AdmissionRoots ι) (s : AdmissionState ι) : Prop where
  schema : s.schema = admissionStateSchema
  named : ∀ {id r}, Table.find s.reservations id = some r → r.id = id
  rooted : ∀ {id r}, Table.find s.reservations id = some r →
    ∃ b, H.reservationId b = id ∧ b.fence = r.fence
  below : ∀ {id r}, Table.find s.reservations id = some r → r.fence ≤ s.fence
  apart : ∀ {id r id' r'}, Table.find s.reservations id = some r →
    Table.find s.reservations id' = some r' → r.fence = r'.fence → id = id'
  current : ∀ {id r}, Table.find s.reservations id = some r → r.status = .active →
    r.fence = s.fence
  unpublished : ∀ {id r}, Table.find s.reservations id = some r → r.status = .active →
    Table.find s.candidateIndex r.candidateRoot = none
  finalized : ∀ {id f}, Table.find s.finalizations id = some f → f.reservationId = id ∧
    ∃ r, Table.find s.reservations id = some r ∧ r.status = .finalized
  candidates : ∀ {id f}, Table.find s.finalizations id = some f →
    Table.find s.candidateIndex f.candidateRoot = some f

variable {s s' : AdmissionState ι} {a : Answer ι}

theorem sound_empty (familyId : ι) : Sound H (emptyPartition familyId) where
  schema := rfl
  named := nofun
  rooted := nofun
  below := nofun
  apart := nofun
  current := nofun
  unpublished := nofun
  finalized := nofun
  candidates := nofun

/-- at most one reservation is active -/
theorem Sound.exclusive (h : Sound H s) {id id' : ι} {r r' : Reservation ι}
    (hr : Table.find s.reservations id = some r) (hr' : Table.find s.reservations id' = some r')
    (hactive : r.status = .active) (hactive' : r'.status = .active) : id = id' :=
  h.apart hr hr' ((h.current hr hactive).trans (h.current hr' hactive').symm)

/-- the id under a fence that was not handed out is new -/
theorem Sound.fresh (h : Sound H s) (hroots : Function.Injective H.reservationId)
    {b : ReservationBinding ι} (hb : b.fence = s.fence + 1) :
    Table.find s.reservations (H.reservationId b) = none := by
  by_contra hne
  obtain ⟨r, hr⟩ := Option.ne_none_iff_exists'.mp hne
  obtain ⟨b', hroot, hfence⟩ := h.rooted hr
  have hbelow := h.below hr
  rw [hroots hroot] at hfence
  omega

theorem Sound.revised (h : Sound H s) {m : List (ι × Reservation ι)}
    (hm : Revised s.reservations m) : Sound H { s with reservations := m } where
  schema := h.schema
  named := by
    intro id r' hr'
    obtain ⟨r, hr, hrev⟩ := hm.back hr'
    exact hrev.id.trans (h.named hr)
  rooted := by
    intro id r' hr'
    obtain ⟨r, hr, hrev⟩ := hm.back hr'
    rw [hrev.fence]
    exact h.rooted hr
  below := by
    intro id r' hr'
    obtain ⟨r, hr, hrev⟩ := hm.back hr'
    rw [hrev.fence]
    exact h.below hr
  apart := by
    intro id r' id' q' hr' hq' hfence
    obtain ⟨r, hr, hrev⟩ := hm.back hr'
    obtain ⟨q, hq, hrevq⟩ := hm.back hq'
    rw [hrev.fence, hrevq.fence] at hfence
    exact h.apart hr hq hfence
  current := by
    intro id r' hr' hactive
    obtain ⟨r, hr, hrev⟩ := hm.back hr'
    obtain rfl := hrev.kept hactive
    exact h.current hr hactive
  unpublished := by
    intro id r' hr' hactive
    obtain ⟨r, hr, hrev⟩ := hm.back hr'
    obtain rfl := hrev.kept hactive
    exact h.unpublished hr hactive
  finalized := by
    intro id f hf
    obtain ⟨hid, r, hr, hstatus⟩ := h.finalized hf
    obtain ⟨r', hr', hrev⟩ := hm.find hr
    refine ⟨hid, r', hr', ?_⟩
    rcases hrev.status with hs | ⟨hactive, -⟩
    · rw [hs, hstatus]
    · rw [hstatus] at hactive
      cases hactive
  candidates := h.candidates

/-- a reservation under a new fence, when none is active -/
theorem Sound.reserve (h : Sound H s) (hroots : Function.Injective H.reservationId)
    {b : ReservationBinding ι} (hfence : b.fence = s.fence + 1)
    (hcandidate : Table.find s.candidateIndex b.candidateRoot = none)
    (hidle : ∀ {id r}, Table.find s.reservations id = some r → r.status ≠ .active)
    (snapshotRoot : Option ι) :
    Sound H (s.reserve (b.reservation H snapshotRoot s.version)) := by
  have hfresh := h.fresh hroots hfence
  have hcases : ∀ {id r}, Table.find (s.reserve (b.reservation H snapshotRoot s.version)).reservations
      id = some r → (id = H.reservationId b ∧ r = b.reservation H snapshotRoot s.version)
        ∨ Table.find s.reservations id = some r := by
    intro id r hr
    have hput : Table.find (Table.put s.reservations (H.reservationId b)
        (b.reservation H snapshotRoot s.version)) id = some r := hr
    rw [Table.find_put] at hput
    split at hput
    · next hid => exact Or.inl ⟨hid.symm, (Option.some.inj hput).symm⟩
    · exact Or.inr hput
  have hold : ∀ {id r}, Table.find s.reservations id = some r → r.fence < b.fence := by
    intro id r hr
    have hbelow := h.below hr
    omega
  refine ⟨h.schema, ?_, ?_, ?_, ?_, ?_, ?_, ?_, h.candidates⟩
  · intro id r hr
    rcases hcases hr with ⟨rfl, rfl⟩ | hr
    · rfl
    · exact h.named hr
  · intro id r hr
    rcases hcases hr with ⟨rfl, rfl⟩ | hr
    · exact ⟨b, rfl, rfl⟩
    · exact h.rooted hr
  · intro id r hr
    rcases hcases hr with ⟨rfl, rfl⟩ | hr
    · exact le_rfl
    · exact (hold hr).le
  · intro id r id' r' hr hr' heq
    rcases hcases hr with ⟨rfl, rfl⟩ | hr
    · rcases hcases hr' with ⟨rfl, rfl⟩ | hr'
      · rfl
      · exact absurd heq (hold hr').ne'
    · rcases hcases hr' with ⟨rfl, rfl⟩ | hr'
      · exact absurd heq (hold hr).ne
      · exact h.apart hr hr' heq
  · intro id r hr hactive
    rcases hcases hr with ⟨rfl, rfl⟩ | hr
    · rfl
    · exact absurd hactive (hidle hr)
  · intro id r hr hactive
    rcases hcases hr with ⟨rfl, rfl⟩ | hr
    · exact hcandidate
    · exact absurd hactive (hidle hr)
  · intro id f hf
    obtain ⟨hid, r, hr, hstatus⟩ := h.finalized hf
    refine ⟨hid, r, ?_, hstatus⟩
    show Table.find (Table.put s.reservations (H.reservationId b) _) id = some r
    rw [Table.find_put, if_neg, hr]
    rintro rfl
    rw [hfresh] at hr
    cases hr

/-- the active reservation is finalized -/
theorem Sound.publish (h : Sound H s) {r : Reservation ι} {f : Finalization ι}
    (hr : Table.find s.reservations f.reservationId = some r) (hactive : r.status = .active)
    (hcandidate : f.candidateRoot = r.candidateRoot) : Sound H (s.publish r f) := by
  have hrev : ∀ {id r'}, Table.find (s.publish r f).reservations id = some r' →
      (id = f.reservationId ∧ r' = { r with status := .finalized })
        ∨ id ≠ f.reservationId ∧ Table.find s.reservations id = some r' := by
    intro id r' hr'
    have hput : Table.find (Table.put s.reservations f.reservationId
        { r with status := .finalized }) id = some r' := hr'
    rw [Table.find_put] at hput
    split at hput
    · next hid => exact Or.inl ⟨hid.symm, (Option.some.inj hput).symm⟩
    · next hid => exact Or.inr ⟨Ne.symm hid, hput⟩
  -- every other reservation has ended
  have hother : ∀ {id r'}, id ≠ f.reservationId → Table.find s.reservations id = some r' →
      r'.status ≠ .active :=
    fun hne hr' hactive' => hne (h.exclusive hr' hr hactive' hactive)
  refine ⟨h.schema, ?_, ?_, ?_, ?_, ?_, ?_, ?_, ?_⟩
  · intro id r' hr'
    rcases hrev hr' with ⟨rfl, rfl⟩ | ⟨-, hr'⟩
    · exact (h.named hr :)
    · exact h.named hr'
  · intro id r' hr'
    rcases hrev hr' with ⟨rfl, rfl⟩ | ⟨-, hr'⟩
    · exact (h.rooted hr :)
    · exact h.rooted hr'
  · intro id r' hr'
    rcases hrev hr' with ⟨rfl, rfl⟩ | ⟨-, hr'⟩
    · exact (h.below hr :)
    · exact h.below hr'
  · intro id r' id' q' hr' hq' heq
    rcases hrev hr' with ⟨rfl, rfl⟩ | ⟨-, hr'⟩
    · rcases hrev hq' with ⟨rfl, rfl⟩ | ⟨-, hq'⟩
      · rfl
      · exact (h.apart hr hq' heq :)
    · rcases hrev hq' with ⟨rfl, rfl⟩ | ⟨-, hq'⟩
      · exact (h.apart hr' hr heq :)
      · exact h.apart hr' hq' heq
  · intro id r' hr' hactive'
    rcases hrev hr' with ⟨rfl, rfl⟩ | ⟨hne, hr'⟩
    · cases hactive'
    · exact absurd hactive' (hother hne hr')
  · intro id r' hr' hactive'
    rcases hrev hr' with ⟨rfl, rfl⟩ | ⟨hne, hr'⟩
    · cases hactive'
    · exact absurd hactive' (hother hne hr')
  · intro id f' hf'
    have hput : Table.find (Table.put s.finalizations f.reservationId f) id = some f' := hf'
    rw [Table.find_put] at hput
    show f'.reservationId = id ∧ ∃ r', Table.find (Table.put s.reservations f.reservationId
      { r with status := .finalized }) id = some r' ∧ r'.status = .finalized
    rw [Table.find_put]
    split at hput
    · next hid =>
      obtain rfl := Option.some.inj hput
      rw [if_pos hid]
      exact ⟨hid, _, rfl, rfl⟩
    · next hid =>
      rw [if_neg hid]
      exact h.finalized hput
  · intro id f' hf'
    have hput : Table.find (Table.put s.finalizations f.reservationId f) id = some f' := hf'
    rw [Table.find_put] at hput
    show Table.find (Table.put s.candidateIndex f.candidateRoot f) f'.candidateRoot = some f'
    rw [Table.find_put]
    split at hput
    · obtain rfl := Option.some.inj hput
      rw [if_pos rfl]
    · rw [if_neg, h.candidates hput]
      -- the candidate of an active reservation has no finalization
      intro heq
      have hfree := h.unpublished hr hactive
      rw [← hcandidate, heq, h.candidates hput] at hfree
      cases hfree

theorem Sound.change (h : Sound H s) (hroots : Function.Injective H.reservationId)
    (hchange : Change H s s' a) : Sound H s' := by
  cases hchange with
  | revised hm _ _ => exact h.revised hm
  | reserved b snapshotRoot hfence _ hcandidate hidle =>
    exact h.reserve hroots hfence hcandidate hidle snapshotRoot
  | finalized hr hactive _ _ hcandidate => exact h.publish hr hactive hcandidate

/-! ## what is not taken back -/

/-- bindings of keys and finalizations stay, and a reservation that ended without a finalization
stays so -/
structure Grows (s s' : AdmissionState ι) : Prop where
  keys : ∀ {key r}, Table.find s.idempotencyIndex key = some r →
    Table.find s'.idempotencyIndex key = some r
  finalizations : ∀ {id f}, Table.find s.finalizations id = some f →
    Table.find s'.finalizations id = some f
  ended : ∀ {id r}, Table.find s.reservations id = some r →
    r.status = .aborted ∨ r.status = .expired →
    ∃ r', Table.find s'.reservations id = some r' ∧ r'.status = r.status

theorem grows_refl (s : AdmissionState ι) : Grows s s := ⟨id, id, fun hr _ => ⟨_, hr, rfl⟩⟩

theorem Grows.trans {s'' : AdmissionState ι} (h : Grows s s') (h' : Grows s' s'') : Grows s s'' := by
  refine ⟨fun hk => h'.keys (h.keys hk), fun hf => h'.finalizations (h.finalizations hf), ?_⟩
  intro id r hr hstatus
  obtain ⟨r', hr', hs⟩ := h.ended hr hstatus
  obtain ⟨r'', hr'', hs'⟩ := h'.ended hr' (hs ▸ hstatus)
  exact ⟨r'', hr'', hs'.trans hs⟩

theorem grows_revised {m : List (ι × Reservation ι)} (hm : Revised s.reservations m) :
    Grows s { s with reservations := m } := by
  refine ⟨id, id, fun {id r} hr hstatus => ?_⟩
  obtain ⟨r', hr', hrev⟩ := hm.find hr
  refine ⟨r', hr', ?_⟩
  rcases hrev.status with hs | ⟨hactive, -⟩
  · exact hs
  · rcases hstatus with hs | hs <;> rw [hactive] at hs <;> cases hs

theorem find_put_free {ν : Type*} {m : List (ι × ν)} {k k' : ι} {v v' : ν}
    (hfree : Table.find m k = none) (h : Table.find m k' = some v') :
    Table.find (Table.put m k v) k' = some v' := by
  rw [Table.find_put, if_neg, h]
  rintro rfl
  rw [hfree] at h
  cases h

theorem Grows.change (h : Sound H s) (hroots : Function.Injective H.reservationId)
    (hchange : Change H s s' a) : Grows s s' := by
  cases hchange with
  | revised hm _ _ => exact grows_revised hm
  | reserved b snapshotRoot hfence hkey _ _ =>
    refine ⟨fun hk => find_put_free hkey hk, id, fun {id r} hr _ => ⟨r, ?_, rfl⟩⟩
    exact find_put_free (h.fresh hroots hfence) hr
  | finalized hr hactive hfresh _ _ =>
    refine ⟨id, fun hf => find_put_free hfresh hf, fun {id q} hq hstatus => ⟨q, ?_, rfl⟩⟩
    show Table.find (Table.put _ _ _) id = some q
    rw [Table.find_put, if_neg, hq]
    rintro rfl
    rw [hr] at hq
    obtain rfl := Option.some.inj hq
    rcases hstatus with hs | hs <;> rw [hactive] at hs <;> cases hs

/-! ## the writes of a family -/

def handed (writes : List (Timed ι × Answer ι)) : List (Reservation ι) :=
  writes.filterMap fun e => e.2.handed

def published (writes : List (Timed ι × Answer ι)) : List (Finalization ι) :=
  writes.filterMap fun e => e.2.published

theorem handed_append (writes more : List (Timed ι × Answer ι)) :
    handed (writes ++ more) = handed writes ++ handed more := List.filterMap_append

theorem published_append (writes more : List (Timed ι × Answer ι)) :
    published (writes ++ more) = published writes ++ published more := List.filterMap_append

variable {out : List (Reservation ι)} {pub : List (Finalization ι)}

theorem handed_snoc (writes : List (Timed ι × Answer ι)) (d : Timed ι) (a : Answer ι) :
    handed (writes ++ [(d, a)]) = handed writes ++ a.handed.toList := by
  rw [handed_append]
  rfl

theorem published_snoc (writes : List (Timed ι × Answer ι)) (d : Timed ι) (a : Answer ι) :
    published (writes ++ [(d, a)]) = published writes ++ a.published.toList := by
  rw [published_append]
  rfl

/-- the state beside the reservations that were handed out and the finalizations that were
published, the first first -/
structure Kept (H : AdmissionRoots ι) (out : List (Reservation ι)) (pub : List (Finalization ι))
    (s : AdmissionState ι) : Prop where
  sound : Sound H s
  fences : out.Pairwise fun r r' => r.fence < r'.fence
  below : ∀ r ∈ out, r.fence ≤ s.fence
  rooted : ∀ r ∈ out, ∃ b, H.reservationId b = r.id ∧ b.fence = r.fence
  keyed : ∀ r ∈ out, Table.find s.idempotencyIndex r.idempotencyKey = some r
  leased : ∀ r ∈ out, ∃ deadline, r.expiresAt = some deadline
  active : ∀ {id r}, Table.find s.reservations id = some r → r.status = .active → r ∈ out
  finalizations : s.finalizations = pub.map fun f => (f.reservationId, f)
  found : ∀ f ∈ pub, Table.find s.finalizations f.reservationId = some f
  candidates : (pub.map (·.candidateRoot)).Nodup
  version : s.version = pub.length
  head : s.head = pub.getLast?.map (·.receiptRoot)

theorem kept_empty (familyId : ι) : Kept H [] [] (emptyPartition familyId) where
  sound := sound_empty familyId
  fences := .nil
  below := fun r hr => by cases hr
  rooted := fun r hr => by cases hr
  keyed := fun r hr => by cases hr
  leased := fun r hr => by cases hr
  active := nofun
  finalizations := rfl
  found := fun f hf => by cases hf
  candidates := .nil
  version := rfl
  head := rfl

theorem Kept.revised (h : Kept H out pub s) {m : List (ι × Reservation ι)}
    (hm : Revised s.reservations m) : Kept H out pub { s with reservations := m } := by
  refine ⟨h.sound.revised hm, h.fences, h.below, h.rooted, h.keyed, h.leased, ?_,
    h.finalizations, h.found, h.candidates, h.version, h.head⟩
  intro id r' hr' hactive
  obtain ⟨r, hr, hrev⟩ := hm.back hr'
  obtain rfl := hrev.kept hactive
  exact h.active hr hactive

theorem Kept.reserve (h : Kept H out pub s) {b : ReservationBinding ι} {snapshotRoot : Option ι}
    (hfence : b.fence = s.fence + 1)
    (hkey : Table.find s.idempotencyIndex b.idempotencyKey = none)
    (hsound : Sound H (s.reserve (b.reservation H snapshotRoot s.version))) :
    Kept H (out ++ [b.reservation H snapshotRoot s.version]) pub
      (s.reserve (b.reservation H snapshotRoot s.version)) := by
  have hlast : ∀ {r}, r ∈ out ++ [b.reservation H snapshotRoot s.version] →
      r ∈ out ∨ r = b.reservation H snapshotRoot s.version := by
    intro r hr
    simpa using hr
  refine ⟨hsound, ?_, ?_, ?_, ?_, ?_, ?_, h.finalizations, h.found, h.candidates, h.version,
    h.head⟩
  · refine List.pairwise_append.mpr ⟨h.fences, List.pairwise_singleton _ _, ?_⟩
    intro r hr r' hr'
    obtain rfl := List.mem_singleton.mp hr'
    have hbelow := h.below r hr
    show r.fence < b.fence
    omega
  · intro r hr
    rcases hlast hr with hr | rfl
    · have hbelow := h.below r hr
      show r.fence ≤ b.fence
      omega
    · exact le_rfl
  · intro r hr
    rcases hlast hr with hr | rfl
    · exact h.rooted r hr
    · exact ⟨b, rfl, rfl⟩
  · intro r hr
    show Table.find (Table.put s.idempotencyIndex b.idempotencyKey _) r.idempotencyKey = some r
    rcases hlast hr with hr | rfl
    · exact find_put_free hkey (h.keyed r hr)
    · rw [Table.find_put]
      exact if_pos rfl
  · intro r hr
    rcases hlast hr with hr | rfl
    · exact h.leased r hr
    · exact ⟨b.expiresAt, rfl⟩
  · intro id r hr hactive
    have hput : Table.find (Table.put s.reservations (H.reservationId b)
        (b.reservation H snapshotRoot s.version)) id = some r := hr
    rw [Table.find_put] at hput
    split at hput
    · obtain rfl := Option.some.inj hput
      exact List.mem_append_right _ (List.mem_singleton_self _)
    · exact List.mem_append_left _ (h.active hput hactive)

theorem Kept.publish (h : Kept H out pub s) {r : Reservation ι} {f : Finalization ι}
    (hfresh : Table.find s.finalizations f.reservationId = none)
    (hcandidate : Table.find s.candidateIndex f.candidateRoot = none)
    (hversion : f.version = s.version + 1) (hsound : Sound H (s.publish r f)) :
    Kept H out (pub ++ [f]) (s.publish r f) := by
  refine ⟨hsound, h.fences, h.below, h.rooted, h.keyed, h.leased, ?_, ?_, ?_, ?_, ?_, ?_⟩
  · intro id r' hr' hactive
    have hput : Table.find (Table.put s.reservations f.reservationId
        { r with status := .finalized }) id = some r' := hr'
    rw [Table.find_put] at hput
    split at hput
    · obtain rfl := Option.some.inj hput
      cases hactive
    · exact h.active hput hactive
  · show Table.put s.finalizations f.reservationId f = _
    rw [Table.put_fresh ((Table.find_eq_none_iff _ _).mp hfresh), h.finalizations, List.map_append]
    rfl
  · intro g hg
    show Table.find (Table.put s.finalizations f.reservationId f) g.reservationId = some g
    rcases List.mem_append.mp hg with hg | hg
    · exact find_put_free hfresh (h.found g hg)
    · obtain rfl := List.mem_singleton.mp hg
      rw [Table.find_put, if_pos rfl]
  · rw [List.map_append]
    refine List.nodup_append'.mpr ⟨h.candidates, List.nodup_singleton _, ?_⟩
    intro c hc hc'
    obtain ⟨g, hg, rfl⟩ := List.mem_map.mp hc
    have hindexed := h.sound.candidates (h.found g hg)
    rw [List.mem_singleton.mp hc', hcandidate] at hindexed
    cases hindexed
  · show f.version = _
    rw [hversion, h.version, List.length_append]
    simp
  · show some f.receiptRoot = _
    simp

theorem Kept.change (h : Kept H out pub s) (hroots : Function.Injective H.reservationId)
    (hchange : Change H s s' a) :
    Kept H (out ++ a.handed.toList) (pub ++ a.published.toList) s' := by
  have hsound := h.sound.change hroots hchange
  cases hchange with
  | revised hm hhanded hpublished =>
    rw [hhanded, hpublished]
    simpa using h.revised hm
  | reserved b snapshotRoot hfence hkey _ _ =>
    simpa [Answer.handed, Answer.published] using h.reserve hfence hkey hsound
  | finalized hr hactive hfresh hversion hcandidate =>
    have hfree := h.sound.unpublished hr hactive
    rw [← hcandidate] at hfree
    simpa [Answer.handed, Answer.published] using h.publish hfresh hfree hversion hsound

/-- what a write leaves, and what it does not take back -/
theorem Kept.attempt (h : Kept H out pub s) (hroots : Function.Injective H.reservationId)
    {d : Timed ι} (hattempt : attempt H d s = .write s' a) :
    Kept H (out ++ a.handed.toList) (pub ++ a.published.toList) s' ∧ Grows s s' := by
  have hrevised := refreshed_revised s d.now
  have hkept := h.revised hrevised
  have hgrows := grows_revised hrevised
  have hchange := transition_change (H := H) d.now (refreshed s d.now) d.call
  rw [attempt_write hattempt, refreshed_eq h.sound.schema] at hchange
  exact ⟨hkept.change hroots hchange, hgrows.trans (.change hkept.sound hroots hchange)⟩

theorem Kept.written (h : Kept H out pub s) (hroots : Function.Injective H.reservationId)
    {writes : List (Timed ι × Answer ι)}
    (hwritten : Written (Admission.attempt H) s writes s') :
    Kept H (out ++ handed writes) (pub ++ published writes) s' ∧ Grows s s' := by
  induction hwritten with
  | nil => exact ⟨by simpa [handed, published] using h, grows_refl s⟩
  | snoc _ hattempt ih =>
    obtain ⟨hkept, hgrows⟩ := ih
    obtain ⟨hkept', hgrows'⟩ := hkept.attempt hroots hattempt
    refine ⟨?_, hgrows.trans hgrows'⟩
    rw [handed_snoc, published_snoc, ← List.append_assoc, ← List.append_assoc]
    exact hkept'

theorem written_kept (hroots : Function.Injective H.reservationId) {familyId : ι}
    {writes : List (Timed ι × Answer ι)}
    (hwritten : Written (attempt H) (emptyPartition familyId) writes s) :
    Kept H (handed writes) (published writes) s := by
  simpa using ((kept_empty familyId).written hroots hwritten).1

/-! ## finalizations -/

theorem reserve_published (s : AdmissionState ι) (q : ReserveRequest ι) :
    (reserveTransition H s q).2.published = none := by
  unfold reserveTransition arbitrate
  dsimp only
  repeat' split
  all_goals rfl

theorem withdraw_published (s : AdmissionState ι) (id : ι) (fence : Option ℤ) (status : Status) :
    (withdrawTransition s id fence status).2.published = none := by
  unfold withdrawTransition
  repeat' split
  all_goals rfl

theorem expire_published (s : AdmissionState ι) (id : ι) (fence : Option ℤ) (now : Instant) :
    (expireTransition s id fence now).2.published = none := by
  unfold expireTransition
  repeat' split
  all_goals rfl

/-- an answer that publishes is given to a request of `finalize!` -/
theorem published_call {c : Call ι} {now : Instant} {f : Finalization ι}
    (h : c.transition H now s = (s', .finalized f)) :
    ∃ q, c = .finalize q ∧ finalizeTransition H s q = (s', .finalized f) := by
  have hno : ∀ {x : AdmissionState ι × Answer ι}, x = (s', .finalized f) →
      x.2.published ≠ none := by
    rintro x rfl
    exact nofun
  cases c with
  | snapshot => cases h
  | finalize q => exact ⟨q, rfl, h⟩
  | compact => cases h
  | resolveFinalization id => cases h
  | reserve q => exact absurd (reserve_published s _) (hno h)
  | abort id fence => exact absurd (withdraw_published s id fence .aborted) (hno h)
  | expire id fence => exact absurd (expire_published s id fence now) (hno h)

/-- what a request must say for its finalization to be answered again -/
structure Matches (H : AdmissionRoots ι) (q : FinalizeRequest ι) (f : Finalization ι) : Prop where
  id : q.reservationId = some f.reservationId
  supplied : ¬ q.requestRoot.any (· ≠ finalizationRequestRoot H q)
  root : finalizationRequestRoot H q = f.requestRoot

theorem finalizeReservation_published {q : FinalizeRequest ι} {id : ι} {r : Reservation ι}
    {f : Finalization ι} (h : finalizeReservation H s q id r = (s', .finalized f)) :
    f.reservationId = id ∧ finalizationRequestRoot H q = f.requestRoot := by
  unfold finalizeReservation at h
  repeat' split at h
  all_goals cases h
  exact ⟨rfl, rfl⟩

theorem finalized_matches {q : FinalizeRequest ι} {f : Finalization ι}
    (h : finalizeTransition H s q = (s', .finalized f)) : Matches H q f := by
  unfold finalizeTransition at h
  rw [if_neg (not_not.mpr rfl)] at h
  split at h
  · cases h
  · next hsupplied =>
    cases hid : q.reservationId with
    | none =>
      rw [hid] at h
      cases h
    | some id =>
      rw [hid] at h
      dsimp only at h
      split at h
      · split at h <;> cases h
      · cases h
      · obtain ⟨heq, hroot⟩ := finalizeReservation_published h
        exact ⟨hid.trans (heq ▸ rfl), hsupplied, hroot⟩

/-- **The request of a finalization is answered with it in every state that holds it.** -/
theorem finalize_replay {q : FinalizeRequest ι} {f : Finalization ι} (hq : Matches H q f)
    (hf : Table.find s.finalizations f.reservationId = some f) :
    finalizeTransition H s q = (s, .finalizationReplay f) := by
  unfold finalizeTransition
  rw [if_neg (not_not.mpr rfl), if_neg hq.supplied, hq.id]
  dsimp only
  rw [hf]
  dsimp only
  rw [if_pos hq.root]

/-- a finalization is of a reservation that was handed out, and read before its deadline -/
theorem Kept.authorized (h : Kept H out pub s) {d : Timed ι} {f : Finalization ι}
    (hattempt : Admission.attempt H d s = .write s' (.finalized f)) :
    ∃ r ∈ out, r.id = f.reservationId ∧ r.candidateRoot = f.candidateRoot
      ∧ ∃ deadline, r.expiresAt = some deadline ∧ d.now < deadline := by
  have hchange := transition_change (H := H) d.now (refreshed s d.now) d.call
  rw [attempt_write hattempt, refreshed_eq h.sound.schema] at hchange
  cases hchange with
  | revised _ _ hpublished => cases hpublished
  | finalized hr hactive _ _ hcandidate =>
    obtain ⟨hr₀, hexpired⟩ := find_refreshed hr hactive
    have hout := h.active hr₀ hactive
    obtain ⟨deadline, hdeadline⟩ := h.leased _ hout
    refine ⟨_, hout, h.sound.named hr₀, hcandidate.symm, deadline, hdeadline, ?_⟩
    rw [isExpired, hdeadline] at hexpired
    simpa using hexpired

theorem Kept.mem_published (h : Kept H out pub s) {id : ι} {f : Finalization ι}
    (hf : Table.find s.finalizations id = some f) : f ∈ pub ∧ f.reservationId = id := by
  refine ⟨?_, (h.sound.finalized hf).1⟩
  have hmem := Table.mem_of_find hf
  rw [h.finalizations] at hmem
  obtain ⟨g, hg, heq⟩ := List.mem_map.mp hmem
  exact (Prod.mk.inj heq).2 ▸ hg

theorem Kept.handed_unique (h : Kept H out pub s) (hroots : Function.Injective H.reservationId)
    {r r' : Reservation ι} (hr : r ∈ out) (hr' : r' ∈ out) (hid : r.id = r'.id) : r = r' := by
  obtain ⟨b, hroot, hfence⟩ := h.rooted r hr
  obtain ⟨b', hroot', hfence'⟩ := h.rooted r' hr'
  have hb : b = b' := hroots (hroot.trans (hid.trans hroot'.symm))
  have hnodup : (out.map (·.fence)).Nodup :=
    List.pairwise_map.mpr (h.fences.imp fun hlt => hlt.ne)
  refine List.inj_on_of_nodup_map hnodup hr hr' ?_
  rw [← hfence, ← hfence', hb]

theorem published_eq {f : Finalization ι} (h : a.published = some f) : a = .finalized f := by
  cases a with
  | finalized g => exact congrArg Answer.finalized (Option.some.inj h)
  | _ => cases h

theorem attempt_replay {d : Timed ι} {q : FinalizeRequest ι} {f : Finalization ι}
    {v v' : AdmissionState ι} (hcall : d.call = .finalize q)
    (hattempt : attempt H d v = .write v' (.finalized f))
    (hf : Table.find s.finalizations f.reservationId = some f)
    (hschema : s.schema = admissionStateSchema) (now : Instant) :
    reply (attempt H ⟨now, .finalize q⟩ s) = .finalizationReplay f := by
  have htransition := attempt_write hattempt
  rw [hcall] at htransition
  have hreplay := finalize_replay (finalized_matches htransition)
    (s := refreshed s now) (by rw [refreshed_eq hschema]; exact hf)
  have hkey : (Call.finalize q).key ≠ some .malformed := by
    intro hkey
    rw [attempt, hcall, if_pos hkey] at hattempt
    cases hattempt
  unfold attempt
  rw [if_neg hkey]
  unfold applyTransition
  dsimp only [Call.transition]
  rw [hreplay]
  dsimp only
  split <;> rfl

theorem change_handed {r : Reservation ι} (h : Change H s s' (.reserved r)) :
    s'.fence = s.fence + 1 := by
  cases h with
  | revised _ hhanded _ => cases hhanded
  | reserved b _ hfence _ _ _ => exact hfence

theorem handed_by_write (h : Sound H s) {d : Timed ι} {r : Reservation ι} :
    attempt H d s ≠ .answer (.reserved r) := by
  intro hattempt
  unfold attempt at hattempt
  split at hattempt
  · cases hattempt
  · unfold applyTransition at hattempt
    dsimp only at hattempt
    split at hattempt
    · next hsame =>
      have hanswer := Outcome.answer.inj hattempt
      have hchange := transition_change (H := H) d.now (refreshed s d.now) d.call
      rw [hanswer, ← hsame, refreshed_eq h.schema] at hchange
      have hfence := change_handed hchange
      have hnext : s.fence = s.fence + 1 := hfence
      omega
    · cases hattempt

/-! ## every interleaving -/

variable {κ : Type*} [DecidableEq κ]

def World.state (w : World κ ι) : AdmissionState ι := w.cell.value

def World.handed (w : World κ ι) : List (Reservation ι) := Admission.handed w.cell.writes

def World.published (w : World κ ι) : List (Finalization ι) := Admission.published w.cell.writes

/-- a call asks for the finalization of a reservation -/
def Call.Finalizes (c : Call ι) (reservationId : ι) : Prop :=
  ∃ q, c = .finalize q ∧ q.reservationId = some reservationId

/-- what holds at a point of an interleaving -/
structure Fenced (w : World κ ι) : Prop where
  exclusive : ∀ {id r id' r'}, Table.find w.state.reservations id = some r →
    Table.find w.state.reservations id' = some r' → r.status = .active → r'.status = .active →
    id = id'
  fences : w.handed.Pairwise fun r r' => r.fence < r'.fence
  answered : ∀ client d r, w.cell.phase client = .done d (.reserved r) → r ∈ w.handed
  version : w.state.version = w.published.length
  head : w.state.head = w.published.getLast?.map (·.receiptRoot)
  finalizations : w.state.finalizations = w.published.map fun f => (f.reservationId, f)
  candidates : (w.published.map (·.candidateRoot)).Nodup
  keys : ∀ r ∈ w.handed, ∀ r' ∈ w.handed, r.idempotencyKey = r'.idempotencyKey →
    r.candidateRoot = r'.candidateRoot
  authorized : ∀ before d f rest, w.cell.writes = before ++ (d, .finalized f) :: rest →
    ∃ r ∈ Admission.handed before, r.id = f.reservationId ∧ r.candidateRoot = f.candidateRoot
      ∧ ∃ deadline, r.expiresAt = some deadline ∧ d.now < deadline

/-- what holds at every later point of it -/
structure Lasting (H : AdmissionRoots ι) (w w' : World κ ι) : Prop where
  keys : ∀ {key r}, Table.find w.state.idempotencyIndex key = some r →
    Table.find w'.state.idempotencyIndex key = some r
  ended : ∀ {id r}, Table.find w.state.reservations id = some r →
    r.status = .aborted ∨ r.status = .expired → Table.find w'.state.finalizations id = none
  lapsed : ∀ r ∈ w.handed, ∀ deadline, r.expiresAt = some deadline → deadline ≤ w.clock →
    Table.find w.state.finalizations r.id = none →
    (∀ client d, (w.cell.phase client).pending = some d → d.call.Finalizes r.id →
      deadline ≤ d.now) →
    Table.find w'.state.finalizations r.id = none
  replayed : ∀ d q f, (d, .finalized f) ∈ w.cell.writes → d.call = .finalize q →
    ∀ now, reply (attempt H ⟨now, .finalize q⟩ w'.state) = .finalizationReplay f

variable {familyId : ι} {w w₁ : World κ ι}

theorem linear_move {first : AdmissionState ι} (h : Linear (attempt H) first w.cell)
    (m : Move κ ι) : Linear (attempt H) first (w.move H familyId m).cell := by
  cases m with
  | advance nanos => exact h
  | call client c =>
    unfold World.move
    dsimp only
    split
    · exact h.call client _
    · exact h
  | turn client => exact h.turn client

theorem linear_after {first : AdmissionState ι} (h : Linear (attempt H) first w.cell)
    (moves : List (Move κ ι)) : Linear (attempt H) first (w.after H familyId moves).cell := by
  induction moves generalizing w with
  | nil => exact h
  | cons m moves ih => exact ih (linear_move h m)

theorem clock_move (w : World κ ι) (m : Move κ ι) : w.clock ≤ (w.move H familyId m).clock := by
  cases m with
  | advance nanos =>
    show w.clock ≤ w.clock + nanos
    exact le_add_of_nonneg_right (Int.natCast_nonneg nanos)
  | call client c =>
    unfold World.move
    dsimp only
    split <;> exact le_rfl
  | turn client => exact le_rfl

/-- what was under way and what is called later has a property, and so has what is written later -/
theorem later_after {P : Timed ι → Prop} (hP : ∀ now c, w.clock ≤ now → P ⟨now, c⟩)
    (hclock : w.clock ≤ w₁.clock) (h : Later P w.cell w₁.cell) (moves : List (Move κ ι)) :
    Later P w.cell (w₁.after H familyId moves).cell := by
  induction moves generalizing w₁ with
  | nil => exact h
  | cons m moves ih =>
    refine ih (hclock.trans (clock_move w₁ m)) ?_
    cases m with
    | advance nanos => exact h
    | call client c =>
      unfold World.move
      dsimp only
      split
      · exact h.call client (hP _ c hclock)
      · exact h
    | turn client => exact h.turn client

theorem fenced (hroots : Function.Injective H.reservationId)
    (h : Linear (attempt H) (emptyPartition familyId) w.cell) : Fenced w := by
  have hkept := written_kept hroots h.written
  refine ⟨?_, hkept.fences, ?_, hkept.version, hkept.head, hkept.finalizations, hkept.candidates,
    ?_, ?_⟩
  · exact fun hr hr' hactive hactive' => hkept.sound.exclusive hr hr' hactive hactive'
  · intro client d r hphase
    obtain ⟨before, v, -, hwritten, hanswer⟩ := h.answered client d _ hphase
    rcases hanswer with hanswer | hmem
    · exact absurd hanswer (handed_by_write (written_kept hroots hwritten).sound)
    · exact List.mem_filterMap.mpr ⟨_, hmem, rfl⟩
  · intro r hr r' hr' hkey
    have hfirst := hkept.keyed r hr
    rw [hkey, hkept.keyed r' hr'] at hfirst
    rw [Option.some.inj hfirst]
  · intro before d f rest hwrites
    have hwritten := h.written
    rw [hwrites] at hwritten
    obtain ⟨v, v₁, hbefore, hattempt, -⟩ := hwritten.at_write
    exact (written_kept hroots hbefore).authorized hattempt

theorem later_lapsed {id : ι} {deadline : Instant} (hclock : deadline ≤ w.clock)
    (hpending : ∀ client d, (w.cell.phase client).pending = some d → d.call.Finalizes id →
      deadline ≤ d.now) (moves : List (Move κ ι)) :
    Later (fun d => d.call.Finalizes id → deadline ≤ d.now) w.cell
      (w.after H familyId moves).cell :=
  later_after (fun _ _ hnow _ => hclock.trans hnow) le_rfl (later_refl hpending) moves

theorem not_lapsed (hroots : Function.Injective H.reservationId) {c c' : Cell (AdmissionState ι) κ (Timed ι) (Answer ι)}
    (h : Linear (attempt H) (emptyPartition familyId) c)
    (h' : Linear (attempt H) (emptyPartition familyId) c') {r : Reservation ι} {deadline : Instant}
    (hr : r ∈ handed c.writes) (hdeadline : r.expiresAt = some deadline)
    (hnone : Table.find c.value.finalizations r.id = none)
    (hlater : Later (fun d => d.call.Finalizes r.id → deadline ≤ d.now) c c') :
    Table.find c'.value.finalizations r.id = none := by
  by_contra hne
  obtain ⟨f, hf⟩ := Option.ne_none_iff_exists'.mp hne
  obtain ⟨rest, hrest, hlapsed⟩ := hlater.more
  obtain ⟨hmem, hid⟩ := (written_kept hroots h'.written).mem_published hf
  rw [hrest, published_append] at hmem
  rcases List.mem_append.mp hmem with hmem | hmem
  · have hfound := (written_kept hroots h.written).found f hmem
    rw [hid, hnone] at hfound
    cases hfound
  · obtain ⟨⟨d, a⟩, he, hpublished⟩ := List.mem_filterMap.mp hmem
    obtain rfl : a = .finalized f := published_eq hpublished
    obtain ⟨l₁, l₂, rfl⟩ := List.append_of_mem he
    have hwritten := h'.written
    rw [hrest, ← List.append_assoc] at hwritten
    obtain ⟨v, v₁, hbefore, hattempt, -⟩ := hwritten.at_write
    have hkept := written_kept hroots hbefore
    obtain ⟨r₀, hr₀, hid₀, -, deadline₀, hdeadline₀, hnow⟩ := hkept.authorized hattempt
    have hrout : r ∈ handed (c.writes ++ l₁) := by
      rw [handed_append]
      exact List.mem_append_left _ hr
    obtain rfl := hkept.handed_unique hroots hr₀ hrout (hid₀.trans hid)
    obtain rfl : deadline = deadline₀ := Option.some.inj (hdeadline.symm.trans hdeadline₀)
    obtain ⟨q, hcall, hfinalize⟩ := published_call (attempt_write hattempt)
    have hfinalizes : d.call.Finalizes r₀.id :=
      ⟨q, hcall, (finalized_matches hfinalize).id.trans (congrArg some hid.symm).symm⟩
    exact absurd hnow (hlapsed _ he hfinalizes).not_gt

theorem lasting (hroots : Function.Injective H.reservationId)
    (h : Linear (attempt H) (emptyPartition familyId) w.cell) (moves : List (Move κ ι)) :
    Lasting H w (w.after H familyId moves) := by
  have h' : Linear (attempt H) (emptyPartition familyId) (w.after H familyId moves).cell :=
    linear_after h moves
  have hkept := written_kept hroots h.written
  have hkept' := written_kept hroots h'.written
  have hlater : Later (fun _ => True) w.cell (w.after H familyId moves).cell :=
    later_after (fun _ _ _ => trivial) le_rfl (later_refl fun _ _ _ => trivial) moves
  obtain ⟨rest, hrest, -⟩ := hlater.more
  have hgrows : Grows w.state (w.after H familyId moves).state :=
    (hkept.written hroots (h.between h' hrest)).2
  refine ⟨hgrows.keys, ?_, ?_, ?_⟩
  · intro id r hr hstatus
    obtain ⟨r', hr', hs⟩ := hgrows.ended hr hstatus
    by_contra hne
    obtain ⟨f, hf⟩ := Option.ne_none_iff_exists'.mp hne
    obtain ⟨-, r₁, hr₁, hfinalized⟩ := hkept'.sound.finalized hf
    have heq : r' = r₁ := Option.some.inj (hr'.symm.trans hr₁)
    rw [heq, hfinalized] at hs
    rcases hstatus with hstatus | hstatus <;> rw [hstatus] at hs <;> cases hs
  · intro r hr deadline hdeadline hclock hnone hpending
    exact not_lapsed hroots h h' hr hdeadline hnone (later_lapsed hclock hpending moves)
  · intro d q f hmem hcall now
    have hwritten := h.written
    obtain ⟨before, more, hsplit⟩ := List.append_of_mem hmem
    rw [hsplit] at hwritten
    obtain ⟨v, v₁, -, hattempt, -⟩ := hwritten.at_write
    refine attempt_replay hcall hattempt (hkept'.found f ?_) hkept'.sound.schema now
    rw [hrest, published_append]
    exact List.mem_append_left _ (List.mem_filterMap.mpr ⟨_, hmem, rfl⟩)

/-- **Every interleaving is fenced, and what it does lasts.** -/
theorem admission_fenced (hroots : Function.Injective H.reservationId) (clock : Instant)
    (familyId : ι) (earlier later : List (Move κ ι)) :
    Fenced ((World.start clock familyId).after H familyId earlier) ∧
      Lasting H ((World.start clock familyId).after H familyId earlier)
        (((World.start clock familyId).after H familyId earlier).after H familyId later) := by
  have h : Linear (attempt H) (emptyPartition familyId)
      ((World.start clock familyId : World κ ι).after H familyId earlier).cell :=
    linear_after linear_start earlier
  exact ⟨fenced hroots h, lasting hroots h later⟩

end

/-! ## a family with numbers for roots -/

def integerCode : ℤ → ℕ
  | .ofNat n => 2 * n
  | .negSucc n => 2 * n + 1

theorem integerCode_injective : Function.Injective integerCode := by
  intro a b h
  cases a <;> cases b <;> simp only [integerCode] at h <;> first | omega | (congr; omega)

def keyCode : PartitionKey ℕ → ℕ
  | .family id => id + 1
  | .malformed => 0

theorem keyCode_injective : Function.Injective keyCode := by
  intro a b h
  cases a <;> cases b <;> simp_all [keyCode]

def bindingCode (b : ReservationBinding ℕ) : ℕ :=
  Nat.pair (Nat.pair (Nat.pair (keyCode b.partitionKey) (integerCode b.fence))
      (Nat.pair b.candidateRoot b.validationRoot))
    (Nat.pair (Nat.pair b.proposedOrderingRoot b.idempotencyKey)
      (Nat.pair (integerCode b.issuedAt) (integerCode b.expiresAt)))

theorem bindingCode_injective : Function.Injective bindingCode := by
  intro a b h
  simp only [bindingCode, Nat.pair_eq_pair] at h
  obtain ⟨⟨⟨hkey, hfence⟩, hcandidate, hvalidation⟩, ⟨hordering, hidem⟩, hissued, hexpires⟩ := h
  cases a
  cases b
  simp only [ReservationBinding.mk.injEq]
  exact ⟨keyCode_injective hkey, integerCode_injective hfence, hcandidate, hvalidation, hordering,
    hidem, integerCode_injective hissued, integerCode_injective hexpires⟩

def numberRoots : AdmissionRoots ℕ where
  utf8Bytes _ := some 8
  snapshot _ version _ _ _ := integerCode version
  reservationId := bindingCode
  reservation r := Nat.pair 1 r.id
  signing p := Nat.pair 2 p.reservationId
  finalization q := Nat.pair (q.reservationId.getD 0) (q.receiptRoot.getD 0)

def sampleReserve : ReserveRequest ℕ := ⟨.family 7, none, some 0, some 5, some 1, some 2, some 3,
  none, none⟩

/-- what is handed out to the request at time zero -/
def sampleReservation : Reservation ℕ :=
  ReservationBinding.reservation numberRoots ⟨.family 7, 1, 1, 2, 3, 5, 0, 120000000000⟩ none 0

def sampleFinalize : FinalizeRequest ℕ where
  partitionKey := .family 7
  requestRoot := none
  reservationId := some sampleReservation.id
  fence := some 1
  expectedStateVersion := some 0
  candidateRoot := some 1
  validationRoot := some 2
  proposedOrderingRoot := some 3
  signingPayloadRoot := some (Nat.pair 2 sampleReservation.id)
  receiptRoot := some 9
  authorizationEvidenceRoot := some 9
  other := none

/-- the reservation is handed out, and the call that finalizes it reads the clock -/
def sampleMoves : List (Move ℕ ℕ) :=
  [.call 0 (.reserve sampleReserve), .turn 0, .turn 0, .call 0 (.finalize sampleFinalize)]

theorem admission_fenced_sample :
    Fenced ((World.start 0 7).after numberRoots 7 sampleMoves) ∧
      Lasting numberRoots ((World.start 0 7).after numberRoots 7 sampleMoves)
        (((World.start 0 7).after numberRoots 7 sampleMoves).after numberRoots 7
          [.turn 0, .turn 0, .call 1 .compact, .turn 1, .turn 1]) :=
  admission_fenced bindingCode_injective 0 7 sampleMoves _

/-- the clock reaches the deadline between the call and its write -/
theorem finalized_past_deadline :
    ¬ ∀ earlier later : List (Move ℕ ℕ),
      ∀ r ∈ ((World.start 0 7).after numberRoots 7 earlier).handed, ∀ deadline,
      r.expiresAt = some deadline →
      deadline ≤ ((World.start 0 7).after numberRoots 7 earlier).clock →
      Table.find ((World.start 0 7).after numberRoots 7 earlier).state.finalizations r.id = none →
      Table.find (((World.start 0 7).after numberRoots 7 earlier).after numberRoots 7
        later).state.finalizations r.id = none := by
  intro h
  have hlapsed := h (sampleMoves ++ [.advance 120000000000]) [.turn 0, .turn 0] sampleReservation
    (by decide +kernel) 120000000000 rfl (by decide +kernel) (by decide +kernel)
  exact absurd hlapsed (by decide +kernel)

end PRF.Admission
