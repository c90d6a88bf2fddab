import ProtocolRobustness.Library.Callers
import ProtocolRobustness.Resubmission.Admission

/-!
# Fenced admission: the in-memory store

`resubmission/admission_store.clj`: the state of one family in a cell, and clients that change it by
compare-and-set.  A call reads the clock of the store once, before its loop.

* `Call`, `attempt`        the operations of the store, and one turn of their loop;
* `World`, `Move`          the clock and the cell, and every interleaving of the clients;
* `Change`, `transition_change`   what a transition can do to the state of a family.
-/

set_option linter.unusedSectionVars false

namespace PRF.Admission
open CompareAndSet Callers

/-- the operations on one family -/
inductive Call (ι : Type*)
  | snapshot
  | reserve (request : ReserveRequest ι)
  | finalize (request : FinalizeRequest ι)
  | abort (reservationId : ι) (fence : Option ℤ)
  | expire (reservationId : ι) (fence : Option ℤ)
  | compact
  | resolveFinalization (reservationId : ι)

/-- a call with what it read from the clock -/
structure Timed (ι : Type*) where
  now : Instant
  call : Call ι

/-- nanoseconds -/
def plusSeconds (t : Instant) (seconds : ℤ) : Instant := t + seconds * 1000000000

section
variable {ι : Type*} [DecidableEq ι] (H : AdmissionRoots ι)

/-- the partition key that a request carries -/
def Call.key : Call ι → Option (PartitionKey ι)
  | .reserve q => some q.partitionKey
  | .finalize q => some q.partitionKey
  | _ => none

/-- a request with the key of another family is made of another cell -/
def Call.addresses (c : Call ι) (familyId : ι) : Bool :=
  match c.key with
  | some (.family id) => id = familyId
  | _ => true

def resolution (s : AdmissionState ι) (reservationId : ι) : Answer ι :=
  .resolution s.partitionKey s.fence s.version (Table.find s.reservations reservationId)
    (Table.find s.finalizations reservationId)

def Call.transition (now : Instant) (s : AdmissionState ι) : Call ι → AdmissionState ι × Answer ι
  | .snapshot => (s, .snapshot (Admission.snapshot H s))
  | .reserve q =>
    reserveTransition H s
      { q with
        issuedAt := some now
        expiresAt := some (plusSeconds now reservationLeaseSeconds) }
  | .finalize q => finalizeTransition H s q
  | .abort id fence => withdrawTransition s id fence .aborted
  | .expire id fence => expireTransition s id fence now
  | .compact => compactTransition s
  | .resolveFinalization id => (s, resolution s id)

/-- the state a transition is applied to -/
def refreshed (raw : AdmissionState ι) (now : Instant) : AdmissionState ι :=
  terminalizeExpired (normalizeState raw) now

/-- one turn of the loop of `apply-transition!`, and of `read-state!` -/
def applyTransition (d : Timed ι) (raw : AdmissionState ι) :
    Outcome (AdmissionState ι) (Answer ι) :=
  let (after, answer) := d.call.transition H d.now (refreshed raw d.now)
  if raw = after then .answer answer else .write after answer

/-- a request whose key is no key of a family does not come to a cell -/
def attempt (d : Timed ι) (raw : AdmissionState ι) : Outcome (AdmissionState ι) (Answer ι) :=
  if d.call.key = some .malformed then .answer (.rejected .partitionMismatch)
  else applyTransition H d raw

/-! ## interleavings -/

structure World (κ ι : Type*) where
  clock : Instant
  cell : Cell (AdmissionState ι) κ (Timed ι) (Answer ι)

/-- the clock does not go back -/
inductive Move (κ ι : Type*)
  | advance (nanos : ℕ)
  | call (client : κ) (c : Call ι)
  | turn (client : κ)

variable {κ : Type*} [DecidableEq κ]

def World.start (clock : Instant) (familyId : ι) : World κ ι :=
  ⟨clock, Cell.start (emptyPartition familyId)⟩

def World.move (familyId : ι) (w : World κ ι) : Move κ ι → World κ ι
  | .advance nanos => { w with clock := w.clock + nanos }
  | .call client c =>
    if c.addresses familyId then { w with cell := w.cell.call client ⟨w.clock, c⟩ } else w
  | .turn client => { w with cell := w.cell.turn (attempt H) client }

def World.after (familyId : ι) (w : World κ ι) (moves : List (Move κ ι)) : World κ ι :=
  moves.foldl (World.move H familyId) w

/-! ## revisions of reservations -/

/-- a reservation may end, and loses detail only then -/
structure Revision (r r' : Reservation ι) : Prop where
  id : r'.id = r.id
  fence : r'.fence = r.fence
  candidateRoot : r'.candidateRoot = r.candidateRoot
  status : r'.status = r.status ∨ r.status = .active ∧ (r'.status = .aborted ∨ r'.status = .expired)
  kept : r'.status = .active → r' = r

theorem revision_refl (r : Reservation ι) : Revision r r := ⟨rfl, rfl, rfl, Or.inl rfl, fun _ => rfl⟩

theorem revision_terminalized (r : Reservation ι) (now : Instant) :
    Revision r (r.terminalized now) := by
  unfold Reservation.terminalized
  split
  · next h => exact ⟨rfl, rfl, rfl, Or.inr ⟨h.1, Or.inr rfl⟩, nofun⟩
  · exact revision_refl r

theorem revision_compact (s : AdmissionState ι) (id : ι) (r : Reservation ι) :
    Revision r (s.compact id r) := by
  unfold AdmissionState.compact
  split
  · exact revision_refl r
  · next h => exact ⟨rfl, rfl, rfl, Or.inl rfl, fun hs => absurd hs h⟩

/-- the reservations under the same ids, each revised -/
structure Revised (m m' : List (ι × Reservation ι)) : Prop where
  keys : m'.map Prod.fst = m.map Prod.fst
  find : ∀ {id r}, Table.find m id = some r → ∃ r', Table.find m' id = some r' ∧ Revision r r'

variable {m m' m'' : List (ι × Reservation ι)}

theorem revised_refl (m : List (ι × Reservation ι)) : Revised m m :=
  ⟨rfl, fun hr => ⟨_, hr, revision_refl _⟩⟩

theorem Revised.back (h : Revised m m') {id : ι} {r' : Reservation ι}
    (hr' : Table.find m' id = some r') : ∃ r, Table.find m id = some r ∧ Revision r r' := by
  cases hr : Table.find m id with
  | none =>
    rw [Table.find_eq_none_iff, ← h.keys, ← Table.find_eq_none_iff, hr'] at hr
    cases hr
  | some r =>
    obtain ⟨r₁, hr₁, hrev⟩ := h.find hr
    rw [hr'] at hr₁
    exact ⟨r, rfl, Option.some.inj hr₁ ▸ hrev⟩

theorem revised_map (g : ι → Reservation ι → Reservation ι)
    (hg : ∀ id r, Revision r (g id r)) : Revised m (m.map fun e => (e.1, g e.1 e.2)) := by
  refine ⟨by simp [Function.comp_def], fun {id r} hr => ?_⟩
  rw [Table.find_map, hr]
  exact ⟨g id r, rfl, hg id r⟩

theorem revised_put {id : ι} {r r' : Reservation ι} (hr : Table.find m id = some r)
    (hrev : Revision r r') : Revised m (Table.put m id r') := by
  constructor
  · rw [Table.keys_put, if_pos]
    by_contra hid
    rw [← Table.find_eq_none_iff, hr] at hid
    cases hid
  · intro id' q hq
    rw [Table.find_put]
    by_cases h : id = id'
    · subst h
      rw [hr] at hq
      exact ⟨r', by simp, Option.some.inj hq ▸ hrev⟩
    · rw [if_neg (by tauto)]
      exact ⟨q, hq, revision_refl q⟩

/-! ## what a transition can do -/

/-- reservations are revised; or a reservation is handed out, when none is active and its key and
its candidate are free; or the finalization of an active reservation is published -/
inductive Change (s : AdmissionState ι) : AdmissionState ι → Answer ι → Prop
  | revised {m : List (ι × Reservation ι)} {a : Answer ι} (h : Revised s.reservations m)
      (handed : a.handed = none) (published : a.published = none) :
      Change s { s with reservations := m } a
  | reserved (b : ReservationBinding ι) (snapshotRoot : Option ι) (fence : b.fence = s.fence + 1)
      (key : Table.find s.idempotencyIndex b.idempotencyKey = none)
      (candidate : Table.find s.candidateIndex b.candidateRoot = none)
      (idle : ∀ {id r}, Table.find s.reservations id = some r → r.status ≠ .active) :
      Change s (s.reserve (b.reservation H snapshotRoot s.version))
        (.reserved (b.reservation H snapshotRoot s.version))
  | finalized {r : Reservation ι} {f : Finalization ι}
      (reservation : Table.find s.reservations f.reservationId = some r)
      (active : r.status = .active)
      (fresh : Table.find s.finalizations f.reservationId = none)
      (version : f.version = s.version + 1) (candidate : f.candidateRoot = r.candidateRoot) :
      Change s (s.publish r f) (.finalized f)

variable {H} {s s' : AdmissionState ι} {a : Answer ι}

theorem change_same (handed : a.handed = none) (published : a.published = none) :
    Change H s s a :=
  .revised (revised_refl _) handed published

theorem change_withdrawn {id : ι} {r : Reservation ι} (hr : Table.find s.reservations id = some r)
    (hactive : r.status = .active) {status : Status}
    (hstatus : status = .aborted ∨ status = .expired) (reason : Option TerminalReason) :
    Change H s (s.setReservation id { r with status := status, terminalReason := reason })
      (.withdrawn status id) := by
  refine .revised (revised_put hr ⟨rfl, rfl, rfl, Or.inr ⟨hactive, hstatus⟩, fun hs => ?_⟩) rfl rfl
  have hno : status = .active := hs
  rcases hstatus with rfl | rfl <;> cases hno

theorem change_arbitrate (s : AdmissionState ι) (snapshotRoot : Option ι)
    {b : ReservationBinding ι} (hfence : b.fence = s.fence + 1) :
    Change H s (arbitrate H s snapshotRoot b).1 (arbitrate H s snapshotRoot b).2 := by
  unfold arbitrate
  cases hkey : Table.find s.idempotencyIndex b.idempotencyKey with
  | some idem =>
    dsimp only
    split_ifs <;> exact change_same rfl rfl
  | none =>
    cases hcandidate : Table.find s.candidateIndex b.candidateRoot with
    | some existing => exact change_same rfl rfl
    | none =>
      cases hactive : s.reservations.find? fun e => e.2.status = .active with
      | some e => exact change_same rfl rfl
      | none =>
        refine .reserved b snapshotRoot hfence hkey hcandidate fun {id r} hr => ?_
        have hidle := List.find?_eq_none.mp hactive (id, r) (Table.mem_of_find hr)
        simpa using hidle

theorem binding_fence {q : ReserveRequest ι} {fence : ℤ} {b : ReservationBinding ι}
    (h : q.binding fence = some b) : b.fence = fence := by
  simp only [ReserveRequest.binding, Option.bind_eq_some_iff, Option.map_eq_some_iff] at h
  obtain ⟨_, _, _, _, _, _, _, _, _, _, _, _, rfl⟩ := h
  rfl

theorem change_reserve (s : AdmissionState ι) (q : ReserveRequest ι) :
    Change H s (reserveTransition H s q).1 (reserveTransition H s q).2 := by
  unfold reserveTransition
  split_ifs
  · exact change_same rfl rfl
  · exact change_same rfl rfl
  · exact change_same rfl rfl
  · cases hb : q.binding (s.fence + 1) with
    | none => exact change_same rfl rfl
    | some b =>
      dsimp only
      split_ifs
      · exact change_same rfl rfl
      · exact change_arbitrate s q.snapshotRoot (binding_fence hb)

theorem change_finalizeReservation {q : FinalizeRequest ι} {id : ι} {r : Reservation ι}
    (hr : Table.find s.reservations id = some r) (hfresh : Table.find s.finalizations id = none) :
    Change H s (finalizeReservation H s q id r).1 (finalizeReservation H s q id r).2 := by
  unfold finalizeReservation
  by_cases hactive : r.status = .active
  · split_ifs
    any_goals exact change_same rfl rfl
    split
    · exact .finalized hr hactive hfresh rfl rfl
    · exact change_same rfl rfl
  · rw [if_pos hactive]
    split_ifs <;> exact change_same rfl rfl

theorem change_finalize (s : AdmissionState ι) (q : FinalizeRequest ι) :
    Change H s (finalizeTransition H s q).1 (finalizeTransition H s q).2 := by
  unfold finalizeTransition
  split_ifs
  · exact change_same rfl rfl
  · exact change_same rfl rfl
  · cases hid : q.reservationId with
    | none => exact change_same rfl rfl
    | some id =>
      dsimp only
      cases hf : Table.find s.finalizations id with
      | some f =>
        dsimp only
        split_ifs <;> exact change_same rfl rfl
      | none =>
        cases hr : Table.find s.reservations id with
        | none => exact change_same rfl rfl
        | some r => exact change_finalizeReservation hr hf

theorem change_expire (s : AdmissionState ι) (id : ι) (fence : Option ℤ) (now : Instant) :
    Change H s (expireTransition s id fence now).1 (expireTransition s id fence now).2 := by
  unfold expireTransition
  cases hr : Table.find s.reservations id with
  | none => exact change_same rfl rfl
  | some r =>
    dsimp only
    split_ifs with _ _ hactive
    any_goals exact change_same rfl rfl
    exact change_withdrawn hr (not_not.mp hactive) (Or.inr rfl) _

theorem change_withdraw (s : AdmissionState ι) (id : ι) (fence : Option ℤ) (status : Status) :
    Change H s (withdrawTransition s id fence status).1
      (withdrawTransition s id fence status).2 := by
  unfold withdrawTransition
  by_cases hstatus : status = .aborted ∨ status = .expired
  · rw [if_neg (not_not.mpr hstatus)]
    cases hr : Table.find s.reservations id with
    | none => exact change_same rfl rfl
    | some r =>
      dsimp only
      split_ifs with _ _ hactive
      any_goals exact change_same rfl rfl
      exact change_withdrawn hr (not_not.mp hactive) hstatus _
  · rw [if_pos hstatus]
    exact change_same rfl rfl

/-- **What an operation can do to the state it is applied to.** -/
theorem transition_change (now : Instant) (s : AdmissionState ι) (c : Call ι) :
    Change H s (c.transition H now s).1 (c.transition H now s).2 := by
  cases c with
  | snapshot => exact change_same rfl rfl
  | reserve q => exact change_reserve s _
  | finalize q => exact change_finalize s q
  | abort id fence => exact change_withdraw s id fence _
  | expire id fence => exact change_expire s id fence now
  | compact => exact .revised (revised_map _ fun id r => revision_compact s id r) rfl rfl
  | resolveFinalization id => exact change_same rfl rfl

/-! ## one turn of the loop -/

/-- a state of the current schema is only read for expired reservations -/
theorem refreshed_eq (hs : s.schema = admissionStateSchema) (now : Instant) :
    refreshed s now
      = { s with reservations := s.reservations.map fun e => (e.1, e.2.terminalized now) } := by
  rw [refreshed, normalizeState, if_pos hs, terminalizeExpired]

theorem refreshed_revised (s : AdmissionState ι) (now : Instant) :
    Revised s.reservations (s.reservations.map fun e => (e.1, e.2.terminalized now)) :=
  revised_map (fun _ r => r.terminalized now) fun _ r => revision_terminalized r now

theorem find_refreshed {now : Instant} {id : ι} {r : Reservation ι}
    (h : Table.find (s.reservations.map fun e => (e.1, e.2.terminalized now)) id = some r)
    (hactive : r.status = .active) :
    Table.find s.reservations id = some r ∧ isExpired r now = false := by
  rw [Table.find_map s.reservations fun _ r => r.terminalized now] at h
  obtain ⟨r₀, hr₀, hterm⟩ := Option.map_eq_some_iff.mp h
  have hr : r = r₀ := by
    rw [← hterm] at hactive ⊢
    exact (revision_terminalized r₀ now).kept hactive
  subst hr
  refine ⟨hr₀, ?_⟩
  by_contra hexpired
  rw [Reservation.terminalized, if_pos ⟨hactive, by simpa using hexpired⟩] at hterm
  rw [← hterm] at hactive
  cases hactive

theorem attempt_write {d : Timed ι} (h : attempt H d s = .write s' a) :
    d.call.transition H d.now (refreshed s d.now) = (s', a) := by
  unfold attempt at h
  split at h
  · cases h
  · unfold applyTransition at h
    dsimp only at h
    split at h
    · cases h
    · obtain ⟨rfl, rfl⟩ := Outcome.write.inj h
      rfl

end

end PRF.Admission
