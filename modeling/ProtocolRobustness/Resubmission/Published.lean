import ProtocolRobustness.Library.Runs
import ProtocolRobustness.Resubmission.Fenced

/-!
# What is published is what was reserved

Any sequence of the pure transitions of `resubmission/admission.clj`, with arbitrary requests.

* `Command`, `reached`, `reserved`   the sequences, the states they reach, what they hand out;
* `BoundTo`, `Publication`           a request says what its reservation says, and is published
                                     while that is the last reservation;
* `Fitting`, `Repeating`             a request that passes every check that reads the state;
* `finalize_binds_iff`               such a request is bound exactly when it has the partition key
                                     of the state.
-/

set_option linter.unusedSectionVars false

namespace PRF.Admission

/-- the pure transitions -/
inductive Command (ι : Type*)
  | reserve (request : ReserveRequest ι)
  | finalize (request : FinalizeRequest ι)
  | withdraw (reservationId : ι) (fence : Option ℤ) (status : Status)
  | expire (reservationId : ι) (fence : Option ℤ) (now : Instant)
  | terminalize (now : Instant)
  | compact

section
variable {ι : Type*} [DecidableEq ι] (H : AdmissionRoots ι)

/-- `terminalize-expired` returns the state alone -/
def Command.transition (s : AdmissionState ι) : Command ι → AdmissionState ι × Option (Answer ι)
  | .reserve q => ((reserveTransition H s q).1, some (reserveTransition H s q).2)
  | .finalize q => ((finalizeTransition H s q).1, some (finalizeTransition H s q).2)
  | .withdraw id fence status =>
    ((withdrawTransition s id fence status).1, some (withdrawTransition s id fence status).2)
  | .expire id fence now =>
    ((expireTransition s id fence now).1, some (expireTransition s id fence now).2)
  | .terminalize now => (terminalizeExpired s now, none)
  | .compact => ((compactTransition s).1, some (compactTransition s).2)

/-- a transition always returns -/
def step (s : AdmissionState ι) (c : Command ι) : Except Empty (AdmissionState ι) :=
  .ok (c.transition H s).1

def Command.handed (s : AdmissionState ι) (c : Command ι) : List (Reservation ι) :=
  ((c.transition H s).2.bind Answer.handed).toList

/-- the state of a family after a sequence of transitions -/
def reached (familyId : ι) (cs : List (Command ι)) : AdmissionState ι :=
  Runs.run (step H) (emptyPartition familyId) cs

/-- the reservations that a sequence hands out, the first first -/
def reserved (familyId : ι) (cs : List (Command ι)) : List (Reservation ι) :=
  Runs.emitted (step H) (fun s c => c.handed H s) (emptyPartition familyId) cs

/-! ## requests and reservations -/

/-- the request says what the reservation says -/
structure FinalizeRequest.BoundTo (q : FinalizeRequest ι) (r : Reservation ι) : Prop where
  partitionKey : q.partitionKey = r.partitionKey
  fence : q.fence = some r.fence
  version : q.expectedStateVersion = some r.expectedStateVersion
  candidateRoot : q.candidateRoot = some r.candidateRoot
  validationRoot : q.validationRoot = r.validationRoot
  orderingRoot : q.proposedOrderingRoot = r.proposedOrderingRoot
  signingPayload : q.signingPayloadRoot = some (H.signing (signingPayload r))

/-- in a state in which `out` was handed out, the request is for the reservation `r`, which is
active and the last one -/
structure Publication (out : List (Reservation ι)) (s : AdmissionState ι) (q : FinalizeRequest ι)
    (r : Reservation ι) : Prop where
  reservationId : q.reservationId = some r.id
  stored : Table.find s.reservations r.id = some r
  active : r.status = .active
  latest : out.getLast? = some r
  partitionKey : q.partitionKey = s.partitionKey
  bound : q.BoundTo H r

/-- what a request publishes was reserved, now or when it was first made, and what is not as it was
reserved is rejected -/
structure Binding (familyId : ι) (cs : List (Command ι)) (q : FinalizeRequest ι) : Prop where
  finalized : ∀ s' f, finalizeTransition H (reached H familyId cs) q = (s', .finalized f) →
    ∃ r, Publication H (reserved H familyId cs) (reached H familyId cs) q r
  replayed : ∀ s' f,
    finalizeTransition H (reached H familyId cs) q = (s', .finalizationReplay f) →
    ∃ before q', before ++ [.finalize q'] <+: cs ∧
      { q' with requestRoot := none } = { q with requestRoot := none } ∧
      ∃ r, Publication H (reserved H familyId before) (reached H familyId before) q r
  rejected : ∀ r ∈ reserved H familyId cs, q.reservationId = some r.id → ¬ q.BoundTo H r →
    ∃ reason, finalizeTransition H (reached H familyId cs) q
      = (reached H familyId cs, .rejected reason)

/-- the request passes every check of `finalize-transition` but that of its key -/
structure Fitting (s : AdmissionState ι) (q : FinalizeRequest ι) (r : Reservation ι) : Prop where
  supplied : ¬ q.requestRoot.any (· ≠ finalizationRequestRoot H q)
  reservationId : q.reservationId = some r.id
  fresh : Table.find s.finalizations r.id = none
  stored : Table.find s.reservations r.id = some r
  current : q.fence = some s.fence
  active : r.status = .active
  fence : q.fence = some r.fence
  version : q.expectedStateVersion = some s.version
  candidateRoot : q.candidateRoot = some r.candidateRoot
  validationRoot : q.validationRoot = r.validationRoot
  orderingRoot : q.proposedOrderingRoot = r.proposedOrderingRoot
  signingPayload : q.signingPayloadRoot = some (H.signing (signingPayload r))
  receiptRoot : q.receiptRoot ≠ none
  evidenceRoot : q.authorizationEvidenceRoot ≠ none

/-- the request is that of a finalization in the state -/
def Repeating (s : AdmissionState ι) (q : FinalizeRequest ι) : Prop :=
  ∃ f, Matches H q f ∧ Table.find s.finalizations f.reservationId = some f

/-! ## one request -/

variable {H} {s s' : AdmissionState ι} {q : FinalizeRequest ι} {r : Reservation ι}
  {f : Finalization ι} {id : ι}

theorem finalizeReservation_of_fitting (h : Fitting H s q r) :
    ∃ f, (finalizeReservation H s q r.id r).2 = .finalized f := by
  obtain ⟨root, hroot⟩ := Option.ne_none_iff_exists'.mp h.receiptRoot
  obtain ⟨evidence, hevidence⟩ := Option.ne_none_iff_exists'.mp h.evidenceRoot
  unfold finalizeReservation
  rw [if_neg (not_not.mpr h.current), if_neg (not_not.mpr h.active),
    if_neg (not_not.mpr h.fence), if_neg (not_not.mpr h.version),
    if_neg (not_not.mpr ⟨h.candidateRoot, h.validationRoot, h.orderingRoot⟩),
    if_neg (not_not.mpr h.signingPayload), hroot, hevidence]
  exact ⟨_, rfl⟩

theorem finalize_of_fitting (h : Fitting H s q r) :
    ∃ s' f, finalizeTransition H s q = (s', .finalized f) := by
  obtain ⟨f, hf⟩ := finalizeReservation_of_fitting h
  refine ⟨(finalizeReservation H s q r.id r).1, f, ?_⟩
  unfold finalizeTransition
  rw [if_neg (not_not.mpr rfl), if_neg h.supplied, h.reservationId]
  dsimp only
  rw [h.fresh, h.stored]
  exact Prod.ext rfl hf

/-- what a request that is published has passed, but for the id of its reservation -/
theorem fitting_of_finalizeReservation (hid : q.reservationId = some r.id)
    (hsupplied : ¬ q.requestRoot.any (· ≠ finalizationRequestRoot H q))
    (hfresh : Table.find s.finalizations r.id = none)
    (hr : Table.find s.reservations r.id = some r)
    (h : finalizeReservation H s q r.id r = (s', .finalized f)) : Fitting H s q r := by
  unfold finalizeReservation at h
  split_ifs at h with hcurrent hactive hfence hversion hroots hsigning
  any_goals cases h
  split at h
  · next root evidence hroot hevidence =>
    exact ⟨hsupplied, hid, hfresh, hr, not_not.mp hcurrent, not_not.mp hactive,
      not_not.mp hfence, not_not.mp hversion, hroots.1, hroots.2.1, hroots.2.2,
      not_not.mp hsigning, by rw [hroot]; exact nofun, by rw [hevidence]; exact nofun⟩
  · cases h

theorem finalizeReservation_answer (q : FinalizeRequest ι) (id : ι) (r : Reservation ι) :
    (∃ reason, finalizeReservation H s q id r = (s, .rejected reason))
      ∨ ∃ s' f, finalizeReservation H s q id r = (s', .finalized f) := by
  unfold finalizeReservation
  repeat' split
  any_goals exact Or.inl ⟨_, rfl⟩
  exact Or.inr ⟨_, _, rfl⟩

/-- **The three answers to a request**: it is rejected, or published, or it was published before. -/
theorem finalize_cases (h : Sound H s) (q : FinalizeRequest ι) :
    (∃ reason, finalizeTransition H s q = (s, .rejected reason))
      ∨ (∃ s' f r, finalizeTransition H s q = (s', .finalized f) ∧ Fitting H s q r)
      ∨ ∃ f, finalizeTransition H s q = (s, .finalizationReplay f) ∧ Matches H q f
          ∧ Table.find s.finalizations f.reservationId = some f := by
  unfold finalizeTransition
  rw [if_neg (not_not.mpr rfl)]
  split
  · exact Or.inl ⟨_, rfl⟩
  next hsupplied =>
  cases hid : q.reservationId with
  | none => exact Or.inl ⟨_, rfl⟩
  | some id =>
    dsimp only
    cases hf : Table.find s.finalizations id with
    | some f =>
      obtain ⟨hname, -⟩ := h.finalized hf
      dsimp only
      split
      · next hroot => exact Or.inr (Or.inr ⟨f, rfl, ⟨hname ▸ hid, hsupplied, hroot⟩, hname ▸ hf⟩)
      · exact Or.inl ⟨_, rfl⟩
    | none =>
      cases hr : Table.find s.reservations id with
      | none => exact Or.inl ⟨_, rfl⟩
      | some r =>
        obtain rfl := h.named hr
        dsimp only
        rcases finalizeReservation_answer (H := H) (s := s) q r.id r with hno | ⟨s', f, heq⟩
        · exact Or.inl hno
        · exact Or.inr (Or.inl
            ⟨s', f, r, heq, fitting_of_finalizeReservation hid hsupplied hf hr heq⟩)

/-! ## what every sequence keeps -/

/-- the reservation that is active is the last one, of the state's key and version -/
structure Latest (familyId : ι) (out : List (Reservation ι)) (s : AdmissionState ι) : Prop where
  partitionKey : s.partitionKey = .family familyId
  keys : ∀ r ∈ out, r.partitionKey = .family familyId
  version : ∀ {id r}, Table.find s.reservations id = some r → r.status = .active →
    r.expectedStateVersion = s.version
  last : ∀ {id r}, Table.find s.reservations id = some r → r.status = .active →
    out.getLast? = some r

variable {familyId : ι} {out : List (Reservation ι)} {pub : List (Finalization ι)} {a : Answer ι}

theorem latest_empty (familyId : ι) : Latest familyId [] (emptyPartition familyId) where
  partitionKey := rfl
  keys := fun r hr => by cases hr
  version := nofun
  last := nofun

theorem Latest.revised (h : Latest familyId out s) {m : List (ι × Reservation ι)}
    (hm : Revised s.reservations m) : Latest familyId out { s with reservations := m } := by
  refine ⟨h.partitionKey, h.keys, ?_, ?_⟩
  · intro id r' hr' hactive
    obtain ⟨r, hr, hrev⟩ := hm.back hr'
    obtain rfl := hrev.kept hactive
    exact h.version hr hactive
  · intro id r' hr' hactive
    obtain ⟨r, hr, hrev⟩ := hm.back hr'
    obtain rfl := hrev.kept hactive
    exact h.last hr hactive

theorem Latest.reserve (h : Latest familyId out s) {b : ReservationBinding ι}
    {snapshotRoot : Option ι} (hkey : b.partitionKey = s.partitionKey)
    (hidle : ∀ {id r}, Table.find s.reservations id = some r → r.status ≠ .active) :
    Latest familyId (out ++ [b.reservation H snapshotRoot s.version])
      (s.reserve (b.reservation H snapshotRoot s.version)) := by
  have hnew : ∀ {id r}, Table.find (s.reserve (b.reservation H snapshotRoot s.version)).reservations
      id = some r → r.status = .active → r = b.reservation H snapshotRoot s.version := by
    intro id r hr hactive
    have hput : Table.find (Table.put s.reservations (H.reservationId b)
        (b.reservation H snapshotRoot s.version)) id = some r := hr
    rw [Table.find_put] at hput
    split at hput
    · exact (Option.some.inj hput).symm
    · exact absurd hactive (hidle hput)
  refine ⟨h.partitionKey, ?_, ?_, ?_⟩
  · intro r hr
    rcases List.mem_append.mp hr with hr | hr
    · exact h.keys r hr
    · obtain rfl := List.mem_singleton.mp hr
      exact hkey.trans h.partitionKey
  · intro id r hr hactive
    rw [hnew hr hactive]
    rfl
  · intro id r hr hactive
    rw [hnew hr hactive]
    simp

theorem Latest.publish (h : Latest familyId out s) (hsound : Sound H s)
    (hr : Table.find s.reservations f.reservationId = some r) (hactive : r.status = .active) :
    Latest familyId out (s.publish r f) := by
  -- no reservation is active after it
  have hidle : ∀ {id r'}, Table.find (s.publish r f).reservations id = some r' →
      r'.status ≠ .active := by
    intro id r' hr' hactive'
    have hput : Table.find (Table.put s.reservations f.reservationId
        { r with status := .finalized }) id = some r' := hr'
    rw [Table.find_put] at hput
    split at hput
    · obtain rfl := Option.some.inj hput
      cases hactive'
    · next hne => exact hne (hsound.exclusive hr hput hactive hactive')
  exact ⟨h.partitionKey, h.keys, fun hr' hactive' => absurd hactive' (hidle hr'),
    fun hr' hactive' => absurd hactive' (hidle hr')⟩

theorem Latest.change (h : Latest familyId out s) (hsound : Sound H s)
    (hkey : ∀ r, a.handed = some r → r.partitionKey = s.partitionKey)
    (hchange : Change H s s' a) : Latest familyId (out ++ a.handed.toList) s' := by
  cases hchange with
  | revised hm hhanded _ =>
    rw [hhanded]
    simpa using h.revised hm
  | reserved b snapshotRoot _ _ _ hidle => exact h.reserve (hkey _ rfl) hidle
  | finalized hr hactive _ _ _ => simpa [Answer.handed] using h.publish hsound hr hactive

theorem binding_key {q : ReserveRequest ι} {fence : ℤ} {b : ReservationBinding ι}
    (h : q.binding fence = some b) : b.partitionKey = q.partitionKey := by
  simp only [ReserveRequest.binding, Option.bind_eq_some_iff, Option.map_eq_some_iff] at h
  obtain ⟨_, _, _, _, _, _, _, _, _, _, _, _, rfl⟩ := h
  rfl

theorem arbitrate_handed {b : ReservationBinding ι} {snapshotRoot : Option ι}
    (h : (arbitrate H s snapshotRoot b).2.handed = some r) :
    r = b.reservation H snapshotRoot s.version := by
  unfold arbitrate at h
  split at h
  · dsimp only at h
    split_ifs at h <;> cases h
  · split at h
    · cases h
    · split at h
      · cases h
      · exact (Option.some.inj h).symm

theorem reserve_key {q : ReserveRequest ι} (h : (reserveTransition H s q).2.handed = some r) :
    r.partitionKey = s.partitionKey := by
  unfold reserveTransition at h
  split_ifs at h with hkey
  any_goals cases h
  have heq : q.partitionKey = s.partitionKey := not_not.mp hkey
  cases hb : q.binding (s.fence + 1) with
  | none =>
    rw [hb] at h
    cases h
  | some b =>
    rw [hb] at h
    dsimp only at h
    split at h
    · cases h
    · rw [arbitrate_handed h]
      exact (binding_key hb).trans heq

theorem finalize_handed (s : AdmissionState ι) (q : FinalizeRequest ι) :
    (finalizeTransition H s q).2.handed = none := by
  unfold finalizeTransition finalizeReservation
  dsimp only
  repeat' split
  all_goals rfl

theorem withdraw_handed (s : AdmissionState ι) (id : ι) (fence : Option ℤ) (status : Status) :
    (withdrawTransition s id fence status).2.handed = none := by
  unfold withdrawTransition
  repeat' split
  all_goals rfl

theorem expire_handed (s : AdmissionState ι) (id : ι) (fence : Option ℤ) (now : Instant) :
    (expireTransition s id fence now).2.handed = none := by
  unfold expireTransition
  repeat' split
  all_goals rfl

/-- a transition answers by a change of the state, or it only ends reservations -/
theorem transition_kept (c : Command ι) (h : Kept H out pub s) (hlatest : Latest familyId out s)
    (hids : Function.Injective H.reservationId) :
    (∃ pub', Kept H (out ++ c.handed H s) pub' (c.transition H s).1)
      ∧ Latest familyId (out ++ c.handed H s) (c.transition H s).1 := by
  have hanswer : ∀ {s' a}, Change H s s' a →
      (∀ r, a.handed = some r → r.partitionKey = s.partitionKey) →
      (∃ pub', Kept H (out ++ a.handed.toList) pub' s')
        ∧ Latest familyId (out ++ a.handed.toList) s' :=
    fun hchange hkey => ⟨⟨_, h.change hids hchange⟩, hlatest.change h.sound hkey hchange⟩
  have hnothing : ∀ {a : Answer ι}, a.handed = none →
      ∀ r, a.handed = some r → r.partitionKey = s.partitionKey := by
    intro a ha r hr
    rw [ha] at hr
    cases hr
  cases c with
  | reserve q => exact hanswer (change_reserve s q) fun r hr => reserve_key hr
  | finalize q => exact hanswer (change_finalize s q) (hnothing (finalize_handed s q))
  | withdraw id fence status =>
    exact hanswer (change_withdraw s id fence status) (hnothing (withdraw_handed s id fence status))
  | expire id fence now =>
    exact hanswer (change_expire s id fence now) (hnothing (expire_handed s id fence now))
  | terminalize now =>
    have hrevised := refreshed_revised s now
    show (∃ pub', Kept H (out ++ []) pub' _) ∧ Latest familyId (out ++ []) _
    rw [List.append_nil]
    exact ⟨⟨pub, h.revised hrevised⟩, hlatest.revised hrevised⟩
  | compact =>
    exact hanswer (.revised (revised_map _ fun id r => revision_compact s id r) rfl rfl)
      (hnothing (a := .compacted) rfl)

theorem reached_snoc (familyId : ι) (cs : List (Command ι)) (c : Command ι) :
    reached H familyId (cs ++ [c]) = (c.transition H (reached H familyId cs)).1 :=
  Runs.run_append _ _ _

theorem reserved_snoc (familyId : ι) (cs : List (Command ι)) (c : Command ι) :
    reserved H familyId (cs ++ [c])
      = reserved H familyId cs ++ c.handed H (reached H familyId cs) := by
  unfold reserved
  rw [Runs.emitted_append]
  show _ ++ (c.handed H _ ++ []) = _
  rw [List.append_nil]
  rfl

/-- **What every sequence keeps.** -/
theorem reached_kept (hids : Function.Injective H.reservationId) (familyId : ι)
    (cs : List (Command ι)) :
    (∃ pub, Kept H (reserved H familyId cs) pub (reached H familyId cs))
      ∧ Latest familyId (reserved H familyId cs) (reached H familyId cs) := by
  induction cs using List.reverseRecOn with
  | nil => exact ⟨⟨[], kept_empty familyId⟩, latest_empty familyId⟩
  | append_singleton cs c ih =>
    obtain ⟨⟨pub, hkept⟩, hlatest⟩ := ih
    rw [reserved_snoc, reached_snoc]
    exact transition_kept c hkept hlatest hids

/-! ## finalizations and their requests -/

theorem change_found (hchange : Change H s s' a) (hf : Table.find s'.finalizations id = some f) :
    Table.find s.finalizations id = some f ∨ a = .finalized f := by
  cases hchange with
  | revised _ _ _ => exact Or.inl hf
  | reserved b _ _ _ _ _ => exact Or.inl hf
  | @finalized r g _ _ _ _ _ =>
    have hput : Table.find (Table.put s.finalizations g.reservationId g) id = some f := hf
    rw [Table.find_put] at hput
    split at hput
    · exact Or.inr (congrArg _ (Option.some.inj hput))
    · exact Or.inl hput

theorem transition_found {c : Command ι}
    (hf : Table.find (c.transition H s).1.finalizations id = some f) :
    Table.find s.finalizations id = some f
      ∨ ∃ q s', c = .finalize q ∧ finalizeTransition H s q = (s', .finalized f) := by
  have hno : ∀ {s' a}, Change H s s' a → a.published = none →
      Table.find s'.finalizations id = some f → Table.find s.finalizations id = some f := by
    intro s' a hchange ha hf'
    rcases change_found hchange hf' with hold | rfl
    · exact hold
    · cases ha
  cases c with
  | reserve q => exact Or.inl (hno (change_reserve s q) (reserve_published s q) hf)
  | finalize q =>
    rcases change_found (change_finalize s q) hf with hold | hanswer
    · exact Or.inl hold
    · exact Or.inr ⟨q, (finalizeTransition H s q).1, rfl, Prod.ext rfl hanswer⟩
  | withdraw id fence status =>
    exact Or.inl (hno (change_withdraw s id fence status) (withdraw_published s id fence status) hf)
  | expire id fence now =>
    exact Or.inl (hno (change_expire s id fence now) (expire_published s id fence now) hf)
  | terminalize now => exact Or.inl hf
  | compact => exact Or.inl hf

/-- **Every finalization of a state answered a request of the sequence that led to it.** -/
theorem found_answered (familyId : ι) (cs : List (Command ι))
    (hf : Table.find (reached H familyId cs).finalizations id = some f) :
    ∃ before q s', before ++ [.finalize q] <+: cs
      ∧ finalizeTransition H (reached H familyId before) q = (s', .finalized f) := by
  induction cs using List.reverseRecOn with
  | nil => cases hf
  | append_singleton cs c ih =>
    rw [reached_snoc] at hf
    rcases transition_found hf with hold | ⟨q, s', rfl, hanswer⟩
    · obtain ⟨before, q, s', hprefix, hanswer⟩ := ih hold
      exact ⟨before, q, s', hprefix.trans (List.prefix_append _ _), hanswer⟩
    · exact ⟨cs, q, s', List.prefix_rfl, hanswer⟩

theorem reserved_of_initial {before cs : List (Command ι)} (h : before <+: cs) :
    reserved H familyId before <+: reserved H familyId cs := by
  obtain ⟨rest, rfl⟩ := h
  unfold reserved
  rw [Runs.emitted_append]
  exact List.prefix_append _ _

/-! ## the bindings of a request -/

/-- a request that fits, with the key of the state, is for the last reservation -/
theorem Fitting.publication (h : Fitting H s q r) (hlatest : Latest familyId out s)
    (hsound : Kept H out pub s) (hkey : q.partitionKey = .family familyId) :
    Publication H out s q r where
  reservationId := h.reservationId
  stored := h.stored
  active := h.active
  latest := hlatest.last h.stored h.active
  partitionKey := hkey.trans hlatest.partitionKey.symm
  bound :=
    { partitionKey := hkey.trans (hlatest.keys r (hsound.active h.stored h.active)).symm
      fence := h.fence
      version := by rw [h.version, hlatest.version h.stored h.active]
      candidateRoot := h.candidateRoot
      validationRoot := h.validationRoot
      orderingRoot := h.orderingRoot
      signingPayload := h.signingPayload }

theorem Publication.congr {q' : FinalizeRequest ι} (h : Publication H out s q' r)
    (hsame : { q' with requestRoot := none } = { q with requestRoot := none }) :
    Publication H out s q r := by
  cases q
  cases q'
  simp only [FinalizeRequest.mk.injEq, true_and] at hsame
  obtain ⟨rfl, rfl, rfl, rfl, rfl, rfl, rfl, rfl, rfl, rfl, rfl⟩ := hsame
  have hbound := h.bound
  exact ⟨h.reservationId, h.stored, h.active, h.latest, h.partitionKey, hbound.partitionKey,
    hbound.fence, hbound.version, hbound.candidateRoot, hbound.validationRoot, hbound.orderingRoot,
    hbound.signingPayload⟩

theorem replayed_publication (hids : Function.Injective H.reservationId)
    (hrequests : Function.Injective H.finalization) {familyId : ι} {cs : List (Command ι)}
    (hmatches : Matches H q f)
    (hf : Table.find (reached H familyId cs).finalizations f.reservationId = some f)
    (hkey : q.partitionKey = .family familyId) :
    ∃ before q', before ++ [.finalize q'] <+: cs ∧
      { q' with requestRoot := none } = { q with requestRoot := none } ∧
      ∃ r, Publication H (reserved H familyId before) (reached H familyId before) q r := by
  obtain ⟨before, q', s', hprefix, hanswer⟩ := found_answered familyId cs hf
  have hsame : { q' with requestRoot := none } = { q with requestRoot := none } :=
    hrequests ((finalized_matches hanswer).root.trans hmatches.root.symm)
  refine ⟨before, q', hprefix, hsame, ?_⟩
  obtain ⟨⟨pub, hkept⟩, hlatest⟩ := reached_kept hids familyId before
  have hkey' : q'.partitionKey = .family familyId :=
    (congrArg FinalizeRequest.partitionKey hsame).trans hkey
  rcases finalize_cases hkept.sound q' with ⟨reason, hno⟩ | ⟨s₁, f₁, r, -, hfit⟩ | ⟨f₁, hno, -⟩
  · rw [hno] at hanswer
    cases hanswer
  · exact ⟨r, (hfit.publication hlatest hkept hkey').congr hsame⟩
  · rw [hno] at hanswer
    cases hanswer

/-- **In every reachable state, what a request publishes is what was reserved, and what is not is
rejected, exactly when a request that passes every other check, or repeats one that was published,
has the partition key of the state.** -/
theorem finalize_binds_iff (hids : Function.Injective H.reservationId)
    (hrequests : Function.Injective H.finalization) (familyId : ι) (cs : List (Command ι))
    (q : FinalizeRequest ι) :
    Binding H familyId cs q ↔
      ((∃ r, Fitting H (reached H familyId cs) q r) ∨ Repeating H (reached H familyId cs) q →
        q.partitionKey = (reached H familyId cs).partitionKey) := by
  obtain ⟨⟨pub, hkept⟩, hlatest⟩ := reached_kept hids familyId cs
  constructor
  · rintro hbinding (⟨r, hfit⟩ | ⟨f, hmatches, hf⟩)
    · obtain ⟨s', f, hanswer⟩ := finalize_of_fitting hfit
      obtain ⟨r', hpublication⟩ := hbinding.finalized s' f hanswer
      exact hpublication.partitionKey
    · obtain ⟨before, q', -, -, r, hpublication⟩ :=
        hbinding.replayed _ f (finalize_replay hmatches hf)
      obtain ⟨-, hbefore⟩ := reached_kept hids familyId before
      rw [hpublication.partitionKey, hbefore.partitionKey, hlatest.partitionKey]
  · intro hcondition
    rw [hlatest.partitionKey] at hcondition
    rcases finalize_cases hkept.sound q with
      ⟨reason, hno⟩ | ⟨s', f, r, hanswer, hfit⟩ | ⟨f, hanswer, hmatches, hf⟩
    · -- a rejection
      refine ⟨?_, ?_, fun _ _ _ _ => ⟨reason, hno⟩⟩ <;>
      · intro s' f hanswer
        rw [hno] at hanswer
        cases hanswer
    · -- a publication
      have hpublication := hfit.publication hlatest hkept (hcondition (Or.inl ⟨r, hfit⟩))
      refine ⟨fun _ _ _ => ⟨r, hpublication⟩, ?_, ?_⟩
      · intro s₁ f₁ hreplay
        rw [hanswer] at hreplay
        cases hreplay
      · intro r' hr' hid hdiffers
        have hr : r ∈ reserved H familyId cs := hkept.active hfit.stored hfit.active
        obtain rfl := hkept.handed_unique hids hr hr'
          (Option.some.inj (hfit.reservationId.symm.trans hid))
        exact absurd hpublication.bound hdiffers
    · -- a replay
      have hreplayed := replayed_publication hids hrequests hmatches hf
        (hcondition (Or.inr ⟨f, hmatches, hf⟩))
      refine ⟨?_, fun _ _ _ => hreplayed, ?_⟩
      · intro s₁ f₁ hfinalized
        rw [hanswer] at hfinalized
        cases hfinalized
      · intro r' hr' hid hdiffers
        obtain ⟨before, q', hprefix, -, r, hpublication⟩ := hreplayed
        have hearlier : before <+: cs := (List.prefix_append _ _).trans hprefix
        have hr : r ∈ reserved H familyId cs :=
          (reserved_of_initial hearlier).subset (List.mem_of_getLast? hpublication.latest)
        obtain rfl := hkept.handed_unique hids hr hr'
          (Option.some.inj (hpublication.reservationId.symm.trans hid))
        exact absurd hpublication.bound hdiffers

end

/-! ## a request with the key of another family -/

def optionCode : Option ℕ → ℕ
  | none => 0
  | some n => n + 1

theorem optionCode_injective : Function.Injective optionCode := by
  intro a b h
  cases a <;> cases b <;> simp_all [optionCode]

def requestCode (q : FinalizeRequest ℕ) : ℕ :=
  Nat.pair
    (Nat.pair (Nat.pair (keyCode q.partitionKey) (optionCode q.requestRoot))
      (Nat.pair (optionCode q.reservationId)
        (Nat.pair (optionCode (q.fence.map integerCode))
          (optionCode (q.expectedStateVersion.map integerCode)))))
    (Nat.pair
      (Nat.pair (optionCode q.candidateRoot)
        (Nat.pair (optionCode q.validationRoot) (optionCode q.proposedOrderingRoot)))
      (Nat.pair (Nat.pair (optionCode q.signingPayloadRoot) (optionCode q.receiptRoot))
        (Nat.pair (optionCode q.authorizationEvidenceRoot) (optionCode q.other))))

theorem requestCode_injective : Function.Injective requestCode := by
  intro a b h
  simp only [requestCode, Nat.pair_eq_pair] at h
  obtain ⟨⟨⟨hkey, hroot⟩, hid, hfence, hversion⟩, ⟨hcandidate, hvalidation, hordering⟩,
    ⟨hsigning, hreceipt⟩, hevidence, hother⟩ := h
  have hinteger := Option.map_injective integerCode_injective
  cases a
  cases b
  simp only [FinalizeRequest.mk.injEq]
  exact ⟨keyCode_injective hkey, optionCode_injective hroot, optionCode_injective hid,
    hinteger (optionCode_injective hfence), hinteger (optionCode_injective hversion),
    optionCode_injective hcandidate, optionCode_injective hvalidation,
    optionCode_injective hordering, optionCode_injective hsigning, optionCode_injective hreceipt,
    optionCode_injective hevidence, optionCode_injective hother⟩

def requestRoots : AdmissionRoots ℕ := { numberRoots with finalization := requestCode }

def sampleReserved : List (Command ℕ) :=
  [.reserve { sampleReserve with issuedAt := some 0, expiresAt := some 120000000000 }]

theorem finalize_binds_iff_sample :
    Binding requestRoots 7 sampleReserved sampleFinalize ↔
      ((∃ r, Fitting requestRoots (reached requestRoots 7 sampleReserved) sampleFinalize r)
          ∨ Repeating requestRoots (reached requestRoots 7 sampleReserved) sampleFinalize →
        sampleFinalize.partitionKey = (reached requestRoots 7 sampleReserved).partitionKey) :=
  finalize_binds_iff bindingCode_injective requestCode_injective 7 sampleReserved sampleFinalize

/-- the key of the request is another family's, and it is published -/
theorem other_family_published :
    ¬ ∀ cs q, Binding requestRoots 7 cs q := by
  intro h
  have hbinding := h sampleReserved { sampleFinalize with partitionKey := .family 8 }
  obtain ⟨r, hpublication⟩ := hbinding.finalized _ _ rfl
  exact absurd hpublication.partitionKey (by decide +kernel)

end PRF.Admission
