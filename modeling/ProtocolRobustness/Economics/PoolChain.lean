import ProtocolRobustness.Economics.PoolAvailability
import ProtocolRobustness.Library.Runs

/-!
# Chains of reservations

Each reservation is built against the latest snapshot of a pool and followed by its successor.

* `Built`                   what a snapshot that was built is;
* `verify_built_iff`        it is verified iff its amounts are held in 64 bits;
* `poolAfterReservation_spec`   what a successor takes over;
* `Chain.step`              a request: a reservation, and the successor;
* `Exact`                   every artifact of a chain is verified, its amounts add up, no reservation
                            is counted twice, and none against an older snapshot is accepted;
* `chain_exact_iff`         chains are exact iff the amounts they begin with are held in 64 bits.
-/

namespace PRF.PoolAvailability
open LongArith Fallible Runs

/-- the amount, read as an integer -/
def amountOf (a : Option HostInt) : ℤ := (a.map HostInt.value).getD 0

/-- gross, reserved and protected amount are held in 64 bits -/
def PoolMap.Fixed (m : PoolMap) : Prop :=
  m.grossAmount.all (!·.big) ∧ m.reservedAmount.all (!·.big) ∧ m.protectedAmount.all (!·.big)

instance (m : PoolMap) : Decidable m.Fixed := inferInstanceAs (Decidable (_ ∧ _ ∧ _))

section
variable {hashPool : PoolMap → Option String} {hashReservation : ReservationMap → Option String}

/-! ## snapshots -/

/-- the amounts of a snapshot -/
structure Amounts (p : PoolMap) (gross reserved protectedAmount : HostInt) : Prop where
  gross_eq : p.grossAmount = some gross
  reserved_eq : p.reservedAmount = some reserved
  protected_eq : p.protectedAmount = some protectedAmount
  available_eq : p.availableAmount = some (gross.subPromote (reserved.addPromote protectedAmount))
  reserved_nonneg : 0 ≤ reserved.value
  protected_nonneg : 0 ≤ protectedAmount.value
  covered : reserved.value + protectedAmount.value ≤ gross.value

variable (hashPool) in
/-- what `buildPoolAvailability` returns -/
structure Built (p : PoolMap) : Prop where
  type : p.artifactType = some poolAvailabilityType
  unknown : p.unknown = []
  keys : p.HasSourceKeys
  hashed : p.artifactHash.isSome
  hash : hashPool p.hashProjection = p.artifactHash
  amounts : ∃ g r q, Amounts p g r q
  roots : (p.reservationRoots.getD []).Nodup

/-- the available amount of a snapshot -/
theorem Amounts.available {p : PoolMap} {g r q : HostInt} (h : Amounts p g r q) :
    amountOf p.availableAmount = g.value - r.value - q.value := by
  rw [h.available_eq]
  show g.value - (r.value + q.value) = _
  omega

theorem fixed_iff {p : PoolMap} {g r q : HostInt} (h : Amounts p g r q) :
    p.Fixed ↔ g.big = false ∧ r.big = false ∧ q.big = false := by
  unfold PoolMap.Fixed
  rw [h.gross_eq, h.reserved_eq, h.protected_eq]
  simp

theorem canonicalizeRoots_eq_ok {label : String} {roots sorted : List String} :
    canonicalizeRoots label roots = .ok sorted ↔
      roots.Nodup ∧ roots.insertionSort notAfter = sorted := by
  simp only [canonicalizeRoots, bind_eq_ok, refuseIf_eq_ok, exists_const, pure, Except.pure,
    Except.ok.injEq, not_not]

/-- a snapshot takes over the amounts and the roots of its source -/
structure From (input p : PoolMap) : Prop where
  gross : p.grossAmount = input.grossAmount
  reserved : p.reservedAmount = input.reservedAmount
  protectedAmount : p.protectedAmount = input.protectedAmount
  roots : (p.reservationRoots.getD []).Perm (input.reservationRoots.getD [])

theorem buildPoolAvailability_spec {input p : PoolMap}
    (h : buildPoolAvailability hashPool input = .ok p) : Built hashPool p ∧ From input p := by
  simp only [buildPoolAvailability, canonicalizePoolInput, derivePoolAmounts, poolAvailabilityHash,
    bind_eq_ok, refuseIf_eq_ok, need_eq_ok, canonicalizeRoots_eq_ok, exists_const, pure,
    Except.pure, Except.ok.injEq, not_not, not_or, not_lt] at h
  obtain ⟨canonical, ⟨hsource, hkeys, liability, ⟨_, hliability⟩, roots, ⟨hnodup, hroots⟩,
    rfl⟩, derived, ⟨g, hg, r, hr, q, hq, ⟨_, hr0, hq0⟩, hcovered, rfl⟩, hash, hhash, rfl⟩ := h
  have hperm := List.perm_insertionSort notAfter (input.reservationRoots.getD [])
  rw [hroots] at hperm
  obtain ⟨h1, h2, h3, h4, h5, h6, h7, h8, h9, _, _⟩ := hkeys
  refine ⟨⟨rfl, hsource.2.2.2, ⟨h1, h2, h3, h4, h5, h6, h7, h8, h9, rfl, rfl⟩, rfl, hhash,
    ⟨g, r, q, hg, hr, hq, rfl, hr0, hq0, hcovered⟩, hperm.nodup_iff.mpr hnodup⟩,
    ⟨rfl, rfl, rfl, hperm⟩⟩

theorem checkNat_eq_ok {key : String} {amount : Option HostInt} {a : HostInt} :
    checkNat key amount = .ok a ↔ amount = some a ∧ natInt a = true := by
  simp only [checkNat, bind_eq_ok, refuseIf_eq_ok, need_eq_ok, exists_const, pure, Except.pure,
    Except.ok.injEq, Bool.not_eq_false]
  constructor
  · rintro ⟨b, hb, hnat, rfl⟩
    exact ⟨hb, hnat⟩
  · rintro ⟨ha, hnat⟩
    exact ⟨a, ha, hnat, rfl⟩

theorem natInt_iff {a : HostInt} (h : 0 ≤ a.value) : natInt a = true ↔ a.big = false := by
  simp [natInt, h]

/-- **A snapshot that was built is verified iff its amounts are held in 64 bits.** -/
theorem verify_built_iff {p : PoolMap} (h : Built hashPool p) :
    verifyPoolAvailability hashPool p = [] ↔ p.Fixed := by
  obtain ⟨g, r, q, ha⟩ := h.amounts
  obtain ⟨hash, hhash⟩ := Option.isSome_iff_exists.mp h.hashed
  have hr0 := ha.reserved_nonneg
  have hq0 := ha.protected_nonneg
  have hcovered := ha.covered
  have hexpected : poolAvailabilityHash hashPool p = .ok hash :=
    need_eq_ok.mpr (h.hash.trans hhash)
  have hrederived : rederived p = p.availableAmount.map HostInt.value := by
    unfold rederived
    rw [ha.gross_eq, ha.reserved_eq, ha.protected_eq, ha.available_eq]
    show some (g.value - r.value - q.value) = some (g.value - (r.value + q.value))
    rw [sub_sub]
  have hvalid : validatePoolAvailability p = .ok () ↔ p.Fixed := by
    rw [fixed_iff ha]
    have hkeys : p.HasSourceKeys ∧ p.artifactType.isSome ∧ p.availableAmount.isSome :=
      ⟨h.keys, by rw [h.type]; rfl, by rw [ha.available_eq]; rfl⟩
    simp only [validatePoolAvailability, bind_eq_ok, refuseIf_eq_ok, checkNat_eq_ok, exists_const,
      not_not, h.unknown, h.type, ha.gross_eq, ha.reserved_eq, ha.protected_eq, ha.available_eq,
      Option.some.injEq, hkeys, not_true_eq_false, not_false_eq_true, true_and, ne_eq]
    have hnatg := natInt_iff (show 0 ≤ g.value by omega)
    have hv0 : 0 ≤ (g.subPromote (r.addPromote q)).value := by
      show 0 ≤ g.value - (r.value + q.value)
      omega
    constructor
    · rintro ⟨-, _, ⟨rfl, hg⟩, _, ⟨rfl, hr⟩, _, ⟨rfl, hq⟩, -⟩
      exact ⟨hnatg.mp hg, (natInt_iff hr0).mp hr, (natInt_iff hq0).mp hq⟩
    · rintro ⟨hg, hr, hq⟩
      have hfits := g.fits hg
      have hfits' : Fits (r.value + q.value) := ⟨by omega, lt_of_le_of_lt hcovered hfits.2⟩
      have hv : (g.subPromote (r.addPromote q)).big = false := by
        rw [HostInt.subPromote_big, HostInt.addPromote_big]
        refine ⟨hg, ⟨hr, hq, hfits'⟩, ?_⟩
        show -2 ^ 63 ≤ g.value - (r.value + q.value) ∧ g.value - (r.value + q.value) < 2 ^ 63
        have := hfits.2
        omega
      exact ⟨⟨rfl, rfl⟩, _, ⟨rfl, hnatg.mpr hg⟩, _, ⟨rfl, (natInt_iff hr0).mpr hr⟩, _,
        ⟨rfl, (natInt_iff hq0).mpr hq⟩, _, ⟨rfl, (natInt_iff hv0).mpr hv⟩, not_lt.mpr hcovered⟩
  rw [← hvalid]
  unfold verifyPoolAvailability
  rw [hexpected, hhash, hrederived]
  cases validatePoolAvailability p with
  | ok u => simp
  | error e => simp

/-! ## reservations -/

variable (hashPool hashReservation) in
/-- what `buildReservation` returns -/
structure Reserves (pool : PoolMap) (opts : ReservationOpts) (r : ReservationMap) : Prop where
  verified : verifyPoolAvailability hashPool pool = []
  type : r.artifactType = some poolReservationType
  unknown : r.unknown = []
  id : r.id = some opts.id
  poolRoot : r.poolRoot = some ((pool.artifactHash.map Datum.str).getD .null)
  purposeRoot : r.purposeRoot = some opts.purposeRoot
  hashed : r.artifactHash.isSome
  hash : hashReservation r.hashProjection = r.artifactHash
  amount : ∃ a, r.amount = some a ∧ natInt a = true ∧ 0 < a.value ∧
    a.value ≤ amountOf pool.availableAmount

theorem buildReservation_spec {pool : PoolMap} {opts : ReservationOpts} {r : ReservationMap}
    (h : buildReservation hashPool hashReservation pool opts = .ok r) :
    Reserves hashPool hashReservation pool opts r := by
  simp only [buildReservation, reservationHash, bind_eq_ok, refuseIf_eq_ok, need_eq_ok,
    exists_const, pure, Except.pure, Except.ok.injEq, not_not, not_lt, List.isEmpty_iff,
    Option.filter_eq_some_iff] at h
  obtain ⟨hverified, a, ⟨_, ha⟩, available, havailable, hle, hash, hhash, rfl⟩ := h
  have hpos : natInt a = true ∧ 0 < a.value := by
    rw [Bool.and_eq_true, decide_eq_true_eq] at ha
    have h0 : 0 ≤ a.value := by
      have := ha.1
      simp [natInt] at this
      exact this.2
    exact ⟨ha.1, lt_of_le_of_ne h0 (Ne.symm ha.2)⟩
  exact ⟨hverified, rfl, rfl, rfl, rfl, rfl, rfl, hhash, a, rfl, hpos.1, hpos.2, by
    rw [havailable]
    exact hle⟩

/-! ## successors -/

section
variable {compare : Datum → Datum → Option Ordering}

variable (hashPool hashReservation) in
/-- what `poolAfterReservation` accepts and returns -/
structure Succeeds (pool : PoolMap) (r : ReservationMap) (p : PoolMap) : Prop where
  named : namesPool r pool
  verified : verifyPoolAvailability hashPool pool = []
  reservation_verified : verifyReservation hashReservation r = []
  fresh : ∀ hash ∈ r.artifactHash, hash ∉ pool.reservationRoots.getD []
  built : Built hashPool p
  gross : p.grossAmount = pool.grossAmount
  protectedAmount : p.protectedAmount = pool.protectedAmount
  reserved : p.reservedAmount = pool.reservedAmount.bind fun a => r.amount.map a.addPromote
  roots : (p.reservationRoots.getD []).Perm
    (pool.reservationRoots.getD [] ++ r.artifactHash.toList)

theorem poolAfterReservation_spec {pool p : PoolMap} {r : ReservationMap} {opts : SuccessorOpts}
    (h : poolAfterReservation hashPool hashReservation compare pool r opts = .ok p) :
    Succeeds hashPool hashReservation pool r p := by
  simp only [poolAfterReservation, bind_eq_ok, refuseIf_eq_ok, exists_const, not_not,
    List.isEmpty_iff, not_exists, not_and] at h
  obtain ⟨hnamed, hverified, hreservation, hfresh, _, _, hbuild⟩ := h
  obtain ⟨hbuilt, hfrom⟩ := buildPoolAvailability_spec hbuild
  exact ⟨hnamed, hverified, hreservation, hfresh, hbuilt, hfrom.gross, hfrom.protectedAmount,
    hfrom.reserved, hfrom.roots⟩

end

/-! ## chains -/

/-- a snapshot, those before it, and the reservations between them -/
structure Chain where
  first : PoolMap
  older : List PoolMap
  latest : PoolMap
  reservations : List ReservationMap

/-- a reservation and the successor with it -/
structure Request where
  reservation : ReservationOpts
  successor : SuccessorOpts

namespace Chain

def start (first : PoolMap) : Chain := ⟨first, [], first, []⟩

def reservedTotal (c : Chain) : ℤ := (c.reservations.map fun r => amountOf r.amount).sum

variable (hashPool hashReservation) (compare : Datum → Datum → Option Ordering)

def step (c : Chain) (request : Request) : Except Refusal Chain := do
  let r ← buildReservation hashPool hashReservation c.latest request.reservation
  let p ← poolAfterReservation hashPool hashReservation compare c.latest r request.successor
  return { c with
    older := c.older ++ [c.latest]
    latest := p
    reservations := c.reservations ++ [r] }

end Chain

variable (hashPool hashReservation) (compare : Datum → Datum → Option Ordering)

/-- what a chain owes its readers -/
structure Exact (c : Chain) : Prop where
  pools : ∀ p ∈ c.older ++ [c.latest], verifyPoolAvailability hashPool p = []
  reservations : ∀ r ∈ c.reservations, verifyReservation hashReservation r = []
  available : amountOf c.latest.availableAmount = amountOf c.first.grossAmount -
    amountOf c.first.protectedAmount - amountOf c.first.reservedAmount - c.reservedTotal
  nonneg : 0 ≤ amountOf c.latest.availableAmount
  once : ∀ r ∈ c.reservations, ∀ hash ∈ r.artifactHash,
    (c.latest.reservationRoots.getD []).count hash = 1
  stale : ∀ p ∈ c.older, ∀ opts r, buildReservation hashPool hashReservation p opts = .ok r →
    ∀ successor p', poolAfterReservation hashPool hashReservation compare c.latest r successor
      ≠ .ok p'

/-- the hash of a snapshot commits to its reserved amount -/
def Commits : Prop := ∀ p q hash, hashPool p = some hash → hashPool q = some hash →
  amountOf p.reservedAmount = amountOf q.reservedAmount

/-! ## what a step keeps -/

/-- a chain whose amounts are held in 64 bits -/
structure Chain.Inv (c : Chain) : Prop where
  built : ∀ p ∈ c.older ++ [c.latest], Built hashPool p ∧ p.Fixed
  gross : c.latest.grossAmount = c.first.grossAmount
  protectedAmount : c.latest.protectedAmount = c.first.protectedAmount
  reserved : amountOf c.latest.reservedAmount = amountOf c.first.reservedAmount + c.reservedTotal
  growing : ∀ p ∈ c.older, amountOf p.reservedAmount < amountOf c.latest.reservedAmount
  verified : ∀ r ∈ c.reservations, verifyReservation hashReservation r = []
  recorded : ∀ r ∈ c.reservations, ∀ hash ∈ r.artifactHash,
    hash ∈ c.latest.reservationRoots.getD []

variable {hashPool hashReservation compare}

theorem Chain.Inv.start {first : PoolMap} (h : Built hashPool first) (hfixed : first.Fixed) :
    (Chain.start first).Inv hashPool hashReservation where
  built := by
    intro p hp
    rw [List.mem_singleton.mp hp]
    exact ⟨h, hfixed⟩
  gross := rfl
  protectedAmount := rfl
  reserved := by
    show amountOf first.reservedAmount = amountOf first.reservedAmount + 0
    rw [add_zero]
  growing := fun p hp => by cases hp
  verified := fun r hr => by cases hr
  recorded := fun r hr => by cases hr

section
variable {c c' : Chain} {request : Request}

theorem Chain.step_spec (h : c.step hashPool hashReservation compare request = .ok c') :
    ∃ r p, Reserves hashPool hashReservation c.latest
        request.reservation r ∧
      Succeeds hashPool hashReservation c.latest r p ∧
      c' = { c with
        older := c.older ++ [c.latest]
        latest := p
        reservations := c.reservations ++ [r] } := by
  simp only [Chain.step, bind_eq_ok, pure, Except.pure, Except.ok.injEq] at h
  obtain ⟨r, hr, p, hp, rfl⟩ := h
  exact ⟨r, p, buildReservation_spec hr, poolAfterReservation_spec hp, rfl⟩

theorem Succeeds.reserved_add {pool p : PoolMap} {r : ReservationMap} {a b : HostInt}
    (h : Succeeds hashPool hashReservation pool r p)
    (hr : pool.reservedAmount = some a) (ha : r.amount = some b) :
    p.reservedAmount = some (a.addPromote b) := by
  rw [h.reserved, hr, ha]
  rfl

/-- a successor of amounts in 64 bits has amounts in 64 bits -/
theorem Succeeds.fixed {pool p : PoolMap} {r : ReservationMap} {opts : ReservationOpts}
    (h : Succeeds hashPool hashReservation pool r p)
    (hres : Reserves hashPool hashReservation pool opts r)
    (hb : Built hashPool pool) (hfixed : pool.Fixed) : p.Fixed := by
  obtain ⟨g, a, q, hpool⟩ := hb.amounts
  obtain ⟨g', a', q', hp⟩ := h.built.amounts
  obtain ⟨b, hb, hnat, _⟩ := hres.amount
  obtain ⟨hg, ha, hq⟩ := (fixed_iff hpool).mp hfixed
  obtain rfl : g' = g :=
    Option.some.inj (hp.gross_eq.symm.trans (h.gross.trans hpool.gross_eq))
  obtain rfl : q' = q :=
    Option.some.inj (hp.protected_eq.symm.trans (h.protectedAmount.trans hpool.protected_eq))
  obtain rfl : a' = a.addPromote b :=
    Option.some.inj (hp.reserved_eq.symm.trans (h.reserved_add hpool.reserved_eq hb))
  have hbig : b.big = false := by
    simp [natInt] at hnat
    exact hnat.1
  rw [fixed_iff hp]
  refine ⟨hg, ?_, hq⟩
  rw [HostInt.addPromote_big]
  -- under the gross amount, which fits
  have hcovered := hp.covered
  have hq0 := hp.protected_nonneg
  have hr0 := hp.reserved_nonneg
  have hfits := g'.fits hg
  rw [HostInt.addPromote_value] at hcovered hr0
  exact ⟨ha, hbig, by omega, lt_of_le_of_lt (by omega) hfits.2⟩

theorem Chain.Inv.step (hi : c.Inv hashPool hashReservation)
    (h : c.step hashPool hashReservation compare request = .ok c') :
    c'.Inv hashPool hashReservation := by
  obtain ⟨r, p, hres, hsucc, rfl⟩ := Chain.step_spec h
  obtain ⟨hbuilt, hfixed⟩ := hi.built c.latest (by simp)
  obtain ⟨g, a, q, hpool⟩ := hbuilt.amounts
  obtain ⟨b, hb, _, hpos, _⟩ := hres.amount
  have hreserved : amountOf p.reservedAmount = amountOf c.latest.reservedAmount + amountOf r.amount := by
    rw [hsucc.reserved_add hpool.reserved_eq hb, hpool.reserved_eq, hb]
    rfl
  have hamount : 0 < amountOf r.amount := by
    rw [hb]
    exact hpos
  have hroots : ∀ hash, hash ∈ p.reservationRoots.getD [] ↔
      hash ∈ c.latest.reservationRoots.getD [] ∨ hash ∈ r.artifactHash := by
    intro hash
    rw [hsucc.roots.mem_iff, List.mem_append, Option.mem_toList]
    rfl
  exact
    { built := by
        intro p' hp'
        rcases List.mem_append.mp hp' with hp' | hp'
        · exact hi.built p' hp'
        · rw [List.mem_singleton.mp hp']
          exact ⟨hsucc.built, hsucc.fixed hres hbuilt hfixed⟩
      gross := hsucc.gross.trans hi.gross
      protectedAmount := hsucc.protectedAmount.trans hi.protectedAmount
      reserved := by
        show amountOf p.reservedAmount = amountOf c.first.reservedAmount +
          ((c.reservations ++ [r]).map fun r => amountOf r.amount).sum
        rw [List.map_append, List.sum_append, List.map_singleton, List.sum_singleton, ← add_assoc,
          hreserved, hi.reserved]
        rfl
      growing := by
        intro p' hp'
        show amountOf p'.reservedAmount < amountOf p.reservedAmount
        rcases List.mem_append.mp hp' with hp' | hp'
        · have := hi.growing p' hp'
          omega
        · rw [List.mem_singleton.mp hp']
          omega
      verified := by
        intro r' hr'
        rcases List.mem_append.mp hr' with hr' | hr'
        · exact hi.verified r' hr'
        · rw [List.mem_singleton.mp hr']
          exact hsucc.reservation_verified
      recorded := by
        intro r' hr' hash hhash
        rw [hroots]
        rcases List.mem_append.mp hr' with hr' | hr'
        · exact Or.inl (hi.recorded r' hr' hash hhash)
        · rw [List.mem_singleton.mp hr'] at hhash
          exact Or.inr hhash }

/-- **What the invariant says to the readers of a chain.** -/
theorem Chain.Inv.exact (hcommits : Commits hashPool) (hi : c.Inv hashPool hashReservation) :
    Exact hashPool hashReservation compare c := by
  obtain ⟨hbuilt, hfixed⟩ := hi.built c.latest (by simp)
  obtain ⟨g, a, q, hpool⟩ := hbuilt.amounts
  have hgross := hi.gross
  have hprotected := hi.protectedAmount
  have hreserved := hi.reserved
  have hcovered := hpool.covered
  refine ⟨fun p hp => (verify_built_iff (hi.built p hp).1).mpr (hi.built p hp).2, hi.verified, ?_,
    ?_, ?_, ?_⟩
  · rw [hpool.available, ← hgross, ← hprotected, hpool.gross_eq, hpool.protected_eq]
    rw [hpool.reserved_eq] at hreserved
    change a.value = _ at hreserved
    show g.value - a.value - q.value = g.value - q.value - _ - _
    omega
  · rw [hpool.available]
    omega
  · intro r hr hash hhash
    exact List.count_eq_one_of_mem hbuilt.roots (hi.recorded r hr hash hhash)
  · intro p hp opts r hr successor p' hp'
    have hres := buildReservation_spec hr
    have hsucc := poolAfterReservation_spec hp'
    -- a reservation names the snapshot it was built against, whose reserved amount is smaller
    have hold := (hi.built p (List.mem_append_left _ hp)).1
    obtain ⟨hash, hhash⟩ := Option.isSome_iff_exists.mp hold.hashed
    obtain ⟨hash', hhash'⟩ := Option.isSome_iff_exists.mp hbuilt.hashed
    have hsame : hash' = hash := by
      have hnamed := hsucc.named
      unfold namesPool at hnamed
      rw [hres.poolRoot, hhash, hhash'] at hnamed
      exact Datum.str_inj.mp hnamed
    have heq := hcommits p.hashProjection c.latest.hashProjection hash (hold.hash.trans hhash)
      (hsame ▸ hbuilt.hash.trans hhash')
    exact absurd heq (hi.growing p hp).ne

end

theorem Chain.first_mem {c c' : Chain} {request : Request} {first : PoolMap}
    (hmem : first ∈ c.older ++ [c.latest])
    (h : c.step hashPool hashReservation compare request = .ok c') :
    first ∈ c'.older ++ [c'.latest] := by
  obtain ⟨r, p, _, _, rfl⟩ := Chain.step_spec h
  exact List.mem_append_left _ hmem

/-- **Chains are exact iff the amounts they begin with are held in 64 bits.** -/
theorem chain_exact_iff (hcommits : Commits hashPool) {input first : PoolMap}
    (h : buildPoolAvailability hashPool input = .ok first) (requests : List Request) :
    Exact hashPool hashReservation compare
      (run (Chain.step hashPool hashReservation compare) (Chain.start first) requests) ↔
      input.Fixed := by
  obtain ⟨hbuilt, hfrom⟩ := buildPoolAvailability_spec h
  have hfixed : first.Fixed ↔ input.Fixed := by
    unfold PoolMap.Fixed
    rw [hfrom.gross, hfrom.reserved, hfrom.protectedAmount]
  rw [← hfixed]
  constructor
  · intro hexact
    have hmem : first ∈ (run (Chain.step hashPool hashReservation compare) (Chain.start first)
        requests).older ++ [(run (Chain.step hashPool hashReservation compare)
          (Chain.start first) requests).latest] := by
      refine run_induction (I := fun c : Chain => first ∈ c.older ++ [c.latest]) ?_ ?_ requests
      · exact fun c request c' hmem hs => Chain.first_mem hmem hs
      · exact List.mem_singleton_self first
    exact (verify_built_iff hbuilt).mp (hexact.pools first hmem)
  · intro hf
    exact (run_induction (fun _ _ _ hi hs => hi.step hs) (Chain.Inv.start hbuilt hf)
      requests).exact hcommits

end

/-! ## a pool of ten units, and one of a hundred ethers -/

/-- a text for each integer -/
def textOf (n : ℤ) : String :=
  String.ofList ((if n < 0 then '-' else '+') :: List.replicate n.natAbs '|')

theorem textOf_injective : Function.Injective textOf := by
  intro m n h
  obtain ⟨hsign, htally⟩ := List.cons.inj (String.ofList_inj.mp h)
  have habs : m.natAbs = n.natAbs := by simpa using congrArg List.length htally
  by_cases hm : m < 0
  · by_cases hn : n < 0
    · omega
    · rw [if_pos hm, if_neg hn] at hsign
      cases hsign
  · by_cases hn : n < 0
    · rw [if_neg hm, if_pos hn] at hsign
      cases hsign
    · omega

def tallyPool (p : PoolMap) : Option String := some (textOf (amountOf p.reservedAmount))
def tallyReservation (r : ReservationMap) : Option String := some (textOf (amountOf r.amount))

theorem tallyPool_commits : Commits tallyPool := fun _ _ _ hp hq =>
  textOf_injective ((Option.some.inj hp).trans (Option.some.inj hq).symm)

def poolSource (gross reserved protectedAmount : ℤ) : PoolMap :=
  { artifactType := none
    id := some (.str "pool-001")
    kind := some (.kw "bonus")
    ownerId := some (.str "owner-001")
    stateRoot := some (.str "state-root")
    policyRoot := some (.str "policy-root")
    snapshotTime := some (.str "2026-07-30T00:00:00Z")
    grossAmount := some (.ofInt gross)
    reservedAmount := some (.ofInt reserved)
    protectedAmount := some (.ofInt protectedAmount)
    availableAmount := none
    liabilityRoots := some ["l2", "l1"]
    reservationRoots := some ["r1"]
    predecessorHash := none
    artifactHash := none
    unknown := [] }

/-- the snapshot of a source that is accepted -/
def snapshotOf (input : PoolMap) : PoolMap :=
  match buildPoolAvailability tallyPool input with
  | .ok p => p
  | .error _ => input

theorem snapshotOf_eq {input : PoolMap} (h : (buildPoolAvailability tallyPool input).isOk = true) :
    buildPoolAvailability tallyPool input = .ok (snapshotOf input) := by
  obtain ⟨p, hp⟩ := exists_ok h
  rw [snapshotOf, hp]

def sameTime (_ _ : Datum) : Option Ordering := some .eq

def request (amount : ℤ) : Request :=
  ⟨⟨.str "reservation", some (.ofInt amount), .str "purpose-root"⟩,
    ⟨.str "next-root", .str "2026-07-30T00:00:00Z"⟩⟩

/-- three units and then two, of the seven that are available -/
theorem chain_exact_ten : Exact tallyPool tallyReservation sameTime
    (run (Chain.step tallyPool tallyReservation sameTime)
      (Chain.start (snapshotOf (poolSource 10 2 1))) [request 3, request 2]) :=
  (chain_exact_iff tallyPool_commits (snapshotOf_eq (by decide +kernel)) _).mpr (by decide +kernel)

/-- a snapshot of 100 ethers in wei is built, and not verified -/
theorem wei_pool_not_verified :
    (buildPoolAvailability tallyPool (poolSource (10 ^ 20) 0 0)).isOk = true ∧
    (verifyPoolAvailability tallyPool (snapshotOf (poolSource (10 ^ 20) 0 0))).isEmpty = false ∧
    ¬ Exact tallyPool tallyReservation sameTime
      (Chain.start (snapshotOf (poolSource (10 ^ 20) 0 0))) := by
  have hnot : (verifyPoolAvailability tallyPool
      (snapshotOf (poolSource (10 ^ 20) 0 0))).isEmpty = false := by decide +kernel
  refine ⟨by decide +kernel, hnot, fun hexact => ?_⟩
  have hverified := hexact.pools (snapshotOf (poolSource (10 ^ 20) 0 0))
    (List.mem_singleton_self _)
  rw [hverified] at hnot
  cases hnot

end PRF.PoolAvailability
