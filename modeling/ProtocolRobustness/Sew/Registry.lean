import ProtocolRobustness.Sew.SlashDistribution
import Mathlib.Data.Nat.Size

/-!
# The resolver registry

`slash-resolver-stake` of `sew/registry.clj` and the capacities of `sew/types.clj`.  The amount of a
slash goes through doubles: stake and penalty are rounded to 53 bits, the smaller one is taken and
read back from its shortest decimal.

* `toDouble`, `shortestDecimal`   an integer as a double, and back;
* `slashableAmount`               what a slash takes of a stake;
* `World.slashResolverStake`      the slash, with its distribution.
-/

namespace PRF.Sew
open Table Fallible

/-! ## doubles -/

/-- division by `2 ^ e`, half to even -/
def roundHalfEven (n e : ℕ) : ℕ :=
  let q := n / 2 ^ e
  let r := n % 2 ^ e
  if 2 ^ e < 2 * r ∨ 2 * r = 2 ^ e ∧ q % 2 = 1 then q + 1 else q

/-- `(double n)` of an integer; none when it is infinite -/
def toDouble (n : ℤ) : Option ℤ :=
  let e := n.natAbs.size - 53
  let m := roundHalfEven n.natAbs e * 2 ^ e
  if 1024 < m.size then none else some (n.sign * m)

/-- the two multiples of `10 ^ k` around a double that are the same double -/
def decimalsAt (m k : ℕ) : List ℕ :=
  [m / 10 ^ k * 10 ^ k, (m / 10 ^ k + 1) * 10 ^ k].filter fun d => toDouble d = some m

/-- `(bigint x)` of a double: the decimal of fewest digits, and of these the closest -/
def shortestDecimal (m : ℕ) : ℕ :=
  (((List.range ((Nat.digits 10 m).length + 1)).reverse.findSome? fun k =>
    match decimalsAt m k with
    | [] => none
    | [d] => some d
    | d :: d' :: _ => some (if d' - m < m - d then d' else d)).getD m)

/-- `(bigint (min (double current) (double amount)))` -/
def slashableAmount (current amount : ℤ) : Except Failure ℤ :=
  let smaller : Option ℤ :=
    match toDouble current, toDouble amount with
    | some current, some amount => some (min current amount)
    | some current, none => if 0 < amount then some current else none
    | none, some amount => if 0 < current then some amount else none
    | none, none => none
  match smaller with
  | none => .error .numberTooLarge
  | some x => .ok (x.sign * shortestDecimal x.natAbs)

theorem toDouble_zero : toDouble 0 = some 0 := by decide

theorem toDouble_nonneg {n m : ℤ} (hn : 0 ≤ n) (h : toDouble n = some m) : 0 ≤ m := by
  unfold toDouble at h
  simp only [Option.ite_none_left_eq_some, Option.some.injEq] at h
  rw [← h.2]
  rcases hn.eq_or_lt with hzero | hpos
  · rw [← hzero, Int.sign_zero, zero_mul]
  · rw [Int.sign_eq_one_of_pos hpos, one_mul]
    exact Int.natCast_nonneg _

theorem slashableAmount_zero {amount : ℤ} (h : 0 ≤ amount) : slashableAmount 0 amount = .ok 0 := by
  have hsmaller : ∀ m, toDouble amount = some m → min 0 m = 0 := fun m hm =>
    min_eq_left (toDouble_nonneg h hm)
  unfold slashableAmount
  rw [toDouble_zero]
  cases hm : toDouble amount with
  | some m => simp [hsmaller m hm]
  | none =>
    have hpos : 0 < amount := by
      rcases h.lt_or_eq with hpos | hzero
      · exact hpos
      · rw [← hzero, toDouble_zero] at hm
        cases hm
    simp [hpos]

theorem div_le_roundHalfEven (n e : ℕ) : n / 2 ^ e ≤ roundHalfEven n e := by
  unfold roundHalfEven
  dsimp only
  split
  · exact Nat.le_succ _
  · exact le_rfl

theorem roundHalfEven_le (n e : ℕ) : roundHalfEven n e ≤ n / 2 ^ e + 1 := by
  unfold roundHalfEven
  dsimp only
  split
  · exact le_rfl
  · exact Nat.le_succ _

theorem roundHalfEven_mono {n n' : ℕ} (h : n ≤ n') (e : ℕ) :
    roundHalfEven n e ≤ roundHalfEven n' e := by
  rcases (Nat.div_le_div_right (c := 2 ^ e) h).lt_or_eq with hlt | heq
  · exact (roundHalfEven_le n e).trans (hlt.trans_le (div_le_roundHalfEven n' e))
  · have hn := Nat.div_add_mod n (2 ^ e)
    have hn' := Nat.div_add_mod n' (2 ^ e)
    rw [← heq] at hn'
    have hrest : n % 2 ^ e ≤ n' % 2 ^ e := by omega
    unfold roundHalfEven
    dsimp only
    rw [← heq]
    split
    · next hup =>
      rw [if_pos]
      omega
    · split <;> omega

def roundedMagnitude (n : ℕ) : ℕ := roundHalfEven n (n.size - 53) * 2 ^ (n.size - 53)

theorem roundedMagnitude_mono {n n' : ℕ} (h : n ≤ n') : roundedMagnitude n ≤ roundedMagnitude n' := by
  unfold roundedMagnitude
  have hsize := Nat.size_le_size h
  rcases (Nat.sub_le_sub_right hsize 53).lt_or_eq with hlt | heq
  · -- a longer number is at least the power of two that the shorter one rounds to at most
    have hsmall : n < 2 ^ (53 + (n.size - 53)) := Nat.size_le.mp (by omega)
    have hbig : 2 ^ (52 + (n'.size - 53)) ≤ n' := Nat.lt_size.mp (by omega)
    rw [pow_add] at hsmall hbig
    have hquot : n / 2 ^ (n.size - 53) < 2 ^ 53 := Nat.div_lt_of_lt_mul (by rwa [mul_comm])
    have hquot' : 2 ^ 52 ≤ n' / 2 ^ (n'.size - 53) :=
      (Nat.le_div_iff_mul_le (Nat.two_pow_pos _)).mpr hbig
    calc roundHalfEven n (n.size - 53) * 2 ^ (n.size - 53)
        ≤ 2 ^ 53 * 2 ^ (n.size - 53) :=
          Nat.mul_le_mul_right _ ((roundHalfEven_le _ _).trans hquot)
      _ = 2 ^ 52 * 2 ^ (n.size - 53 + 1) := by ring
      _ ≤ 2 ^ 52 * 2 ^ (n'.size - 53) :=
          Nat.mul_le_mul_left _ (Nat.pow_le_pow_right two_pos hlt)
      _ ≤ roundHalfEven n' (n'.size - 53) * 2 ^ (n'.size - 53) :=
          Nat.mul_le_mul_right _ (hquot'.trans (div_le_roundHalfEven _ _))
  · rw [heq]
    exact Nat.mul_le_mul_right _ (roundHalfEven_mono h _)

theorem toDouble_of_nonneg {n : ℤ} (hn : 0 ≤ n) : toDouble n
    = if 1024 < (roundedMagnitude n.natAbs).size then none
      else some (roundedMagnitude n.natAbs : ℤ) := by
  rcases hn.eq_or_lt with hzero | hpos
  · rw [← hzero]
    decide
  · unfold toDouble
    dsimp only
    rw [Int.sign_eq_one_of_pos hpos, one_mul]
    rfl

theorem toDouble_mono {n n' m' : ℤ} (hn : 0 ≤ n) (h : n ≤ n') (hm' : toDouble n' = some m') :
    ∃ m, toDouble n = some m ∧ m ≤ m' := by
  have hle : roundedMagnitude n.natAbs ≤ roundedMagnitude n'.natAbs :=
    roundedMagnitude_mono (by omega)
  rw [toDouble_of_nonneg (hn.trans h), Option.ite_none_left_eq_some, Option.some.injEq] at hm'
  rw [toDouble_of_nonneg hn, if_neg fun hlong => hm'.1 (hlong.trans_le (Nat.size_le_size hle))]
  exact ⟨_, rfl, hm'.2 ▸ by exact_mod_cast hle⟩

/-- an integer as a double, read back -/
def throughDouble (n : ℤ) : Option ℤ := (toDouble n).map fun x => x.sign * shortestDecimal x.natAbs

/-- **What a slash takes of a stake that is large enough**: the amount, through a double. -/
theorem slashableAmount_of_le {current amount total : ℤ} (hamount : 0 ≤ amount)
    (hle : amount ≤ current) (h : slashableAmount current amount = .ok total) :
    throughDouble amount = some total := by
  unfold slashableAmount at h
  unfold throughDouble
  cases hcurrent : toDouble current with
  | some c =>
    obtain ⟨m, hm, hmc⟩ := toDouble_mono hamount hle hcurrent
    rw [hcurrent, hm] at h
    dsimp only at h
    rw [min_eq_right hmc] at h
    rw [hm, Option.map_some, Except.ok.inj h]
  | none =>
    rw [hcurrent] at h
    cases hm : toDouble amount with
    | none =>
      rw [hm] at h
      cases h
    | some m =>
      rw [hm] at h
      dsimp only at h
      split at h
      · cases h
      · next x hx =>
        rw [Option.ite_none_right_eq_some, Option.some.injEq] at hx
        rw [Option.map_some, hx.2, Except.ok.inj h]

theorem roundedMagnitude_pos {n : ℕ} (h : 0 < n) : 0 < roundedMagnitude n := by
  have hone : roundedMagnitude 1 = 1 := by decide
  exact Nat.lt_of_lt_of_le (by rw [hone]; exact Nat.one_pos) (roundedMagnitude_mono h)

theorem nonneg_of_toDouble {n m : ℤ} (hm : 0 ≤ m) (h : toDouble n = some m) : 0 ≤ n := by
  by_contra hn
  have hneg : n.sign = -1 := Int.sign_eq_neg_one_of_neg (by omega)
  have hpos : 0 < roundedMagnitude n.natAbs := roundedMagnitude_pos (by omega)
  unfold toDouble at h
  dsimp only at h
  rw [Option.ite_none_left_eq_some, Option.some.injEq, hneg] at h
  have hm' : -1 * (roundedMagnitude n.natAbs : ℤ) = m := h.2
  omega

theorem shortestDecimal_pos {m : ℕ} (h : 0 < m) : 0 < shortestDecimal m := by
  have hdecimal : ∀ {k d : ℕ}, d ∈ decimalsAt m k → 0 < d := by
    intro k d hd
    have hdouble : toDouble d = some (m : ℤ) := by simpa using (List.mem_filter.mp hd).2
    rcases Nat.eq_zero_or_pos d with rfl | hpos
    · have hzero : toDouble ((0 : ℕ) : ℤ) = some 0 := toDouble_zero
      rw [hzero, Option.some.injEq] at hdouble
      omega
    · exact hpos
  unfold shortestDecimal
  generalize hfound : List.findSome? _ _ = found
  cases found with
  | none => exact h
  | some d =>
    obtain ⟨k, _, hk⟩ := List.exists_of_findSome?_eq_some hfound
    rw [Option.getD_some]
    split at hk
    · cases hk
    · next d' hdecimals =>
      rw [← Option.some.inj hk]
      exact hdecimal (k := k) (hdecimals ▸ List.mem_singleton_self d')
    · next d₁ d₂ _ hdecimals =>
      have hfirst : d₁ ∈ decimalsAt m k := hdecimals ▸ List.mem_cons_self
      have hsecond : d₂ ∈ decimalsAt m k :=
        hdecimals ▸ List.mem_cons_of_mem _ List.mem_cons_self
      rw [← Option.some.inj hk]
      split
      · exact hdecimal hsecond
      · exact hdecimal hfirst

theorem nonneg_of_decimal {x : ℤ} (h : 0 ≤ x.sign * shortestDecimal x.natAbs) : 0 ≤ x := by
  by_contra hx
  have hneg : x.sign = -1 := Int.sign_eq_neg_one_of_neg (by omega)
  have hpos : 0 < shortestDecimal x.natAbs := shortestDecimal_pos (by omega)
  rw [hneg] at h
  omega

theorem slashableAmount_nonneg {current amount total : ℤ} (htotal : 0 ≤ total)
    (h : slashableAmount current amount = .ok total) : 0 ≤ current ∧ 0 ≤ amount := by
  unfold slashableAmount at h
  dsimp only at h
  split at h
  · cases h
  · next x hx =>
    rw [Except.ok.injEq] at h
    have hx' : 0 ≤ x := nonneg_of_decimal (h ▸ htotal)
    cases hcurrent : toDouble current with
    | some c =>
      cases hamount : toDouble amount with
      | some m =>
        rw [hcurrent, hamount] at hx
        obtain rfl := Option.some.inj hx
        obtain ⟨hc, hm⟩ := le_min_iff.mp hx'
        exact ⟨nonneg_of_toDouble hc hcurrent, nonneg_of_toDouble hm hamount⟩
      | none =>
        rw [hcurrent, hamount] at hx
        rw [Option.ite_none_right_eq_some, Option.some.injEq] at hx
        exact ⟨nonneg_of_toDouble (hx.2 ▸ hx') hcurrent, hx.1.le⟩
    | none =>
      cases hamount : toDouble amount with
      | some m =>
        rw [hcurrent, hamount] at hx
        rw [Option.ite_none_right_eq_some, Option.some.injEq] at hx
        exact ⟨hx.1.le, nonneg_of_toDouble (hx.2 ▸ hx') hamount⟩
      | none =>
        rw [hcurrent, hamount] at hx
        cases hx

theorem slashableAmount_comm (current amount : ℤ) :
    slashableAmount current amount = slashableAmount amount current := by
  unfold slashableAmount
  cases toDouble current with
  | some c =>
    cases toDouble amount with
    | some m =>
      dsimp only
      rw [min_comm]
    | none => rfl
  | none =>
    cases toDouble amount with
    | some m => rfl
    | none => rfl

theorem slashableAmount_eq {current amount total : ℤ} (htotal : 0 ≤ total)
    (h : slashableAmount current amount = .ok total) :
    throughDouble (min current amount) = some total := by
  obtain ⟨hcurrent, hamount⟩ := slashableAmount_nonneg htotal h
  rcases le_total amount current with hle | hle
  · rw [min_eq_right hle]
    exact slashableAmount_of_le hamount hle h
  · rw [min_eq_left hle]
    exact slashableAmount_of_le hcurrent hle (slashableAmount_comm current amount ▸ h)

/-! ## capacities -/

namespace World
variable (w : World)

/-- `resolver-at-capacity?`; without a capacity there is no limit -/
def resolverAtCapacity (resolver : Address) : Bool :=
  (w.resolvers.capacities resolver).any fun c =>
    0 < c.maxConcurrent && c.maxConcurrent ≤ c.currentActive

/-- the number of active disputes of a resolver with a capacity is changed -/
def changeCapacity (resolver : Option Address) (f : ℤ → ℤ) : World :=
  match resolver with
  | none => w
  | some resolver =>
    { w with
      resolvers :=
        { w.resolvers with
          capacities := Function.update w.resolvers.capacities resolver
            ((w.resolvers.capacities resolver).map fun c =>
              { c with currentActive := f c.currentActive }) } }

def incrementResolverCapacity (resolver : Option Address) : World :=
  w.changeCapacity resolver fun active => active + 1

def decrementResolverCapacity (resolver : Option Address) : World :=
  w.changeCapacity resolver fun active => max 0 (active - 1)

def resolverFrozen (resolver : Address) : Bool := w.blockTs < w.resolvers.frozenUntil resolver

/-- whether an amount is above `get-max-escrow-per-case` -/
def aboveMaxEscrowPerCase (resolver : Option Address) (amount : ℤ) : Bool :=
  if w.config.params.resolverBondBps = 0 then 2 ^ 63 - 1 < amount
  else !w.config.params.withinCase ((resolver.map w.stake).getD 0) amount

/-! ## slashes -/

/-- `:slashed-from-stake` and `:total-slashed` of a slash -/
structure Slashed where
  fromStake : ℤ
  total : ℤ

/-- the stake of a resolver is changed by an amount that is a big integer or not -/
def addStake (resolver : Address) (amount : ℤ) (big : Bool) : World :=
  { w with
    resolvers :=
      { w.resolvers with
        stakes := Function.update w.resolvers.stakes resolver (w.resolvers.stakes resolver + amount)
        bigStakes := Function.update w.resolvers.bigStakes resolver
          (w.resolvers.bigStakes resolver || big)
        registered := Function.update w.resolvers.registered resolver true } }

def addSlashTotal (resolver : Address) (amount : ℤ) : World :=
  { w with
    resolvers :=
      { w.resolvers with
        slashTotal := Function.update w.resolvers.slashTotal resolver
          (w.resolvers.slashTotal resolver + amount) } }

def slashCustodyPosition (token : Token) (resolver : Address) (workflowId : ℕ) : PositionId :=
  positionId token .resolverSlashCustodyDebited
    { workflowId := workflowId, resolver := some resolver }

/-- `slash-resolver-stake`.  The coverage reserved by a senior is consumed first; with
`skipSubHeld` nothing leaves the held ledger. -/
def slashResolverStake (hash : Distribution → String) (resolver : Address) (amount : ℤ)
    (challenger : Option Address) (bountyBps : ℤ) (workflowId : ℕ) (skipSubHeld : Bool) :
    Except Failure (World × Slashed) := do
  let actual ← slashableAmount (w.stake resolver) amount
  let token := ((w.getTransfer workflowId).map Transfer.token).getD "USDC"
  let senior := w.resolvers.senior resolver
  let coverage := (senior.map w.resolvers.reservedCoverage).getD 0
  if senior.isSome ∧ ¬ (-2 ^ 63 ≤ coverage ∧ coverage < 2 ^ 63) then .error .numberTooLarge
  else
    let fromCoverage := if senior.isSome then min actual coverage else 0
    let fromStake := actual - fromCoverage
    let covered : World :=
      match senior with
      | some senior =>
        if 0 < fromCoverage then
          { w with
            resolvers :=
              { w.resolvers with
                reservedCoverage := Function.update w.resolvers.reservedCoverage senior
                  (coverage - fromCoverage) } }
        else w
      | none => w
    let w₁ ← (covered.addStake resolver (-fromStake) true).distributeSlashedFunds hash actual
      challenger bountyBps (some workflowId)
    let w₂ := w₁.addSlashTotal resolver actual
    let subHeld : Bool := !skipSubHeld && 0 < actual
      && actual ≤ w.held.position (slashCustodyPosition token resolver workflowId)
    let w₃ ← (if subHeld then
      w₂.subHeld token actual .resolverSlashCustodyDebited
        { workflowId := workflowId, resolver := some resolver }
      else .ok w₂)
    .ok (w₃, { fromStake := fromStake, total := actual })

end World

end PRF.Sew
