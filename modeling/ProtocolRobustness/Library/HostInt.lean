import Mathlib.Tactic

/-!
# Integers of a host with checked 64-bit arithmetic

An integer is held in 64 bits or as a big integer.  An operation on two 64-bit integers fails when
its result does not fit; with a big integer on either side the result is big.

* `HostInt`            an integer and how it is held;
* `add?`, `mul?`       the operations, `AddOverflows` and `MulOverflows` where they fail;
* `addPromote`, `mulPromote`   the operations that go over to a big integer where they have to;
* `hold_of`, `hold_eq_none`   when they succeed, and with which value;
* `total`, `Totals`    the sum of a list, and whether it can be computed;
* `load`               what a number may add to a 64-bit sum, which is nothing if it is big;
* `Within`             a number below another, with `Within.quot_mono` for its share in a quotient;
* `sum?_of_load`       a sum can be computed when the loads add up to something that fits.
-/

namespace LongArith

def Fits (n : ℤ) : Prop := -2 ^ 63 ≤ n ∧ n < 2 ^ 63

instance (n : ℤ) : Decidable (Fits n) := inferInstanceAs (Decidable (_ ∧ _))

structure HostInt where
  value : ℤ
  big : Bool
  fits : big = false → Fits value
deriving DecidableEq

namespace HostInt

/-- the smallest way to hold an integer -/
def ofInt (n : ℤ) : HostInt := ⟨n, !decide (Fits n), by simp⟩

/-- a big integer -/
def bigint (n : ℤ) : HostInt := ⟨n, true, nofun⟩

/-- the result of an operation, held as its operands are -/
def hold (big : Bool) (n : ℤ) : Option HostInt :=
  if h : big = false → Fits n then some ⟨n, big, h⟩ else none

def add? (a b : HostInt) : Option HostInt := hold (a.big || b.big) (a.value + b.value)
def sub? (a b : HostInt) : Option HostInt := hold (a.big || b.big) (a.value - b.value)
def neg? (a : HostInt) : Option HostInt := hold a.big (-a.value)
def mul? (a b : HostInt) : Option HostInt := hold (a.big || b.big) (a.value * b.value)

/-- the result of an operation that never fails: a big integer where the operands are, or where it
does not fit -/
def promote (big : Bool) (n : ℤ) : HostInt := ⟨n, big || !decide (Fits n), by simp⟩

def addPromote (a b : HostInt) : HostInt := promote (a.big || b.big) (a.value + b.value)
def subPromote (a b : HostInt) : HostInt := promote (a.big || b.big) (a.value - b.value)
def mulPromote (a b : HostInt) : HostInt := promote (a.big || b.big) (a.value * b.value)

/-- the quotient, rounded toward zero.  On 64 bits it does not fail: the one that does not fit wraps. -/
def quot (a b : HostInt) : HostInt :=
  if a.big || b.big then bigint (a.value.tdiv b.value)
  else ofInt ((a.value.tdiv b.value).bmod (2 ^ 64))

/-- both are held in 64 bits, and their sum is not -/
def AddOverflows (a b : HostInt) : Prop :=
  a.big = false ∧ b.big = false ∧ ¬ Fits (a.value + b.value)

/-- both are held in 64 bits, and their difference is not -/
def SubOverflows (a b : HostInt) : Prop :=
  a.big = false ∧ b.big = false ∧ ¬ Fits (a.value - b.value)

/-- both are held in 64 bits, and their product is not -/
def MulOverflows (a b : HostInt) : Prop :=
  a.big = false ∧ b.big = false ∧ ¬ Fits (a.value * b.value)

instance (a b : HostInt) : Decidable (AddOverflows a b) := inferInstanceAs (Decidable (_ ∧ _ ∧ _))
instance (a b : HostInt) : Decidable (SubOverflows a b) := inferInstanceAs (Decidable (_ ∧ _ ∧ _))
instance (a b : HostInt) : Decidable (MulOverflows a b) := inferInstanceAs (Decidable (_ ∧ _ ∧ _))

theorem hold_isNone {big : Bool} {n : ℤ} : hold big n = none ↔ big = false ∧ ¬ Fits n := by
  unfold hold
  by_cases h : big = false → Fits n
  · rw [dif_pos h]
    exact iff_of_false nofun fun hno => hno.2 (h hno.1)
  · rw [dif_neg h]
    exact iff_of_true rfl (Classical.not_imp.mp h)

theorem add?_eq_none {a b : HostInt} : a.add? b = none ↔ AddOverflows a b := by
  unfold add? AddOverflows
  rw [hold_isNone, Bool.or_eq_false_iff, and_assoc]

/-- a product that does not overflow is held as it is with promotion -/
theorem mul?_of_not_overflows {a b : HostInt} (h : ¬ MulOverflows a b) :
    a.mul? b = some (a.mulPromote b) := by
  have hfits : (a.big || b.big) = false → Fits (a.value * b.value) := fun hl => by
    obtain ⟨ha, hb⟩ := Bool.or_eq_false_iff.mp hl
    exact not_not.mp fun hn => h ⟨ha, hb, hn⟩
  refine (dif_pos hfits).trans (congrArg some ?_)
  unfold mulPromote promote
  congr 1
  cases hl : a.big || b.big with
  | true => rfl
  | false => simp [hfits hl]

theorem hold_value {big : Bool} {n : ℤ} {c : HostInt} (h : hold big n = some c) : c.value = n := by
  unfold hold at h
  split at h
  · rw [← Option.some.inj h]
  · cases h

theorem hold_big {big : Bool} {n : ℤ} {c : HostInt} (h : hold big n = some c) : c.big = big := by
  unfold hold at h
  split at h
  · rw [← Option.some.inj h]
  · cases h

theorem add?_value {a b c : HostInt} (h : a.add? b = some c) : c.value = a.value + b.value :=
  hold_value h
theorem mul?_value {a b c : HostInt} (h : a.mul? b = some c) : c.value = a.value * b.value :=
  hold_value h

@[simp] theorem addPromote_value (a b : HostInt) : (a.addPromote b).value = a.value + b.value := rfl
@[simp] theorem subPromote_value (a b : HostInt) : (a.subPromote b).value = a.value - b.value := rfl
@[simp] theorem mulPromote_value (a b : HostInt) : (a.mulPromote b).value = a.value * b.value := rfl
@[simp] theorem ofInt_value (n : ℤ) : (ofInt n).value = n := rfl
theorem addPromote_big (a b : HostInt) :
    (a.addPromote b).big = false ↔ a.big = false ∧ b.big = false ∧ Fits (a.value + b.value) := by
  simp [addPromote, promote, and_assoc]

theorem subPromote_big (a b : HostInt) :
    (a.subPromote b).big = false ↔ a.big = false ∧ b.big = false ∧ Fits (a.value - b.value) := by
  simp [subPromote, promote, and_assoc]

theorem hold_of {big : Bool} {n : ℤ} (h : big = false → Fits n) :
    ∃ a, hold big n = some a ∧ a.value = n ∧ a.big = big :=
  ⟨⟨n, big, h⟩, dif_pos h, rfl, rfl⟩

theorem hold_eq_none {big : Bool} {n : ℤ} (h : ¬ (big = false → Fits n)) : hold big n = none :=
  dif_neg h

/-- zero and a number is that number -/
theorem zero_add? (a : HostInt) : (ofInt 0).add? a = some a := by
  have h : a.big = false → Fits (0 + a.value) := by
    rw [zero_add]
    exact a.fits
  have h0 : (ofInt 0).big = false := by decide
  unfold add? hold
  rw [h0, Bool.false_or]
  refine (dif_pos h).trans (congrArg some ?_)
  cases a
  congr 1
  exact zero_add _

/-! ### quotients -/

theorem fits_of_abs {n : ℤ} (h : |n| < 2 ^ 63) : Fits n := by
  obtain ⟨h1, h2⟩ := abs_lt.mp h
  exact ⟨h1.le, h2⟩

/-- an integer that fits does not wrap -/
theorem bmod_of_fits {n : ℤ} (h : Fits n) : n.bmod (2 ^ 64) = n := by
  refine Int.bmod_eq_of_le ?_ ?_
  · norm_num
    exact h.1
  · norm_num
    exact h.2

/-- a quotient by a positive number fits where the dividend does -/
theorem fits_tdiv {n m : ℤ} (h : Fits n) (hm : 0 < m) : Fits (n.tdiv m) := by
  rcases le_total 0 n with hn | hn
  · have hle : n.tdiv m ≤ n := Int.tdiv_le_self _ hn
    exact ⟨le_trans (by norm_num) (Int.tdiv_nonneg hn hm.le), hle.trans_lt h.2⟩
  · have hneg : n.tdiv m = -((-n).tdiv m) := by rw [Int.neg_tdiv, neg_neg]
    have hle : (-n).tdiv m ≤ -n := Int.tdiv_le_self _ (by omega)
    have hnonneg : 0 ≤ (-n).tdiv m := Int.tdiv_nonneg (by omega) hm.le
    have hlow := h.1
    exact ⟨by omega, by omega⟩

theorem abs_tdiv_le {n m s : ℤ} (hs : 0 < s) (h : |n| ≤ |m|) : |n.tdiv s| ≤ |m.tdiv s| := by
  have habs : ∀ k : ℤ, |k.tdiv s| = |k| / s := fun k => by
    have hcast : ((s.natAbs : ℕ) : ℤ) = s := Int.natAbs_of_nonneg hs.le
    rw [Int.abs_eq_natAbs, Int.natAbs_tdiv, Int.abs_eq_natAbs]
    exact (Int.natCast_ediv _ _).trans (by rw [hcast])
  rw [habs, habs]
  exact Int.ediv_le_ediv hs h

theorem quot_value {a b : HostInt} (hb : 0 < b.value) : (a.quot b).value = a.value.tdiv b.value := by
  unfold quot
  by_cases h : (a.big || b.big) = true
  · rw [if_pos h]
    rfl
  · rw [if_neg h, ofInt_value]
    simp only [Bool.or_eq_true, not_or, Bool.not_eq_true] at h
    exact bmod_of_fits (fits_tdiv (a.fits h.1) hb)

/-! ### sums -/

/-- `(reduce + 0 xs)`, going over to a big integer where it has to -/
def total (xs : List HostInt) : HostInt := xs.foldl addPromote (ofInt 0)

def sum? (xs : List HostInt) : Option HostInt := xs.foldlM add? (ofInt 0)

/-- the sum is computed without an overflow -/
def Totals (xs : List HostInt) : Prop := (sum? xs).isSome

instance (xs : List HostInt) : Decidable (Totals xs) := inferInstanceAs (Decidable (_ = _))

theorem foldl_value (xs : List HostInt) (a : HostInt) :
    (xs.foldl addPromote a).value = a.value + (xs.map value).sum := by
  induction xs generalizing a with
  | nil => simp
  | cons x xs ih => rw [List.foldl_cons, ih, addPromote_value, List.map_cons, List.sum_cons, add_assoc]

@[simp] theorem total_value (xs : List HostInt) : (total xs).value = (xs.map value).sum := by
  rw [total, foldl_value, ofInt_value, zero_add]

/-! ### loads -/

/-- what a number may add to a 64-bit sum -/
def load (a : HostInt) : ℤ := if a.big then 0 else |a.value|

theorem load_nonneg (a : HostInt) : 0 ≤ a.load := by
  unfold load
  split
  · exact le_rfl
  · exact abs_nonneg _

theorem load_big {a : HostInt} (h : a.big = true) : a.load = 0 := if_pos h
theorem load_long {a : HostInt} (h : a.big = false) : a.load = |a.value| := if_neg (by simp [h])

theorem load_le {a : HostInt} {n : ℤ} (hn : 0 ≤ n) (h : a.big = false → |a.value| ≤ n) :
    a.load ≤ n := by
  cases hb : a.big with
  | true => rwa [load_big hb]
  | false => rw [load_long hb]; exact h hb

/-- An operation succeeds when its result is small where both operands are held in 64 bits. -/
theorem hold_of_load {big : Bool} {n bound : ℤ} (h0 : 0 ≤ bound) (h : big = false → |n| ≤ bound)
    (hb : bound < 2 ^ 63) :
    ∃ c, hold big n = some c ∧ c.value = n ∧ c.big = big ∧ c.load ≤ bound := by
  have hfits : big = false → Fits n := fun hl => fits_of_abs ((h hl).trans_lt hb)
  obtain ⟨c, hc, hv, hbig⟩ := hold_of hfits
  exact ⟨c, hc, hv, hbig, load_le h0 fun hl => hv ▸ h (hbig ▸ hl)⟩

/-- what two loads bound -/
theorem abs_le_load {a b : HostInt} {n : ℤ} (hn : |n| ≤ |a.value| + |b.value|)
    (h : (a.big || b.big) = false) : |n| ≤ a.load + b.load := by
  obtain ⟨ha, hb⟩ := Bool.or_eq_false_iff.mp h
  rwa [load_long ha, load_long hb]

theorem add?_of_load {a b : HostInt} (h : a.load + b.load < 2 ^ 63) :
    ∃ c, a.add? b = some c ∧ c.value = a.value + b.value ∧ c.big = (a.big || b.big)
      ∧ c.load ≤ a.load + b.load :=
  hold_of_load (add_nonneg a.load_nonneg b.load_nonneg) (abs_le_load (abs_add_le _ _)) h

theorem sub?_of_load {a b : HostInt} (h : a.load + b.load < 2 ^ 63) :
    ∃ c, a.sub? b = some c ∧ c.value = a.value - b.value ∧ c.big = (a.big || b.big)
      ∧ c.load ≤ a.load + b.load :=
  hold_of_load (add_nonneg a.load_nonneg b.load_nonneg) (abs_le_load (abs_sub _ _)) h

theorem not_addOverflows_of_load {a b : HostInt} (h : a.load + b.load < 2 ^ 63) :
    ¬ AddOverflows a b := by
  obtain ⟨c, hc, -⟩ := add?_of_load h
  rw [← add?_eq_none, hc]
  exact nofun

theorem load_addPromote (a b : HostInt) : (a.addPromote b).load ≤ a.load + b.load :=
  load_le (add_nonneg a.load_nonneg b.load_nonneg) fun h =>
    abs_le_load (abs_add_le _ _) (Bool.or_eq_false_iff.mp h).1

theorem load_subPromote (a b : HostInt) : (a.subPromote b).load ≤ a.load + b.load :=
  load_le (add_nonneg a.load_nonneg b.load_nonneg) fun h =>
    abs_le_load (abs_sub _ _) (Bool.or_eq_false_iff.mp h).1

/-! ### numbers below others -/

/-- between zero and another number, and held in 64 bits only where that one is -/
structure Within (a b : HostInt) : Prop where
  nonneg : 0 ≤ a.value
  le : a.value ≤ b.value
  long : a.big = false → b.big = false

theorem Within.load_mono {a b : HostInt} (h : Within a b) : a.load ≤ b.load := by
  refine load_le b.load_nonneg fun hb => ?_
  rw [load_long (h.long hb), abs_of_nonneg h.nonneg]
  exact h.le.trans (le_abs_self _)

/-- a product with it lies between zero and that with the other -/
theorem Within.fits_mul {a b w : HostInt} (h : Within a b) (hf : Fits (b.value * w.value)) :
    Fits (a.value * w.value) := by
  rcases le_total 0 w.value with hw | hw
  · have hle : a.value * w.value ≤ b.value * w.value := mul_le_mul_of_nonneg_right h.le hw
    exact ⟨le_trans (by norm_num) (mul_nonneg h.nonneg hw), hle.trans_lt hf.2⟩
  · have hle : b.value * w.value ≤ a.value * w.value := mul_le_mul_of_nonpos_right h.le hw
    exact ⟨hf.1.trans hle, (mul_nonpos_of_nonneg_of_nonpos h.nonneg hw).trans_lt (by norm_num)⟩

theorem Within.not_mulOverflows {a b w : HostInt} (h : Within a b) (hb : ¬ MulOverflows b w) :
    ¬ MulOverflows a w := by
  rintro ⟨ha, hw, hfits⟩
  exact hfits (h.fits_mul (not_not.mp fun hn => hb ⟨h.long ha, hw, hn⟩))

/-- the share of a number in its quotient by a positive one -/
theorem Within.quot_mono {a b w s : HostInt} (h : Within a b) (hs : 0 < s.value)
    (hb : ¬ MulOverflows b w) : ((a.mulPromote w).quot s).load ≤ ((b.mulPromote w).quot s).load := by
  refine load_le (load_nonneg _) fun hlong => ?_
  obtain ⟨hprod, hslong⟩ : (a.mulPromote w).big = false ∧ s.big = false := by
    unfold quot at hlong
    by_cases hbig : ((a.mulPromote w).big || s.big) = true
    · rw [if_pos hbig] at hlong
      cases hlong
    · exact Bool.or_eq_false_iff.mp (Bool.not_eq_true _ ▸ hbig)
  obtain ⟨⟨ha, hw⟩, -⟩ : (a.big = false ∧ w.big = false) ∧ Fits (a.value * w.value) := by
    simpa [mulPromote, promote] using hprod
  have hfits : Fits (b.value * w.value) := not_not.mp fun hn => hb ⟨h.long ha, hw, hn⟩
  have hblong : (b.mulPromote w).big = false := by simp [mulPromote, promote, h.long ha, hw, hfits]
  have hload : ((b.mulPromote w).quot s).load = |(b.value * w.value).tdiv s.value| := by
    have hq : ((b.mulPromote w).quot s).value = _ := quot_value hs
    rw [load_long ?_, hq, mulPromote_value]
    unfold quot
    rw [hblong, hslong]
    have hwrap : ((b.value * w.value).tdiv s.value).bmod (2 ^ 64) = (b.value * w.value).tdiv s.value :=
      bmod_of_fits (fits_tdiv hfits hs)
    show (ofInt (((b.value * w.value).tdiv s.value).bmod (2 ^ 64))).big = false
    rw [hwrap]
    simp [ofInt, fits_tdiv hfits hs]
  have hq : ((a.mulPromote w).quot s).value = _ := quot_value hs
  rw [hload, hq, mulPromote_value]
  exact abs_tdiv_le hs (by
    rw [abs_mul, abs_mul, abs_of_nonneg h.nonneg]
    exact mul_le_mul_of_nonneg_right (h.le.trans (le_abs_self _)) (abs_nonneg _))

theorem foldlM_of_load {xs : List HostInt} {a : HostInt}
    (h : a.load + (xs.map load).sum < 2 ^ 63) :
    ∃ c, xs.foldlM add? a = some c ∧ c.load ≤ a.load + (xs.map load).sum := by
  induction xs generalizing a with
  | nil => exact ⟨a, rfl, by simp⟩
  | cons x xs ih =>
    rw [List.map_cons, List.sum_cons] at h ⊢
    have hsum : 0 ≤ (xs.map load).sum := List.sum_nonneg fun y hy => by
      obtain ⟨z, -, rfl⟩ := List.mem_map.mp hy
      exact z.load_nonneg
    obtain ⟨b, hb, -, -, hload⟩ := add?_of_load (a := a) (b := x) (by omega)
    obtain ⟨c, hc, hle⟩ := ih (a := b) (by omega)
    rw [List.foldlM_cons, hb]
    exact ⟨c, hc, by omega⟩

/-- **A sum is computed when the loads add up to something that fits.** -/
theorem sum?_of_load {xs : List HostInt} (h : (xs.map load).sum < 2 ^ 63) :
    ∃ c, sum? xs = some c ∧ c.load ≤ (xs.map load).sum := by
  have hzero : (ofInt 0).load = 0 := by decide
  obtain ⟨c, hc, hle⟩ : ∃ c, xs.foldlM add? (ofInt 0) = some c ∧ _ := foldlM_of_load (by omega)
  exact ⟨c, hc, by omega⟩

end HostInt

end LongArith
