import ProtocolRobustness.Library.Fallible
import ProtocolRobustness.Library.CheckedSum
import ProtocolRobustness.Library.Quota

/-!
# Exact pro-rata arithmetic

`exact_math.clj`: a rational amount divided over claims in proportion to their amounts, in whole
base units.  `none` is an exception: an integer outside 64 bits, a failed assertion.

* `floorAndCarryAlloc`, `floorAlloc`, `largestRemainderAlloc`, `principalProtectiveFloorAlloc`
                       the allocators;
* `Divides`            what the first and the third of them return on non-negative claims;
* `floorAndCarryAlloc_divides`, `largestRemainderAlloc_divides`, `floorAlloc_floors`
                       they do.
-/

namespace PRF.Yield
open LongArith

/-- the cast `(long n)` of an integer -/
def long? (n : ℤ) : Option ℤ := if Fits n then some n else none

/-- `(reduce + 0 us)` on 64-bit integers -/
def sumLongs (us : List ℤ) : Option ℤ := us.foldlM (fun s u => long? (s + u)) 0

def ratio (x : ℚ) : Option ℚ := if x.den = 1 then (long? x.num).map fun n => (n : ℚ) else some x

def quantizeBaseUnits (x : ℚ) : Option (ℤ × ℚ) := do
  let r ← ratio x
  let exactQuot ← long? (r.num.tdiv r.den)
  let units := max 0 exactQuot
  some (units, r - units)

structure Claim (κ : Type) where
  key : κ
  amount : ℚ
  basis : Option ℚ
deriving DecidableEq

structure Allotted (κ : Type) where
  claim : Claim κ
  filled : ℤ
  idealExact : ℚ
  remainderExact : ℚ

structure Allotment (κ : Type) where
  allocations : List (Allotted κ)
  totalAvailableUnits : ℤ
  totalAllocatedUnits : ℤ
  shortageUnits : ℤ
  carry : ℚ

section
variable {κ : Type}

/-- `(mapv (fn [claim u r ideal] …) claims units rems ideals)` -/
def allotted : List (Claim κ) → List ℤ → List ℚ → List ℚ → List (Allotted κ)
  | claim :: claims, u :: us, r :: rs, i :: is => ⟨claim, u, i, r⟩ :: allotted claims us rs is
  | _, _, _, _ => []

def unfilled (claims : List (Claim κ)) : List (Allotted κ) :=
  claims.map fun claim => ⟨claim, 0, 0, 0⟩

/-- `(sort-by #(- (nth rems %)) (range n))` -/
def indicesByRem (rems : List ℚ) : List ℕ :=
  (List.range rems.length).insertionSort fun i j => -rems.getD i 0 ≤ -rems.getD j 0

/-- `(update units i inc)` -/
def incAt (units : List ℤ) (i : ℕ) : Option (List ℤ) := do
  let u ← units[i]?
  let u' ← long? (u + 1)
  some (units.set i u')

/-- a unit for each of the first `n` indices of the ranking -/
def award (n : ℤ) (rems : List ℚ) (units : List ℤ) : Option (List ℤ) :=
  ((indicesByRem rems).take n.toNat).foldlM incAt units

def floorAndCarryAlloc (totalAvailable : ℚ) (claims : List (Claim κ)) : Option (Allotment κ) := do
  let available ← ratio totalAvailable
  let amounts ← claims.mapM fun claim => ratio claim.amount
  let totalAmount := amounts.sum
  let (availableUnits, _) ← quantizeBaseUnits available
  if totalAmount = 0 then
    some ⟨unfilled claims, availableUnits, 0, 0, 0⟩
  else
    let ideal := amounts.map fun amount => available * (amount / totalAmount)
    let quantized ← ideal.mapM quantizeBaseUnits
    let units := quantized.map Prod.fst
    let rems := quantized.map Prod.snd
    let sumUnits ← sumLongs units
    let shortage ← long? (availableUnits - sumUnits)
    let finalUnits ← cond (0 < shortage) (award shortage rems units) (some units)
    let allocated ← sumLongs finalUnits
    let carry ← ratio (available - availableUnits)
    some ⟨allotted claims finalUnits rems ideal, availableUnits, allocated, 0, carry⟩

def floorAlloc (totalAvailable : ℚ) (claims : List (Claim κ)) : Option (Allotment κ) := do
  let available ← ratio totalAvailable
  let amounts ← claims.mapM fun claim => ratio claim.amount
  let totalAmount := amounts.sum
  let (availableUnits, _) ← quantizeBaseUnits available
  if totalAmount = 0 then
    some ⟨unfilled claims, availableUnits, 0, availableUnits, 0⟩
  else
    let ideal := amounts.map fun amount => available * (amount / totalAmount)
    let quantized ← ideal.mapM quantizeBaseUnits
    let filled := quantized.map Prod.fst
    let rems := quantized.map Prod.snd
    let sumFilled ← sumLongs filled
    let shortage ← long? (availableUnits - sumFilled)
    some ⟨allotted claims filled rems ideal, availableUnits, sumFilled, max 0 shortage, 0⟩

/-- the precondition on one claim: its amount, truncated, is not negative -/
def amountAdmitted (claim : Claim κ) : Option Unit := do
  let n ← long? (claim.amount.num.tdiv claim.amount.den)
  guard (0 ≤ n)

/-- the share of a claim of the whole: of its own basis if it has one -/
def idealOf (total claimsTotal : ℚ) (claim : Claim κ) : Option ℚ := do
  let amount ← ratio claim.amount
  let basis ← ratio (claim.basis.getD claimsTotal)
  guard (basis ≠ 0)
  some (total * (amount / basis))

/-- the quota rule at one claim -/
def withinQuota (ideal : ℚ) (alloc : ℤ) : Option Unit := do
  let (flr, rem) ← quantizeBaseUnits ideal
  guard (flr ≤ alloc ∧ alloc ≤ if rem = 0 then flr else flr + 1)

def largestRemainderAlloc (totalAvailable : ℚ) (claims : List (Claim κ)) :
    Option (Allotment κ) := do
  let total ← ratio totalAvailable
  guard (0 ≤ total)
  let _ ← claims.mapM amountAdmitted
  let (totalUnits, totalRem) ← quantizeBaseUnits total
  let amounts ← claims.mapM fun claim => ratio claim.amount
  let claimsTotal := amounts.sum
  if claimsTotal = 0 then
    some ⟨unfilled claims, totalUnits, 0, 0, totalRem⟩
  else
    let ideal ← claims.mapM (idealOf total claimsTotal)
    let quantized ← ideal.mapM quantizeBaseUnits
    let units := quantized.map Prod.fst
    let rems := quantized.map Prod.snd
    let sumUnits ← sumLongs units
    let shortage ← long? (totalUnits - sumUnits)
    guard (0 ≤ shortage)
    guard (shortage < claims.length)
    let finalUnits ← award shortage rems units
    let totalAllocated ← sumLongs finalUnits
    guard (totalUnits = totalAllocated)
    let _ ← (ideal.zip finalUnits).mapM fun e => withinQuota e.1 e.2
    some ⟨allotted claims finalUnits rems ideal, totalUnits, totalAllocated, 0, 0⟩

def principalProtectiveFloorAlloc (totalAvailable : ℚ) (claims : List (Claim κ))
    (principalPred : Claim κ → Bool) : Option (Allotment κ) := do
  let total ← ratio totalAvailable
  let (totalUnits, _) ← quantizeBaseUnits total
  let principalClaims := claims.filter principalPred
  let yieldClaims := claims.filter fun claim => !principalPred claim
  let principalAmounts ← principalClaims.mapM fun claim => ratio claim.amount
  let (pReqFloored, _) ← quantizeBaseUnits principalAmounts.sum
  let principalAllocated := min totalUnits pReqFloored
  let left ← long? (totalUnits - principalAllocated)
  let availableForYield := max 0 left
  let principalAlloc ← cond principalClaims.isEmpty (some [])
    ((floorAndCarryAlloc principalAllocated principalClaims).map Allotment.allocations)
  let yieldAlloc ← cond (!yieldClaims.isEmpty && 0 < availableForYield)
    ((largestRemainderAlloc availableForYield yieldClaims).map Allotment.allocations)
    (some (unfilled yieldClaims))
  let principalFilled ← sumLongs (principalAlloc.map Allotted.filled)
  let yieldFilled ← sumLongs (yieldAlloc.map Allotted.filled)
  let allocated ← long? (principalFilled + yieldFilled)
  let shortage ← long? (totalUnits - allocated)
  some ⟨principalAlloc ++ yieldAlloc, totalUnits, allocated, shortage, 0⟩

end

/-! ## checked arithmetic in range -/

theorem long?_of {n : ℤ} (h : Fits n) : long? n = some n := if_pos h

theorem fits_of {n : ℤ} (h0 : 0 ≤ n) (h1 : n < 2 ^ 63) : Fits n := ⟨by omega, h1⟩

theorem long?_nonneg {n : ℤ} (h0 : 0 ≤ n) (h1 : n < 2 ^ 63) : long? n = some n :=
  long?_of (fits_of h0 h1)

theorem floor_of_den {x : ℚ} (h : x.den = 1) : ⌊x⌋ = x.num := by
  rw [Rat.floor_def', h]
  simp

theorem ratio_of {x : ℚ} (h0 : 0 ≤ x) (h1 : ⌊x⌋ < 2 ^ 63) : ratio x = some x := by
  unfold ratio
  split
  · next hd =>
    rw [floor_of_den hd] at h1
    rw [long?_nonneg (Rat.num_nonneg.mpr h0) h1]
    exact congrArg some (Rat.coe_int_num_of_den_eq_one hd)
  · rfl

theorem quantizeBaseUnits_of {x : ℚ} (h0 : 0 ≤ x) (h1 : ⌊x⌋ < 2 ^ 63) :
    quantizeBaseUnits x = some (⌊x⌋, Int.fract x) := by
  have hq : x.num.tdiv x.den = ⌊x⌋ := by
    rw [Rat.floor_def', Int.tdiv_eq_ediv_of_nonneg (Rat.num_nonneg.mpr h0)]
  have hf : 0 ≤ ⌊x⌋ := Int.floor_nonneg.mpr h0
  unfold quantizeBaseUnits
  rw [ratio_of h0 h1]
  show (long? (x.num.tdiv x.den) >>= _) = _
  rw [hq, long?_nonneg hf h1]
  show some (max 0 ⌊x⌋, x - ((max 0 ⌊x⌋ : ℤ) : ℚ)) = _
  rw [max_eq_right hf]
  rfl

theorem foldlM_sum_of {us : List ℤ} (s : ℤ) (hs : 0 ≤ s) (h0 : ∀ u ∈ us, 0 ≤ u)
    (h1 : s + us.sum < 2 ^ 63) :
    us.foldlM (fun s u => long? (s + u)) s = some (s + us.sum) := by
  induction us generalizing s with
  | nil => simp
  | cons u us ih =>
    have hu := h0 u List.mem_cons_self
    have hus : 0 ≤ us.sum := List.sum_nonneg fun v hv => h0 v (List.mem_cons_of_mem _ hv)
    rw [List.sum_cons] at h1 ⊢
    rw [List.foldlM_cons, long?_nonneg (by omega) (by omega)]
    show us.foldlM _ (s + u) = _
    rw [ih (s + u) (by omega) (fun v hv => h0 v (List.mem_cons_of_mem _ hv)) (by omega), add_assoc]

theorem sumLongs_of {us : List ℤ} (h0 : ∀ u ∈ us, 0 ≤ u) (h1 : us.sum < 2 ^ 63) :
    sumLongs us = some us.sum := by
  unfold sumLongs
  rw [foldlM_sum_of 0 le_rfl h0 (by omega), zero_add]

theorem incAt_of {units : List ℤ} {i : ℕ} (hi : i < units.length) (h : Fits (units[i] + 1)) :
    incAt units i = some (units.set i (units[i] + 1)) := by
  unfold incAt
  rw [List.getElem?_eq_getElem hi]
  show (long? (units[i] + 1) >>= _) = _
  rw [long?_of h]
  rfl

theorem foldlM_incAt {is : List ℕ} (hn : is.Nodup) {units : List ℤ}
    (hi : ∀ i ∈ is, ∃ h : i < units.length, Fits (units[i] + 1)) :
    is.foldlM incAt units
      = some (units.mapIdx fun i u => u + if i ∈ is then 1 else 0) := by
  induction is generalizing units with
  | nil =>
    rw [List.foldlM_nil]
    apply congrArg some
    apply List.ext_getElem
    · simp
    · intro i h1 h2
      simp
  | cons i is ih =>
    rw [List.nodup_cons] at hn
    obtain ⟨hlt, hfit⟩ := hi i List.mem_cons_self
    rw [List.foldlM_cons, incAt_of hlt hfit]
    show is.foldlM incAt (units.set i (units[i] + 1)) = _
    rw [ih hn.2]
    · apply congrArg some
      apply List.ext_getElem
      · simp
      · intro j h1 h2
        rw [List.getElem_mapIdx, List.getElem_mapIdx, List.getElem_set]
        by_cases hij : i = j
        · subst hij
          rw [if_pos rfl, if_neg hn.1, if_pos List.mem_cons_self, add_zero]
        · rw [if_neg hij]
          simp [Ne.symm hij]
    · intro j hj
      obtain ⟨hjlt, hjfit⟩ := hi j (List.mem_cons_of_mem _ hj)
      have hij : i ≠ j := fun h => hn.1 (h ▸ hj)
      refine ⟨by rw [List.length_set]; exact hjlt, ?_⟩
      rw [List.getElem_set_ne hij]
      exact hjfit

/-! ## the units of a list of exact shares -/

/-- the largest-remainder rounding of a list of exact shares -/
def roundedShares (total : ℚ) (ideal : List ℚ) : List ℤ :=
  (List.range ideal.length).map
    (Quota.share (fun i => ideal.getD i 0) total (List.range ideal.length))

theorem map_getD_range (l : List ℚ) : (List.range l.length).map (fun i => l.getD i 0) = l := by
  apply List.ext_getElem
  · simp
  · intro i h1 h2
    simp [h2]

theorem getD_fract (ideal : List ℚ) (i : ℕ) :
    (ideal.map Int.fract).getD i 0 = Int.fract (ideal.getD i 0) := by
  rw [List.getD_eq_getElem?_getD, List.getD_eq_getElem?_getD, List.getElem?_map]
  cases ideal[i]? with
  | none => simp
  | some x => rfl

theorem indicesByRem_fract (ideal : List ℚ) :
    indicesByRem (ideal.map Int.fract)
      = Quota.ranked (fun i => ideal.getD i 0) (List.range ideal.length) := by
  unfold indicesByRem Quota.ranked
  rw [List.length_map]
  simp only [getD_fract, neg_le_neg_iff]

section
variable {total : ℚ} {ideal : List ℚ}

theorem sum_roundedShares (hsum : ideal.sum = total) (hne : ideal ≠ []) :
    (roundedShares total ideal).sum = ⌊total⌋ := by
  apply Quota.sum_share List.nodup_range
  · rw [map_getD_range, hsum]
  · intro h
    apply hne
    rw [← map_getD_range ideal, h]
    rfl

theorem floors_eq (ideal : List ℚ) :
    (List.range ideal.length).map (fun i => ⌊ideal.getD i 0⌋) = ideal.map Int.floor := by
  conv_rhs => rw [← map_getD_range ideal, List.map_map]
  rfl

theorem leftover_eq (total : ℚ) (ideal : List ℚ) :
    Quota.leftover (fun i => ideal.getD i 0) total (List.range ideal.length)
      = ⌊total⌋ - (ideal.map Int.floor).sum := by
  unfold Quota.leftover
  rw [floors_eq]

theorem nonneg_of_floors (h0 : ∀ x ∈ ideal, 0 ≤ x) : ∀ u ∈ ideal.map Int.floor, 0 ≤ u := by
  intro u hu
  obtain ⟨x, hx, rfl⟩ := List.mem_map.mp hu
  exact Int.floor_nonneg.mpr (h0 x hx)

theorem le_total (hsum : ideal.sum = total) (h0 : ∀ x ∈ ideal, 0 ≤ x) {x : ℚ} (hx : x ∈ ideal) :
    x ≤ total :=
  hsum ▸ List.single_le_sum h0 x hx

theorem mapM_quantize (hsum : ideal.sum = total) (h0 : ∀ x ∈ ideal, 0 ≤ x)
    (htop : ⌊total⌋ < 2 ^ 63) :
    ideal.mapM quantizeBaseUnits = some (ideal.map fun x => (⌊x⌋, Int.fract x)) := by
  apply Fallible.mapM_some
  intro x hx
  exact quantizeBaseUnits_of (h0 x hx)
    (lt_of_le_of_lt (Int.floor_mono (le_total hsum h0 hx)) htop)

theorem award_eq (hsum : ideal.sum = total) (h0 : ∀ x ∈ ideal, 0 ≤ x)
    (htop : ⌊total⌋ < 2 ^ 63) :
    award (⌊total⌋ - (ideal.map Int.floor).sum) (ideal.map Int.fract) (ideal.map Int.floor)
      = some (roundedShares total ideal) := by
  have hq : ((List.range ideal.length).map fun i => ideal.getD i 0).sum = total := by
    rw [map_getD_range, hsum]
  unfold award
  rw [indicesByRem_fract, ← leftover_eq]
  have hp := Quota.ranked_perm (fun i => ideal.getD i 0) (List.range ideal.length)
  have hn := (hp.nodup_iff.mpr List.nodup_range).sublist (List.take_sublist
    (Quota.leftover (fun i => ideal.getD i 0) total (List.range ideal.length)).toNat _)
  rw [foldlM_incAt hn]
  · apply congrArg some
    apply List.ext_getElem
    · simp [roundedShares]
    · intro i h1 h2
      have hi : i < ideal.length := by simpa using h1
      simp [roundedShares, Quota.share, hi]
  · intro i hi
    have hlt : i < ideal.length := List.mem_range.mp (hp.mem_iff.mp (List.mem_of_mem_take hi))
    have hceil := Quota.share_le_ceil hq i
    have hmem : ideal[i] ∈ ideal := List.getElem_mem hlt
    have hf : 0 ≤ ⌊ideal[i]⌋ := Int.floor_nonneg.mpr (h0 _ hmem)
    -- a unit only goes to an inexact share, whose ceiling is within the total
    have hshare : ⌊ideal[i]⌋ + 1 ≤ ⌊total⌋ := by
      have hle : (1 : ℤ) ≤ Quota.leftover (fun i => ideal.getD i 0) total
          (List.range ideal.length) := by
        by_contra hneg
        rw [Int.toNat_of_nonpos (by omega), List.take_zero] at hi
        cases hi
      rw [leftover_eq] at hle
      have := List.single_le_sum (nonneg_of_floors h0) ⌊ideal[i]⌋ (List.mem_map_of_mem hmem)
      omega
    refine ⟨by rw [List.length_map]; exact hlt, ?_⟩
    rw [List.getElem_map]
    exact fits_of (by omega) (by omega)

theorem roundedShares_nonneg (h0 : ∀ x ∈ ideal, 0 ≤ x) : ∀ u ∈ roundedShares total ideal, 0 ≤ u := by
  intro u hu
  obtain ⟨i, hi, rfl⟩ := List.mem_map.mp hu
  refine le_trans (Int.floor_nonneg.mpr ?_) (Quota.floor_le_share i)
  have hi' : i < ideal.length := List.mem_range.mp hi
  simpa [hi'] using h0 _ (List.getElem_mem hi')

end

/-! ## what the allocators return -/

section
variable {κ : Type} {total : ℚ} {claims : List (Claim κ)}

def claimsTotal (claims : List (Claim κ)) : ℚ := (claims.map Claim.amount).sum

/-- the exact shares of the claims in a total -/
def ideals (total : ℚ) (claims : List (Claim κ)) : List ℚ :=
  claims.map fun claim => total * (claim.amount / claimsTotal claims)

/-- amounts that are not negative and fit a long, truncated -/
def Admitted (claims : List (Claim κ)) : Prop :=
  ∀ claim ∈ claims, 0 ≤ claim.amount ∧ ⌊claim.amount⌋ < 2 ^ 63

/-- the claims in their order, each with its rounded share -/
structure Divides (total : ℚ) (claims : List (Claim κ)) (a : Allotment κ) : Prop where
  claims_eq : a.allocations.map Allotted.claim = claims
  filled_eq : a.allocations.map Allotted.filled = roundedShares total (ideals total claims)

theorem Admitted.total_nonneg (h : Admitted claims) : 0 ≤ claimsTotal claims := by
  apply List.sum_nonneg
  intro x hx
  obtain ⟨claim, hc, rfl⟩ := List.mem_map.mp hx
  exact (h claim hc).1

theorem Admitted.amount_le (h : Admitted claims) {claim : Claim κ} (hc : claim ∈ claims) :
    claim.amount ≤ claimsTotal claims := by
  apply List.single_le_sum
  · intro x hx
    obtain ⟨c, hc, rfl⟩ := List.mem_map.mp hx
    exact (h c hc).1
  · exact List.mem_map_of_mem hc

theorem mapM_ratio (h : Admitted claims) :
    claims.mapM (fun claim => ratio claim.amount) = some (claims.map Claim.amount) :=
  Fallible.mapM_some fun claim hc => ratio_of (h claim hc).1 (h claim hc).2

theorem sum_ideals (hs : claimsTotal claims ≠ 0) : (ideals total claims).sum = total := by
  have h : ideals total claims
      = (claims.map Claim.amount).map fun x => total / claimsTotal claims * x := by
    unfold ideals
    rw [List.map_map]
    apply List.map_congr_left
    intro claim _
    show _ = total / claimsTotal claims * claim.amount
    ring
  rw [h, List.sum_map_mul_left, List.map_id']
  exact div_mul_cancel₀ total hs

theorem ideals_nonneg (h0 : 0 ≤ total) (h : Admitted claims) : ∀ x ∈ ideals total claims, 0 ≤ x := by
  intro x hx
  obtain ⟨claim, hc, rfl⟩ := List.mem_map.mp hx
  exact mul_nonneg h0 (div_nonneg (h claim hc).1 h.total_nonneg)

theorem length_ideals (total : ℚ) (claims : List (Claim κ)) :
    (ideals total claims).length = claims.length := by
  unfold ideals
  rw [List.length_map]

theorem ideals_ne_nil (hs : claimsTotal claims ≠ 0) : ideals total claims ≠ [] := by
  intro h
  apply hs
  have hc : claims = [] := by simpa [ideals] using h
  rw [hc]
  rfl

theorem length_roundedShares (total : ℚ) (ideal : List ℚ) :
    (roundedShares total ideal).length = ideal.length := by
  unfold roundedShares
  rw [List.length_map, List.length_range]

theorem allotted_claims (claims : List (Claim κ)) (us : List ℤ) (rs is : List ℚ) (hu : us.length = claims.length)
    (hr : rs.length = claims.length) (hi : is.length = claims.length) :
    (allotted claims us rs is).map Allotted.claim = claims ∧
      (allotted claims us rs is).map Allotted.filled = us := by
  induction claims generalizing us rs is with
  | nil =>
    rw [List.length_eq_zero_iff.mp hu]
    exact ⟨rfl, rfl⟩
  | cons claim claims ih =>
    obtain ⟨u, us, rfl⟩ := List.exists_cons_of_length_eq_add_one hu
    obtain ⟨r, rs, rfl⟩ := List.exists_cons_of_length_eq_add_one hr
    obtain ⟨i, is, rfl⟩ := List.exists_cons_of_length_eq_add_one hi
    have h := ih us rs is (Nat.succ.inj hu) (Nat.succ.inj hr) (Nat.succ.inj hi)
    exact ⟨congrArg (claim :: ·) h.1, congrArg (u :: ·) h.2⟩

theorem rounding_steps (h0 : 0 ≤ total) (htop : ⌊total⌋ < 2 ^ 63) (h : Admitted claims)
    (hs : claimsTotal claims ≠ 0) :
    (ideals total claims).mapM quantizeBaseUnits
        = some ((ideals total claims).map fun x => (⌊x⌋, Int.fract x)) ∧
      sumLongs ((ideals total claims).map Int.floor)
        = some ((ideals total claims).map Int.floor).sum ∧
      long? (⌊total⌋ - ((ideals total claims).map Int.floor).sum)
        = some (⌊total⌋ - ((ideals total claims).map Int.floor).sum) ∧
      award (⌊total⌋ - ((ideals total claims).map Int.floor).sum)
          ((ideals total claims).map Int.fract) ((ideals total claims).map Int.floor)
        = some (roundedShares total (ideals total claims)) ∧
      sumLongs (roundedShares total (ideals total claims)) = some ⌊total⌋ := by
  have hsum : (ideals total claims).sum = total := sum_ideals hs
  have hpos := ideals_nonneg h0 h
  have hleft := Quota.leftover_nonneg (q := fun i => (ideals total claims).getD i 0)
    (l := List.range (ideals total claims).length) (by rw [map_getD_range, hsum])
  rw [leftover_eq] at hleft
  have hfl : 0 ≤ ((ideals total claims).map Int.floor).sum :=
    List.sum_nonneg (nonneg_of_floors hpos)
  refine ⟨mapM_quantize hsum hpos htop, ?_, ?_, award_eq hsum hpos htop, ?_⟩
  · exact sumLongs_of (nonneg_of_floors hpos) (by omega)
  · exact long?_nonneg hleft (by omega)
  · rw [sumLongs_of (roundedShares_nonneg hpos), sum_roundedShares hsum (ideals_ne_nil hs)]
    rw [sum_roundedShares hsum (ideals_ne_nil hs)]
    exact htop

theorem map_fst_quantized (l : List ℚ) :
    (l.map fun x => ((⌊x⌋, Int.fract x) : ℤ × ℚ)).map Prod.fst = l.map Int.floor := by
  rw [List.map_map]
  rfl

theorem map_snd_quantized (l : List ℚ) :
    (l.map fun x => ((⌊x⌋, Int.fract x) : ℤ × ℚ)).map Prod.snd = l.map Int.fract := by
  rw [List.map_map]
  rfl

theorem floorAndCarryAlloc_divides (h0 : 0 ≤ total) (htop : ⌊total⌋ < 2 ^ 63)
    (h : Admitted claims) (hs : claimsTotal claims ≠ 0) :
    ∃ a, floorAndCarryAlloc total claims = some a ∧ Divides total claims a := by
  obtain ⟨hq, hsu, hsh, haw, hal⟩ := rounding_steps h0 htop h hs
  have hleft := Quota.leftover_nonneg (q := fun i => (ideals total claims).getD i 0)
    (l := List.range (ideals total claims).length) (by rw [map_getD_range, sum_ideals hs])
  rw [leftover_eq] at hleft
  -- without leftover units the floors are the rounded shares
  have hfinal : cond (0 < ⌊total⌋ - ((ideals total claims).map Int.floor).sum)
      (award (⌊total⌋ - ((ideals total claims).map Int.floor).sum)
        ((ideals total claims).map Int.fract) ((ideals total claims).map Int.floor))
      (some ((ideals total claims).map Int.floor))
      = some (roundedShares total (ideals total claims)) := by
    by_cases hz : 0 < ⌊total⌋ - ((ideals total claims).map Int.floor).sum
    · rw [decide_eq_true hz]
      exact haw
    · rw [decide_eq_false hz]
      rw [show ⌊total⌋ - ((ideals total claims).map Int.floor).sum = 0 by omega] at haw
      exact haw
  have hcarry : ratio (total - (⌊total⌋ : ℤ)) = some (Int.fract total) := by
    apply ratio_of (Int.fract_nonneg total)
    rw [Int.floor_fract]
    norm_num
  have hi : ((claims.map Claim.amount).map fun amount =>
      total * (amount / (claims.map Claim.amount).sum)) = ideals total claims := by
    rw [List.map_map]
    rfl
  refine ⟨⟨allotted claims (roundedShares total (ideals total claims))
    ((ideals total claims).map Int.fract) (ideals total claims), ⌊total⌋, ⌊total⌋, 0,
    Int.fract total⟩, ?_, ?_⟩
  · unfold floorAndCarryAlloc
    simp only [ratio_of h0 htop, mapM_ratio h, quantizeBaseUnits_of h0 htop, Option.bind_eq_bind,
      Option.bind_some, if_neg (show ¬ (claims.map Claim.amount).sum = 0 from hs), hi, hq,
      map_fst_quantized, map_snd_quantized, hsu, hsh, hfinal, hal, hcarry]
  · obtain ⟨hc, hf⟩ := allotted_claims claims
      (roundedShares total (ideals total claims)) ((ideals total claims).map Int.fract)
      (ideals total claims) (by rw [length_roundedShares, length_ideals])
      (by rw [List.length_map, length_ideals]) (length_ideals total claims)
    exact ⟨hc, hf⟩

theorem amountAdmitted_of {claim : Claim κ} (h : 0 ≤ claim.amount ∧ ⌊claim.amount⌋ < 2 ^ 63) :
    amountAdmitted claim = some () := by
  have hf : 0 ≤ ⌊claim.amount⌋ := Int.floor_nonneg.mpr h.1
  have hq : claim.amount.num.tdiv claim.amount.den = ⌊claim.amount⌋ := by
    rw [Rat.floor_def', Int.tdiv_eq_ediv_of_nonneg (Rat.num_nonneg.mpr h.1)]
  unfold amountAdmitted
  rw [hq, long?_nonneg hf h.2]
  show guard (0 ≤ ⌊claim.amount⌋) = _
  rw [guard, if_pos hf]
  rfl

theorem idealOf_of {claim : Claim κ} (h : 0 ≤ claim.amount ∧ ⌊claim.amount⌋ < 2 ^ 63)
    (hb : claim.basis = none) {s : ℚ} (h0 : 0 ≤ s) (hs : s ≠ 0) (h1 : ⌊s⌋ < 2 ^ 63) :
    idealOf total s claim = some (total * (claim.amount / s)) := by
  unfold idealOf
  rw [ratio_of h.1 h.2, hb]
  show (ratio s >>= _) = _
  rw [ratio_of h0 h1]
  show ((guard (s ≠ 0) : Option Unit) >>= _) = _
  rw [guard, if_pos hs]
  rfl

theorem withinQuota_of (hsum : (ideals total claims).sum = total)
    (hpos : ∀ x ∈ ideals total claims, 0 ≤ x) (htop : ⌊total⌋ < 2 ^ 63) :
    ∀ e ∈ (ideals total claims).zip (roundedShares total (ideals total claims)),
      withinQuota e.1 e.2 = some () := by
  intro e he
  conv at he =>
    lhs
    lhs
    rw [← map_getD_range (ideals total claims)]
  unfold roundedShares at he
  rw [List.zip_map', List.mem_map] at he
  obtain ⟨i, hi, rfl⟩ := he
  have hlt : i < (ideals total claims).length := List.mem_range.mp hi
  have hmem : (ideals total claims).getD i 0 ∈ ideals total claims := by
    rw [List.getD_eq_getElem?_getD, List.getElem?_eq_getElem hlt]
    exact List.getElem_mem hlt
  have hq : ((List.range (ideals total claims).length).map
      fun i => (ideals total claims).getD i 0).sum = total := by
    rw [map_getD_range, hsum]
  have hfl : ⌊(ideals total claims).getD i 0⌋
      ≤ Quota.share (fun i => (ideals total claims).getD i 0) total
        (List.range (ideals total claims).length) i := Quota.floor_le_share i
  have hce := Quota.share_le_ceil hq i
  show withinQuota ((ideals total claims).getD i 0) _ = _
  unfold withinQuota
  rw [quantizeBaseUnits_of (hpos _ hmem)
    (lt_of_le_of_lt (Int.floor_mono (le_total hsum hpos hmem)) htop)]
  show guard _ = _
  rw [guard, if_pos]
  · rfl
  · refine ⟨hfl, ?_⟩
    by_cases hr : Int.fract ((ideals total claims).getD i 0) = 0
    · rw [if_pos hr]
      -- an exact share is its own ceiling
      have hx := Int.floor_add_fract ((ideals total claims).getD i 0)
      rw [hr, add_zero] at hx
      rw [← hx, Int.ceil_intCast] at hce
      simpa only [hx] using hce
    · rw [if_neg hr]
      exact hce.trans (Int.ceil_le_floor_add_one _)

theorem largestRemainderAlloc_divides (h0 : 0 ≤ total) (htop : ⌊total⌋ < 2 ^ 63)
    (h : Admitted claims) (hb : ∀ claim ∈ claims, claim.basis = none)
    (hs : claimsTotal claims ≠ 0) (hS : ⌊claimsTotal claims⌋ < 2 ^ 63) :
    ∃ a, largestRemainderAlloc total claims = some a ∧ Divides total claims a := by
  obtain ⟨hq, hsu, hsh, haw, hal⟩ := rounding_steps h0 htop h hs
  have hsum : (ideals total claims).sum = total := sum_ideals hs
  have hl : ((List.range (ideals total claims).length).map
      fun i => (ideals total claims).getD i 0).sum = total := by
    rw [map_getD_range, hsum]
  have hleft := Quota.leftover_nonneg hl
  have hlt := Quota.leftover_lt_length hl (by
    intro hnil
    apply (ideals_ne_nil hs : ideals total claims ≠ [])
    rw [← map_getD_range (ideals total claims), hnil]
    rfl)
  rw [leftover_eq] at hleft hlt
  rw [List.length_range, length_ideals] at hlt
  have had : claims.mapM amountAdmitted = some (claims.map fun _ => ()) :=
    Fallible.mapM_some fun claim hc => amountAdmitted_of (h claim hc)
  have hid : claims.mapM (idealOf total (claimsTotal claims)) = some (ideals total claims) :=
    Fallible.mapM_some fun claim hc =>
      idealOf_of (h claim hc) (hb claim hc) h.total_nonneg hs hS
  have hquota := Fallible.mapM_some (g := fun _ => ())
    (withinQuota_of hsum (ideals_nonneg h0 h) htop)
  refine ⟨⟨allotted claims (roundedShares total (ideals total claims))
    ((ideals total claims).map Int.fract) (ideals total claims), ⌊total⌋, ⌊total⌋, 0, 0⟩, ?_, ?_⟩
  · unfold largestRemainderAlloc
    simp only [ratio_of h0 htop, mapM_ratio h, quantizeBaseUnits_of h0 htop, Option.bind_eq_bind,
      Option.bind_some, guard, if_pos h0, Option.pure_def, had,
      if_neg (show ¬ (claims.map Claim.amount).sum = 0 from hs), show
      claims.mapM (idealOf total (claims.map Claim.amount).sum) = some (ideals total claims)
      from hid, hq, map_fst_quantized, map_snd_quantized, hsu, hsh, if_pos hleft, if_pos hlt, haw,
      hal, if_true, hquota]
  · obtain ⟨hc, hf⟩ := allotted_claims claims
      (roundedShares total (ideals total claims)) ((ideals total claims).map Int.fract)
      (ideals total claims) (by rw [length_roundedShares, length_ideals])
      (by rw [List.length_map, length_ideals]) (length_ideals total claims)
    exact ⟨hc, hf⟩

theorem floorAlloc_floors (h0 : 0 ≤ total) (htop : ⌊total⌋ < 2 ^ 63)
    (h : Admitted claims) (hs : claimsTotal claims ≠ 0) :
    ∃ a, floorAlloc total claims = some a ∧ a.allocations.map Allotted.claim = claims ∧
      a.allocations.map Allotted.filled = (ideals total claims).map Int.floor := by
  obtain ⟨hq, hsu, hsh, -, -⟩ := rounding_steps h0 htop h hs
  have hi : ((claims.map Claim.amount).map fun amount =>
      total * (amount / (claims.map Claim.amount).sum)) = ideals total claims := by
    rw [List.map_map]
    rfl
  refine ⟨⟨allotted claims ((ideals total claims).map Int.floor)
    ((ideals total claims).map Int.fract) (ideals total claims), ⌊total⌋,
    ((ideals total claims).map Int.floor).sum,
    max 0 (⌊total⌋ - ((ideals total claims).map Int.floor).sum), 0⟩, ?_, ?_⟩
  · unfold floorAlloc
    simp only [ratio_of h0 htop, mapM_ratio h, quantizeBaseUnits_of h0 htop, Option.bind_eq_bind,
      Option.bind_some, if_neg (show ¬ (claims.map Claim.amount).sum = 0 from hs), hi, hq,
      map_fst_quantized, map_snd_quantized, hsu, hsh]
  · exact allotted_claims claims ((ideals total claims).map Int.floor)
      ((ideals total claims).map Int.fract) (ideals total claims)
      (by rw [List.length_map, length_ideals]) (by rw [List.length_map, length_ideals])
      (length_ideals total claims)

end

end PRF.Yield
