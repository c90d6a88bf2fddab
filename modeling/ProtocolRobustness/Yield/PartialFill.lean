import ProtocolRobustness.Canonical.Encoding
import ProtocolRobustness.Library.Table
import ProtocolRobustness.Yield.ExactMath

/-!
# Partial-fill decisions

`partial_fill.clj` without explicit rows: what a withdrawal requests of a position, how the
available liquidity is divided over the requested buckets, and the second engine that reconstructs
a decision from its inputs.  Maps keep the order in which their entries were added.  The key that
orders buckets before ties are broken is a parameter (`canonical-id-key`).

* `calculateFulfillment`     the decision, by mode;
* `semanticReconstruction`   the verifier: the entries in which a decision differs from the
                             reconstruction.
-/

namespace PRF.Yield
open LongArith Bytes

/-! ## positions, policies, decisions -/

inductive Bucket
  | principal | realizedYield | deferredYield | unrealizedYield
  | other (name : String)
deriving DecidableEq

def Bucket.canonicalKey (bucket : Bucket) : ByteString :=
  let name := match bucket with
    | .principal => "principal"
    | .realizedYield => "realized-yield"
    | .deferredYield => "deferred-yield"
    | .unrealizedYield => "unrealized-yield"
    | .other name => name
  0x22 :: (varuint (utf8 name).length ++ utf8 name)

inductive Mode
  | proRata | principalFirst | waterfall
deriving DecidableEq

/-- the rounding policies in whole units; `:floor-and-carry` and unknown ones are treated alike -/
inductive Rounding
  | floor | largestRemainder | principalProtectiveFloor | floorAndCarry
  | other (name : String)
deriving DecidableEq

inductive UnrealizedYieldTreatment
  | notClaimable | claimable
  | other (name : String)
deriving DecidableEq

structure Position where
  principal : ℤ
  principalImpairment : ℤ
  realizedYield : ℤ
  unrealizedYield : ℤ
  deferredYield : ℤ

/-- a policy map: the keys it has -/
structure PolicyOptions where
  mode : Option Mode
  fillOrder : Option (List Bucket)
  unrealizedYieldTreatment : Option UnrealizedYieldTreatment
  roundingPolicy : Option Rounding

structure Policy where
  mode : Mode
  fillOrder : List Bucket
  unrealizedYieldTreatment : UnrealizedYieldTreatment
  roundingPolicy : Rounding
deriving DecidableEq

def defaultPartialFillPolicy : Policy where
  mode := .waterfall
  fillOrder := [.principal, .realizedYield, .deferredYield]
  unrealizedYieldTreatment := .notClaimable
  roundingPolicy := .floorAndCarry

/-- `(merge default-partial-fill-policy policy)` -/
def PolicyOptions.merged (o : PolicyOptions) : Policy where
  mode := o.mode.getD defaultPartialFillPolicy.mode
  fillOrder := o.fillOrder.getD defaultPartialFillPolicy.fillOrder
  unrealizedYieldTreatment :=
    o.unrealizedYieldTreatment.getD defaultPartialFillPolicy.unrealizedYieldTreatment
  roundingPolicy := o.roundingPolicy.getD defaultPartialFillPolicy.roundingPolicy

/-- amounts by bucket -/
abbrev Amounts := List (Bucket × ℤ)

namespace Amounts

/-- `(get m k 0)` -/
def amountOf (m : Amounts) (k : Bucket) : ℤ := (Table.find m k).getD 0

def total (m : Amounts) : ℤ := (m.map Prod.snd).sum

/-- `(= m m')` on maps -/
def same (m m' : Amounts) : Bool :=
  (m.map Prod.fst ++ m'.map Prod.fst).all fun k => Table.find m k = Table.find m' k

/-- `(into {} (remove (fn [[_ v]] (zero? v)) m))` -/
def nonzero (m : Amounts) : Amounts := m.filter fun e => e.2 ≠ 0

end Amounts
open Amounts

inductive SettlementMode
  | fullFill | partialFill
deriving DecidableEq

structure AllocationDetail where
  totalAvailableUnits : ℤ
  totalAllocatedUnits : ℤ
  shortageUnits : ℤ
  carry : ℚ

structure Evidence where
  availableLiquidity : ℤ
  totalRequested : ℤ
  shortage : ℤ
  fillMode : Mode
  roundingPolicy : Option Rounding
  fillOrder : Option (List Bucket)
  allocationDetail : Option AllocationDetail

structure Decision where
  settlementMode : SettlementMode
  requested : Amounts
  filled : Amounts
  deferred : Amounts
  haircut : Amounts
  unrealized : Amounts
  policy : Policy
  evidence : Evidence

/-! ## what is requested -/

def claimablePrincipal (pos : Position) : Option ℤ := do
  let principal ← long? pos.principal
  let impairment ← long? pos.principalImpairment
  let n ← long? (principal - impairment)
  some (max 0 n)

def claimableRealizedYield (pos : Position) : Option ℤ := long? pos.realizedYield

def claimableUnrealizedYield (pos : Position) : Option ℤ := do
  let n ← long? pos.unrealizedYield
  some (max 0 n)

def requestedOf (pos : Position) (policy : Policy) : Option Amounts := do
  let principal ← claimablePrincipal pos
  let realized ← claimableRealizedYield pos
  let deferred ← long? pos.deferredYield
  let unrealized ← cond (policy.unrealizedYieldTreatment = .claimable)
    ((claimableUnrealizedYield pos).map fun n => [(Bucket.unrealizedYield, n)]) (some [])
  some (nonzero ([(.principal, principal), (.realizedYield, realized), (.deferredYield, deferred)]
    ++ unrealized))

def sumRequested (requested : Amounts) : Option ℤ := sumLongs (requested.map Prod.snd)

/-! ## the producer -/

def makeEvidence (policy : Policy) (availableLiquidity totalRequested shortage : ℤ)
    (fillMode : Mode) : Evidence where
  availableLiquidity
  totalRequested
  shortage
  fillMode
  roundingPolicy := some policy.roundingPolicy
  fillOrder := some policy.fillOrder
  allocationDetail := none

def fullFill (requested : Amounts) (policy : Policy) (evidence : Evidence) : Decision where
  settlementMode := .fullFill
  requested
  filled := requested
  deferred := []
  haircut := []
  unrealized := []
  policy
  evidence

def partialFill (requested filled deferred : Amounts) (policy : Policy) (evidence : Evidence) :
    Decision where
  settlementMode := .partialFill
  requested
  filled
  deferred
  haircut := []
  unrealized := []
  policy
  evidence

def claimsOf (m : Amounts) : List (Claim Bucket) := m.map fun e => ⟨e.1, e.2, none⟩

/-- `(case rounding-policy …)` -/
def allocate (rounding : Rounding) (amount : ℤ) (claims : List (Claim Bucket)) :
    Option (Allotment Bucket) :=
  match rounding with
  | .floor => floorAlloc amount claims
  | .largestRemainder => largestRemainderAlloc amount claims
  | .principalProtectiveFloor =>
    principalProtectiveFloorAlloc amount claims fun claim => claim.key = .principal
  | .floorAndCarry | .other _ => floorAndCarryAlloc amount claims

/-- `(into {} (map (fn [a] [(:key a) (:filled a)]) allocations))` -/
def filledOf (a : Allotment Bucket) : Amounts :=
  Table.into [] (a.allocations.map fun x => (x.claim.key, x.filled))

/-- `(into {} (map (fn [[k v]] [k (max 0 (- v (get filled k 0)))]) requested))` -/
def deferredOf (requested filled : Amounts) : Option Amounts := do
  let es ← requested.mapM fun e => (long? (e.2 - amountOf filled e.1)).map fun n => (e.1, max 0 n)
  some (Table.into [] es)

section
variable (tieKey : Bucket → ByteString)

/-- `(sort-by (comp rounding-tie-key first) (seq m))` -/
def byTieKey (m : Amounts) : Amounts := m.insertionSort (byKey fun e => tieKey e.1)

def calculateFulfillmentProRata (availableLiquidity : ℤ) (requested : Amounts) (policy : Policy) :
    Option Decision := do
  let total ← sumRequested requested
  let short ← long? (total - availableLiquidity)
  let shortage := max 0 short
  if shortage = 0 then
    some (fullFill requested policy (makeEvidence policy availableLiquidity total 0 .proRata))
  else
    let alloc ← allocate policy.roundingPolicy availableLiquidity
      (claimsOf (byTieKey tieKey requested))
    let filled := filledOf alloc
    let deferred ← deferredOf requested filled
    some (partialFill requested filled deferred policy
      { makeEvidence policy availableLiquidity total shortage .proRata with
        allocationDetail := some ⟨alloc.totalAvailableUnits, alloc.totalAllocatedUnits,
          alloc.shortageUnits, alloc.carry⟩ })

/-- `(dissoc requested :principal)` -/
def yieldsOf (requested : Amounts) : Amounts := requested.filter fun e => e.1 ≠ .principal

def calculateFulfillmentPrincipalFirst (availableLiquidity : ℤ) (requested : Amounts)
    (policy : Policy) : Option Decision := do
  let principalRequested := amountOf requested .principal
  let principalFilled := min principalRequested availableLiquidity
  let remaining ← long? (availableLiquidity - principalFilled)
  let yieldRequested := yieldsOf requested
  let yieldTotal ← sumRequested yieldRequested
  let total ← long? (principalRequested + yieldTotal)
  let short ← long? (total - availableLiquidity)
  let shortage := max 0 short
  if shortage = 0 then
    some (fullFill requested policy
      (makeEvidence policy availableLiquidity total 0 .principalFirst))
  else
    let principalShort ← long? (principalRequested - principalFilled)
    let principalDeferred := max 0 principalShort
    -- the claims are not sorted by the tie key here
    let yieldFilled ← cond (0 < remaining)
      ((allocate policy.roundingPolicy remaining (claimsOf yieldRequested)).map filledOf) (some [])
    let filled := Table.into [(.principal, principalFilled)] yieldFilled
    let yieldDeferred ← deferredOf yieldRequested filled
    let deferred :=
      Table.into (cond (0 < principalDeferred) [(.principal, principalDeferred)] []) yieldDeferred
    some (partialFill requested filled deferred policy
      (makeEvidence policy availableLiquidity total shortage .principalFirst))

/-- the loop over the buckets: what is filled and what is deferred -/
def waterfallLoop (requested : Amounts) :
    ℤ → Amounts → Amounts → List Bucket → Option (Amounts × Amounts)
  | _, filled, deferred, [] => some (filled, deferred)
  | remaining, filled, deferred, bucket :: buckets =>
    if remaining = 0 then some (filled, deferred)
    else do
      let bucketAmount := amountOf requested bucket
      let filledAmount := min bucketAmount remaining
      let newRemaining ← long? (remaining - filledAmount)
      let short ← long? (bucketAmount - filledAmount)
      let deferredAmount := max 0 short
      waterfallLoop requested newRemaining
        (if 0 < filledAmount then Table.put filled bucket filledAmount else filled)
        (if 0 < deferredAmount then Table.put deferred bucket deferredAmount else deferred)
        buckets

def calculateFulfillmentWaterfall (availableLiquidity : ℤ) (requested : Amounts)
    (policy : Policy) : Option Decision := do
  let total ← sumRequested requested
  let short ← long? (total - availableLiquidity)
  let shortage := max 0 short
  if shortage = 0 then
    some (fullFill requested policy (makeEvidence policy availableLiquidity total 0 .waterfall))
  else
    let (filled, deferred) ← waterfallLoop requested availableLiquidity [] [] policy.fillOrder
    let allDeferred := Table.into deferred (requested.filter fun e => e.1 ∉ filled.map Prod.fst)
    some (partialFill requested filled allDeferred policy
      (makeEvidence policy availableLiquidity total shortage .waterfall))

def calculateFulfillment (availableLiquidity : ℤ) (position : Position)
    (options : PolicyOptions) : Option Decision := do
  let policy := options.merged
  let liquidity ← long? availableLiquidity
  let available := max 0 liquidity
  let requested ← requestedOf position policy
  if requested.isEmpty then
    some (fullFill [] policy ⟨available, 0, 0, policy.mode, none, none, none⟩)
  else
    match policy.mode with
    | .proRata => calculateFulfillmentProRata tieKey available requested policy
    | .principalFirst => calculateFulfillmentPrincipalFirst available requested policy
    | .waterfall => calculateFulfillmentWaterfall available requested policy

/-! ## the verifier -/

/-- the loop over the buckets, once more -/
def reconstructLoop (requested : Amounts) : ℤ → List Bucket → Amounts → Option Amounts
  | _, [], result => some result
  | remaining, bucket :: buckets, result =>
    if remaining = 0 then some result
    else do
      let amount := min (amountOf requested bucket) remaining
      let left ← long? (remaining - amount)
      reconstructLoop requested left buckets
        (if 0 < amount then Table.put result bucket amount else result)

def reconstructPrincipalFirst (available : ℤ) (requested : Amounts) (policy : Policy) :
    Option Amounts := do
  let principalFilled := min (amountOf requested .principal) available
  let remaining ← long? (available - principalFilled)
  let yieldClaims := claimsOf (byTieKey tieKey (yieldsOf requested))
  let yieldFilled ← cond (0 < remaining && !yieldClaims.isEmpty)
    ((allocate policy.roundingPolicy remaining yieldClaims).map filledOf) (some [])
  some (if 0 < principalFilled then Table.put yieldFilled .principal principalFilled
    else yieldFilled)

def reconstructFilled (available : ℤ) (requested : Amounts) (policy : Policy) :
    Option Amounts := do
  let requestedTotal ← sumRequested requested
  if requestedTotal ≤ available then some requested
  else
    match policy.mode with
    | .proRata =>
      (allocate policy.roundingPolicy available (claimsOf (byTieKey tieKey requested))).map filledOf
    | .principalFirst => reconstructPrincipalFirst tieKey available requested policy
    | .waterfall => reconstructLoop requested available policy.fillOrder []

structure Expected where
  settlementMode : SettlementMode
  requested : Amounts
  filled : Amounts
  deferred : Amounts
  haircut : Amounts
  unrealized : Amounts

inductive FieldValue
  | settlementMode (mode : SettlementMode)
  | amounts (m : Amounts)
  | policy (policy : Policy)
  | number (n : ℤ)

inductive Field
  | settlementMode | requested | filled | deferred | haircut | unrealized
  | policy | availableLiquidity
deriving DecidableEq

structure Mismatch where
  field : Field
  expected : FieldValue
  actual : FieldValue

structure Reconstruction where
  expected : Expected
  mismatches : List Mismatch

def mismatch (field : Field) (agrees : Bool) (expected actual : FieldValue) : List Mismatch :=
  if agrees then [] else [⟨field, expected, actual⟩]

def mismatchesOf (available : ℤ) (policy : Policy) (expected : Expected) (d : Decision) :
    List Mismatch :=
  mismatch .settlementMode (expected.settlementMode = d.settlementMode)
      (.settlementMode expected.settlementMode) (.settlementMode d.settlementMode) ++
    mismatch .requested (expected.requested.same d.requested)
      (.amounts expected.requested) (.amounts d.requested) ++
    mismatch .filled (expected.filled.nonzero.same d.filled.nonzero)
      (.amounts expected.filled) (.amounts d.filled) ++
    mismatch .deferred (expected.deferred.nonzero.same d.deferred.nonzero)
      (.amounts expected.deferred) (.amounts d.deferred) ++
    mismatch .haircut (expected.haircut.nonzero.same d.haircut.nonzero)
      (.amounts expected.haircut) (.amounts d.haircut) ++
    mismatch .unrealized (expected.unrealized.nonzero.same d.unrealized.nonzero)
      (.amounts expected.unrealized) (.amounts d.unrealized) ++
    mismatch .policy (policy = d.policy) (.policy policy) (.policy d.policy) ++
    mismatch .availableLiquidity (available = d.evidence.availableLiquidity)
      (.number available) (.number d.evidence.availableLiquidity)

def semanticReconstruction (available : ℤ) (requested : Amounts) (policy : Policy)
    (decision : Decision) : Option Reconstruction := do
  let filled ← reconstructFilled tieKey available requested policy
  let deferred ← deferredOf requested filled
  let settlementMode :=
    if deferred.any fun e => 0 < e.2 then SettlementMode.partialFill else .fullFill
  let expected := ⟨settlementMode, requested, filled, deferred, [], []⟩
  some ⟨expected, mismatchesOf available policy expected decision⟩

end

end PRF.Yield
