import ProtocolRobustness.Allocation.Context

/-!
# The proposal of an allocation round

`allocation/proposal.clj`: everything about rates and outcomes that is recomputed from a context.

* `scaledNumerators`    the rates over their common denominator;
* `expectedNumerators`  what each claimant may expect, over the common denominator;
* the six checks of a proposal;
* `rateDerivedSummary`  the summary that is hashed.
-/

namespace PRF.Allocation

def commonDenominator (rates : List ProposedRate) : ℕ :=
  rates.foldl (fun acc r => acc / acc.gcd r.rate.denominator * r.rate.denominator) 1

/-- the numerators over the common denominator -/
def scaledNumerators (rates : List ProposedRate) : List ℕ :=
  rates.map fun r => r.rate.numerator * (commonDenominator rates / r.rate.denominator)

def ratesSumToOne (rates : List ProposedRate) : Bool :=
  (scaledNumerators rates).sum = commonDenominator rates

def ratioNormalised (r : Rate) : Bool := r.numerator.gcd r.denominator = 1

def ratesCanonicalExact (c : Context) : Bool := c.proposedRates.all fun r => ratioNormalised r.rate

def firstAllocated (o : Outcome) (claimId : String) : ℕ :=
  match o.allocations.find? fun e => e.claimId = claimId with
  | some e => e.allocated
  | none => 0

def expectedNumerators (c : Context) : List ℕ :=
  c.claimants.map fun claimant =>
    ((c.outcomes.zip (scaledNumerators c.proposedRates)).map fun e =>
      e.2 * firstAllocated e.1 claimant.claimId).sum

def outcomesEligibleOnly (c : Context) : Bool :=
  c.outcomes.all fun o => o.allocations.all fun e => e.claimId ∈ c.claimants.map Claimant.claimId

def outcomesNoDuplicateClaims (c : Context) : Bool :=
  c.outcomes.all fun o => decide (o.allocations.map Entry.claimId).Nodup

def outcomesAllOrNothing (c : Context) : Bool :=
  let amountByClaim := Table.into [] (c.claimants.map fun claimant =>
    (claimant.claimId, claimant.amount))
  c.outcomes.all fun o => o.allocations.all fun e =>
    e.allocated = 0 || some e.allocated = Table.find amountByClaim e.claimId

def outcomesExactCapacity (c : Context) : Bool :=
  c.outcomes.all fun o => c.capacity = (o.allocations.map Entry.allocated).sum

/-- the cross products of every claimant -/
def proportionalProposed (c : Context) : Bool :=
  ((expectedNumerators c).zip (c.claimants.map Claimant.weight)).all fun e =>
    e.1 * c.totalEligibleWeight = c.capacity * e.2 * commonDenominator c.proposedRates

/-- `(build-rate-derived-summary context)` -/
def rateDerivedSummary (c : Context) : Value :=
  let denominator := commonDenominator c.proposedRates
  let scaled := scaledNumerators c.proposedRates
  .map [(key "common-rate-denominator", .int denominator),
    (key "scaled-rate-numerators", .vec ((c.outcomes.zip scaled).map fun e =>
      .map [(nsKey "outcome" "id", .str e.1.outcomeId), (key "numerator", .int e.2)])),
    (key "expected-allocations", .vec ((c.claimants.zip (expectedNumerators c)).map fun e =>
      .map [(nsKey "claim" "id", .str e.1.claimId),
        (key "expected-allocation-numerator", .int e.2),
        (key "expected-allocation-denominator", .int denominator),
        (key "exact-pro-rata-numerator", .int (c.capacity * e.1.weight)),
        (key "exact-pro-rata-denominator", .int c.totalEligibleWeight)])),
    (key "rates-sum", .int scaled.sum),
    (key "rates-sum-to-one?", .bool (decide (denominator = scaled.sum)))]

end PRF.Allocation
