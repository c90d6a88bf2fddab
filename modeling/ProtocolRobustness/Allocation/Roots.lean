import ProtocolRobustness.Allocation.Proposal

/-!
# Roots and selection

`allocation/roots.clj` and `allocation/selection.clj`.

* `Leaf`               one claimant's line of a result;
* `merkleRoot`         the tree over leaf digests: an odd level repeats its last node;
* `selectIndex`        rejection sampling of an outcome, for at most so many candidates.

`domainHash` is the SHA-256 digest of the canonical bytes under the tag of a domain; in the source it
is carried as hex and read back. `hashBytes` is SHA-256 itself.
-/

namespace PRF.Allocation
open Bytes

/-- lower-case hex without a prefix -/
def bareHex (bytes : ByteString) : String :=
  String.ofList (bytes.flatMap fun b =>
    [Nat.digitChar (b.toNat / 16), Nat.digitChar (b.toNat % 16)])

/-! ## the Merkle tree -/

/-- two neighbours become one node -/
def pairUp (node : ByteString → ByteString → ByteString) : List ByteString → List ByteString
  | l :: r :: level => node l r :: pairUp node level
  | [l] => [node l l]
  | [] => []

theorem length_pairUp (node : ByteString → ByteString → ByteString) (level : List ByteString) :
    (pairUp node level).length = (level.length + 1) / 2 := by
  fun_induction pairUp node level with
  | case1 l r level ih => simp [ih]; omega
  | case2 l => simp
  | case3 => rfl

section
variable (hashBytes : ByteString → ByteString)

def merkleNode (left right : ByteString) : ByteString :=
  hashBytes (utf8 "EVIDENCE_MERKLE_NODE_V1" ++ left ++ right)

/-- the source throws on an empty tree -/
def merkleRoot : List ByteString → Option ByteString
  | [] => none
  | [root] => some root
  | l :: r :: level => merkleRoot (pairUp (merkleNode hashBytes) (l :: r :: level))
termination_by level => level.length
decreasing_by
  rw [length_pairUp]
  simp only [List.length_cons]
  omega

end

/-! ## leaves -/

structure Leaf where
  claimId : String
  beneficiary : String
  inputAmount : ℕ
  inputWeight : ℕ
  finalAllocation : ℕ
  selectedOutcomeId : String
  resultStatus : String
  contextHash : String
deriving DecidableEq

def Leaf.value (l : Leaf) : Value :=
  .map [(nsKey "claim" "id", .str l.claimId), (key "beneficiary", .str l.beneficiary),
    (key "input-amount", .int l.inputAmount), (key "input-weight", .int l.inputWeight),
    (key "final-allocation", .int l.finalAllocation),
    (key "selected-outcome-id", .str l.selectedOutcomeId),
    (key "result-status", .str l.resultStatus), (key "context-hash", .str l.contextHash)]

section
variable (domainHash : String → Value → ByteString) (hashBytes : ByteString → ByteString)

def contextHash (c : Context) : String := bareHex (domainHash "allocation-context" c.preimage)

def claimantSetRoot (c : Context) : String :=
  bareHex (domainHash "claimant-set" (.vec (c.claimants.map Claimant.value)))

def outcomeSetRoot (c : Context) : String :=
  bareHex (domainHash "outcome-set" (.vec (c.outcomes.map Outcome.value)))

def proposedRatesRoot (c : Context) : String :=
  bareHex (domainHash "proposed-rates" (.vec (c.proposedRates.map fun r =>
    .map [(nsKey "outcome" "id", .str r.outcomeId), (key "numerator", .int r.rate.numerator),
      (key "denominator", .int r.rate.denominator)])))

def rateDerivedSummaryHash (c : Context) : String :=
  bareHex (domainHash "rate-derived-summary"
    (.map [(key "schema-version", .str "rate-derived-summary.v1"),
      (key "summary", rateDerivedSummary c)]))

def selectedOutcomeHash (o : Outcome) : String := bareHex (domainHash "selected-outcome" o.value)

def resultLeafDigest (l : Leaf) : ByteString := domainHash "result-root" l.value

def resultMerkleRoot (leaves : List Leaf) : Option String :=
  (merkleRoot hashBytes (leaves.map (resultLeafDigest domainHash))).map bareHex

/-! ## selection -/

def candidateDigest (randomness : List ℕ) (counter outcomeCount : ℕ) : ByteString :=
  domainHash "selected-outcome"
    (.map [(key "authoritative-randomness", .vec (randomness.map fun b => .int b)),
      (key "counter", .int counter), (key "outcome-count", .int outcomeCount)])

def digestNumber (digest : ByteString) : ℕ := digest.foldl (fun n b => 256 * n + b.toNat) 0

def rejectionLimit (n : ℕ) : ℕ := 2 ^ 256 - 2 ^ 256 % n

structure Selection where
  acceptedCounter : ℕ
  candidateDigest : ByteString
  selectedIndex : ℕ

/-- candidates from a counter on; none of the first `fuel` may be below the limit -/
def selectFrom (randomness : List ℕ) (outcomeCount : ℕ) : ℕ → ℕ → Option Selection
  | 0, _ => none
  | fuel + 1, counter =>
    let digest := candidateDigest domainHash randomness counter outcomeCount
    if digestNumber digest < rejectionLimit outcomeCount then
      some ⟨counter, digest, digestNumber digest % outcomeCount⟩
    else selectFrom randomness outcomeCount fuel (counter + 1)

/-- the outcome count is positive: a context has outcomes -/
def selectIndex (fuel : ℕ) (randomness : List ℕ) (outcomeCount : ℕ) : Option Selection :=
  selectFrom domainHash randomness outcomeCount fuel 0

end

end PRF.Allocation
