import ProtocolRobustness.Allocation.Roots
import ProtocolRobustness.Canonical.Iteration
import ProtocolRobustness.Library.MerkleTree

/-!
# What the result root binds

The tree over result leaves has no tag on its leaves and repeats the last node of an odd level, so it
is not a binding of arbitrary lists.  Under two injective hashes with disjoint images it binds every
list of leaves in which no leaf is repeated, which is what a result is: one leaf a claimant.

* `Digest`              what trees over leaf digests are made of;
* `HashesBind`          the two hashes are injective there, and no leaf digest is a node;
* `resultMerkleRoot_binds`   equal roots, equal lists of leaves.
-/

namespace PRF.Allocation
open Bytes Code

/-! ## hex -/

theorem digitChar_injective {m n : ℕ} (hm : m < 16) (hn : n < 16)
    (h : Nat.digitChar m = Nat.digitChar n) : m = n := by
  interval_cases m <;> interval_cases n <;> revert h <;> decide

theorem hexDigits_delimits (b : UInt8) : Delimits (fun _ => True)
    (fun b : UInt8 => [Nat.digitChar (b.toNat / 16), Nat.digitChar (b.toNat % 16)]) b := by
  intro c _ s t h
  simp only [List.cons_append, List.nil_append, List.cons.injEq] at h
  obtain ⟨hhigh, hlow, hrest⟩ := h
  have hb := b.toNat_lt
  have hc := c.toNat_lt
  have h1 := digitChar_injective (by omega) (by omega) hhigh
  have h2 := digitChar_injective (by omega) (by omega) hlow
  exact ⟨UInt8.toNat_inj.mp (by omega), hrest⟩

theorem bareHex_injective : Function.Injective bareHex := by
  intro a b h
  apply Delimits.flatMap_injective hexDigits_delimits (fun b => by simp)
  exact String.ofList_injective h

/-! ## leaves -/

theorem Leaf.wellFormed (l : Leaf) : PRF.WellFormed l.value := by
  apply PRF.WellFormed.map
  · show [nsKey "claim" "id", key "beneficiary", key "input-amount", key "input-weight",
      key "final-allocation", key "selected-outcome-id", key "result-status",
      key "context-hash"].Nodup
    decide +kernel
  · simp [PRF.WellFormed.str, PRF.WellFormed.int]

theorem Leaf.eq_of_same {l m : Leaf} (h : Same l.value m.value) : l = m := by
  have hvalues := Same.values h rfl
  simp only [List.forall₂_cons] at hvalues
  obtain ⟨hid, howner, hamount, hweight, hfinal, houtcome, hstatus, hcontext, -⟩ := hvalues
  cases l
  cases m
  rw [Leaf.mk.injEq]
  exact ⟨hid.str_eq, howner.str_eq, Int.ofNat_inj.mp hamount.int_eq, Int.ofNat_inj.mp hweight.int_eq,
    Int.ofNat_inj.mp hfinal.int_eq, houtcome.str_eq, hstatus.str_eq, hcontext.str_eq⟩

section
variable (domainHash : String → Value → ByteString) (hashBytes : ByteString → ByteString)

/-- what trees over leaf digests are made of -/
inductive Digest : ByteString → Prop
  | leaf {v : Value} (h : PRF.WellFormed v) : Digest (domainHash "result-root" v)
  | node {l r : ByteString} (hl : Digest l) (hr : Digest r) : Digest (merkleNode hashBytes l r)

/-- the two hashes are injective, with disjoint images; a map has one digest in whatever order its
entries come -/
structure HashesBind : Prop where
  leaf : ∀ {v w : Value}, PRF.WellFormed v → PRF.WellFormed w →
    domainHash "result-root" v = domainHash "result-root" w → Same v w
  node : ∀ {l r l' r' : ByteString}, Digest domainHash hashBytes l → Digest domainHash hashBytes r →
    Digest domainHash hashBytes l' → Digest domainHash hashBytes r' →
    merkleNode hashBytes l r = merkleNode hashBytes l' r' → l = l' ∧ r = r'
  apart : ∀ {v : Value} {l r : ByteString}, PRF.WellFormed v → Digest domainHash hashBytes l →
    Digest domainHash hashBytes r → domainHash "result-root" v ≠ merkleNode hashBytes l r

/-! ## the tree -/

theorem pairUp_eq (node : ByteString → ByteString → ByteString) (level : List ByteString) :
    pairUp node level = Merkle.pairUp node level := by
  fun_induction pairUp node level with
  | case1 l r level ih => rw [Merkle.pairUp, ih]
  | case2 l => rw [Merkle.pairUp]
  | case3 => rw [Merkle.pairUp]

theorem merkleRoot_eq (level : List ByteString) :
    merkleRoot hashBytes level = Merkle.root (merkleNode hashBytes) level := by
  fun_induction merkleRoot hashBytes level with
  | case1 => rw [Merkle.root]
  | case2 root => rw [Merkle.root]
  | case3 l r level ih => rw [Merkle.root, ih, pairUp_eq]

def LeafDigest (d : ByteString) : Prop := ∃ l : Leaf, d = resultLeafDigest domainHash l

variable {domainHash hashBytes}

theorem digest_of_rank {n : ℕ} {d : ByteString}
    (h : Merkle.Rank (merkleNode hashBytes) (LeafDigest domainHash) n d) :
    Digest domainHash hashBytes d := by
  induction h with
  | leaf hl =>
    obtain ⟨l, rfl⟩ := hl
    exact .leaf l.wellFormed
  | node _ _ ihl ihr => exact .node ihl ihr

theorem HashesBind.binding (h : HashesBind domainHash hashBytes) :
    Merkle.Binding (merkleNode hashBytes) (LeafDigest domainHash) where
  children hl hr hl' hr' :=
    h.node (digest_of_rank hl) (digest_of_rank hr) (digest_of_rank hl') (digest_of_rank hr')
  apart hleaf hl hr := by
    obtain ⟨l, rfl⟩ := hleaf
    exact h.apart l.wellFormed (digest_of_rank hl) (digest_of_rank hr)

theorem HashesBind.resultLeafDigest_injective (h : HashesBind domainHash hashBytes) :
    Function.Injective (resultLeafDigest domainHash) := fun l m heq =>
  Leaf.eq_of_same (h.leaf l.wellFormed m.wellFormed heq)

/-- **The result root binds the whole result**: lists of leaves without repetition that have the same
root are the same, in their leaves, their order and their number. -/
theorem resultMerkleRoot_binds (h : HashesBind domainHash hashBytes) {xs ys : List Leaf}
    (hxs : xs.Nodup) (hys : ys.Nodup) (hxne : xs ≠ []) (hyne : ys ≠ [])
    (heq : resultMerkleRoot domainHash hashBytes xs = resultMerkleRoot domainHash hashBytes ys) :
    xs = ys := by
  have hinj := h.resultLeafDigest_injective
  have hrank : ∀ (zs : List Leaf), ∀ d ∈ zs.map (resultLeafDigest domainHash),
      Merkle.Rank (merkleNode hashBytes) (LeafDigest domainHash) 0 d := by
    intro zs d hd
    obtain ⟨l, hl, rfl⟩ := List.mem_map.mp hd
    exact .leaf ⟨l, rfl⟩
  have hroots : merkleRoot hashBytes (xs.map (resultLeafDigest domainHash))
      = merkleRoot hashBytes (ys.map (resultLeafDigest domainHash)) :=
    Option.map_injective bareHex_injective heq
  rw [merkleRoot_eq, merkleRoot_eq] at hroots
  have hdigests := Merkle.root_injective h.binding (hrank xs) (hrank ys) (hxs.map hinj)
    (hys.map hinj) (by simpa using hxne) (by simpa using hyne) hroots
  exact List.map_injective_iff.mpr hinj hdigests

end

/-! ## hashes that bind -/

def leafWord (_ : String) (v : Value) : ByteString := 0 :: canonicalBytes v

def nodeWord (b : ByteString) : ByteString := 1 :: b

theorem words_delimit {a : ByteString} (ha : Digest leafWord nodeWord a) :
    Delimits (Digest leafWord nodeWord) id a := by
  induction ha with
  | @leaf v hv =>
    intro b hb s t h
    cases hb with
    | @leaf w hw =>
      obtain ⟨n, hn, hvn⟩ := exists_listing v hv
      obtain ⟨m, hm, hwm⟩ := exists_listing w hw
      simp only [id, leafWord, List.cons_append, List.cons.injEq, true_and,
        hvn.bytes hv hn.wellFormed, hwm.bytes hw hm.wellFormed] at h ⊢
      obtain ⟨rfl, hst⟩ := canonicalBytes_delimits n hn m hm s t h
      exact ⟨rfl, hst⟩
    | node _ _ => simp [leafWord, merkleNode, nodeWord] at h
  | @node l r hl hr ihl ihr =>
    intro b hb s t h
    cases hb with
    | leaf _ => simp [leafWord, merkleNode, nodeWord] at h
    | @node l' r' hl' hr' =>
      simp only [id, merkleNode, nodeWord, List.cons_append, List.append_assoc, List.cons.injEq,
        true_and, List.append_cancel_left_eq] at h ⊢
      obtain ⟨rfl, hrest⟩ := ihl l' hl' _ _ h
      obtain ⟨rfl, hst⟩ := ihr r' hr' s t hrest
      exact ⟨rfl, hst⟩

theorem words_bind : HashesBind leafWord nodeWord where
  leaf hv hw h := (canonicalBytes_code hv hw).1.mp (List.tail_eq_of_cons_eq h)
  node {l r l' r'} hl hr hl' hr' h := by
    simp only [merkleNode, nodeWord, List.append_assoc, List.cons.injEq, true_and,
      List.append_cancel_left_eq] at h
    obtain ⟨rfl, hrest⟩ := words_delimit hl l' hl' _ _ h
    exact ⟨rfl, hrest⟩
  apart _ _ _ h := by simp [leafWord, merkleNode, nodeWord] at h

def leafOf (claimId owner : String) (amount : ℕ) : Leaf :=
  ⟨claimId, owner, amount, 1, amount, "o1", "allocated", "00"⟩

/-- three claimants: the last one is paired with itself -/
def threeLeaves : List Leaf := [leafOf "c1" "alice" 4, leafOf "c2" "bob" 3, leafOf "c3" "carol" 2]

theorem resultMerkleRoot_binds_three : threeLeaves = threeLeaves :=
  resultMerkleRoot_binds words_bind (by decide) (by decide) (by simp [threeLeaves])
    (by simp [threeLeaves]) rfl

end PRF.Allocation
