import Mathlib.Data.List.Basic
import Mathlib.Data.List.Nodup
import Mathlib.Tactic

/-!
# Trees whose odd levels repeat their last node

A list of leaves is folded up level by level; two neighbours become one node, and the last node of an
odd level is paired with itself.  In general such a root does not bind its leaves: a list of three
has the root of the list of four that ends in the third leaf twice.  It does bind lists WITHOUT
repeated leaves, because a level without repetitions only pairs a node with itself at its odd end,
and the next level has no repetitions either.

* `pairUp`, `root`        one level up, the node that is left at the end;
* `Rank leaf n a`         `a` is the root of a full tree with `n` levels above leaves of `leaf`;
* `Binding leaf`          a node determines its children, and no leaf is a node;
* `root_injective`        lists of leaves without repetition are bound by their root, of any lengths.
-/

namespace Merkle

section
variable {α : Type*} (node : α → α → α)

/-- two neighbours become one node, a last one alone is paired with itself -/
def pairUp : List α → List α
  | l :: r :: level => node l r :: pairUp level
  | [l] => [node l l]
  | [] => []

theorem length_pairUp (level : List α) : (pairUp node level).length = (level.length + 1) / 2 := by
  fun_induction pairUp node level with
  | case1 l r level ih => simp [ih]; omega
  | case2 l => simp
  | case3 => simp

theorem mem_pairUp {level : List α} {a : α} (h : a ∈ pairUp node level) :
    ∃ l ∈ level, ∃ r ∈ level, a = node l r := by
  induction level using pairUp.induct with
  | case1 l r level ih =>
    rw [pairUp, List.mem_cons] at h
    rcases h with rfl | h
    · exact ⟨l, by simp, r, by simp, rfl⟩
    · obtain ⟨l', hl, r', hr, rfl⟩ := ih h
      exact ⟨l', by simp [hl], r', by simp [hr], rfl⟩
  | case2 l =>
    rw [pairUp, List.mem_singleton] at h
    exact ⟨l, by simp, l, by simp, h⟩
  | case3 => cases h

/-- no leaves have no root -/
def root : List α → Option α
  | [] => none
  | [a] => some a
  | l :: r :: level => root (pairUp node (l :: r :: level))
termination_by level => level.length
decreasing_by
  rw [length_pairUp]
  simp only [List.length_cons]
  omega

theorem pairUp_ne_nil {level : List α} (h : level ≠ []) : pairUp node level ≠ [] := by
  cases level with
  | nil => exact absurd rfl h
  | cons l level =>
    cases level with
    | nil => simp [pairUp]
    | cons r level => simp [pairUp]

/-! ## full trees -/

/-- the root of a full tree with so many levels above its leaves -/
inductive Rank (leaf : α → Prop) : ℕ → α → Prop
  | leaf {a : α} (h : leaf a) : Rank leaf 0 a
  | node {n : ℕ} {l r : α} (hl : Rank leaf n l) (hr : Rank leaf n r) : Rank leaf (n + 1) (node l r)

/-- a node determines its children, and no leaf is a node -/
structure Binding (leaf : α → Prop) : Prop where
  children : ∀ {m n : ℕ} {l r l' r' : α}, Rank node leaf m l → Rank node leaf m r →
    Rank node leaf n l' → Rank node leaf n r' → node l r = node l' r' → l = l' ∧ r = r'
  apart : ∀ {n : ℕ} {a l r : α}, leaf a → Rank node leaf n l → Rank node leaf n r → a ≠ node l r

variable {node} {leaf : α → Prop}

/-- two full trees with the same root have the same number of levels -/
theorem Rank.unique (hbind : Binding node leaf) {m : ℕ} {a : α} (hm : Rank node leaf m a) :
    ∀ {n : ℕ}, Rank node leaf n a → m = n := by
  induction hm with
  | leaf ha =>
    intro n hn
    cases hn with
    | leaf _ => rfl
    | node hl hr => exact absurd rfl (hbind.apart ha hl hr)
  | @node m l r hl hr ihl ihr =>
    intro n hn
    generalize ha : node l r = a at hn
    cases hn with
    | leaf h => exact absurd ha.symm (hbind.apart h hl hr)
    | @node n l' r' hl' hr' =>
      obtain ⟨rfl, -⟩ := hbind.children hl hr hl' hr' ha
      rw [ihl hl']

/-- one level up, the ranks go up by one -/
theorem Rank.pairUp {n : ℕ} {level : List α} (h : ∀ a ∈ level, Rank node leaf n a) :
    ∀ a ∈ pairUp node level, Rank node leaf (n + 1) a := by
  intro a ha
  obtain ⟨l, hl, r, hr, rfl⟩ := mem_pairUp node ha
  exact .node (h l hl) (h r hr)

/-- the root of a level is the root of a full tree at least as high -/
theorem Rank.root {n : ℕ} {level : List α} {a : α} (h : ∀ b ∈ level, Rank node leaf n b)
    (hroot : root node level = some a) : ∃ k, Rank node leaf (n + k) a := by
  induction level using root.induct node generalizing n with
  | case1 => simp [Merkle.root] at hroot
  | case2 b =>
    rw [Merkle.root, Option.some.injEq] at hroot
    exact ⟨0, hroot ▸ h b List.mem_cons_self⟩
  | case3 l r level ih =>
    rw [Merkle.root] at hroot
    obtain ⟨k, hk⟩ := ih (Rank.pairUp h) hroot
    exact ⟨k + 1, by rwa [show n + (k + 1) = n + 1 + k by omega]⟩

/-! ## levels without repetition -/

/-- a level without repetition is followed by one without repetition -/
theorem pairUp_nodup (hbind : Binding node leaf) {n : ℕ} {level : List α}
    (h : ∀ a ∈ level, Rank node leaf n a) (hnodup : level.Nodup) : (pairUp node level).Nodup := by
  induction level using pairUp.induct with
  | case1 l r level ih =>
    have hrest : ∀ a ∈ level, Rank node leaf n a := fun a ha => h a (by simp [ha])
    rw [List.nodup_cons, List.nodup_cons] at hnodup
    obtain ⟨hl, hr, hnodup⟩ := hnodup
    rw [pairUp, List.nodup_cons]
    refine ⟨fun hmem => ?_, ih hrest hnodup⟩
    obtain ⟨l', hl', r', hr', heq⟩ := mem_pairUp node hmem
    obtain ⟨rfl, -⟩ := hbind.children (h l (by simp)) (h r (by simp)) (hrest l' hl') (hrest r' hr') heq
    exact hl (List.mem_cons_of_mem _ hl')
  | case2 l => simp [pairUp]
  | case3 => simp [pairUp]

/-- a level without repetition is determined by the next one: only a last node alone is paired with
itself -/
theorem pairUp_injective (hbind : Binding node leaf) {n : ℕ} {xs ys : List α}
    (hx : ∀ a ∈ xs, Rank node leaf n a) (hy : ∀ a ∈ ys, Rank node leaf n a)
    (hxs : xs.Nodup) (hys : ys.Nodup) (h : pairUp node xs = pairUp node ys) : xs = ys := by
  induction xs using pairUp.induct generalizing ys with
  | case1 l r xs ih =>
    rw [pairUp] at h
    match ys with
    | [] => simp [pairUp] at h
    | [l'] =>
      rw [pairUp, List.cons.injEq] at h
      obtain ⟨rfl, rfl⟩ := hbind.children (hx l (by simp)) (hx r (by simp)) (hy l' (by simp))
        (hy l' (by simp)) h.1
      simp at hxs
    | l' :: r' :: ys =>
      rw [pairUp, List.cons.injEq] at h
      obtain ⟨rfl, rfl⟩ := hbind.children (hx l (by simp)) (hx r (by simp)) (hy l' (by simp))
        (hy r' (by simp)) h.1
      rw [List.nodup_cons, List.nodup_cons] at hxs hys
      rw [ih (fun a ha => hx a (by simp [ha])) (fun a ha => hy a (by simp [ha])) hxs.2.2 hys.2.2 h.2]
  | case2 l =>
    rw [pairUp] at h
    match ys with
    | [] => simp [pairUp] at h
    | [l'] =>
      rw [pairUp, List.cons.injEq] at h
      rw [(hbind.children (hx l (by simp)) (hx l (by simp)) (hy l' (by simp)) (hy l' (by simp)) h.1).1]
    | l' :: r' :: ys =>
      rw [pairUp, List.cons.injEq] at h
      obtain ⟨rfl, rfl⟩ := hbind.children (hx l (by simp)) (hx l (by simp)) (hy l' (by simp))
        (hy r' (by simp)) h.1
      simp at hys
  | case3 =>
    by_contra hne
    exact pairUp_ne_nil node (Ne.symm hne) h.symm

/-- a single node is not the root of a longer level of the same rank -/
theorem root_pair_ne (hbind : Binding node leaf) {n : ℕ} {a l r : α} {level : List α}
    (ha : Rank node leaf n a) (h : ∀ b ∈ l :: r :: level, Rank node leaf n b) :
    root node (l :: r :: level) ≠ some a := by
  intro hroot
  rw [root] at hroot
  obtain ⟨k, hk⟩ := Rank.root (Rank.pairUp h) hroot
  have heq := Rank.unique hbind ha hk
  omega

/-- **Lists of leaves without repetition are bound by their root**, whatever their lengths. -/
theorem root_injective (hbind : Binding node leaf) {n : ℕ} {xs ys : List α}
    (hx : ∀ a ∈ xs, Rank node leaf n a) (hy : ∀ a ∈ ys, Rank node leaf n a)
    (hxs : xs.Nodup) (hys : ys.Nodup) (hxne : xs ≠ []) (hyne : ys ≠ [])
    (h : root node xs = root node ys) : xs = ys := by
  induction xs using root.induct node generalizing ys n with
  | case1 => exact absurd rfl hxne
  | case2 a =>
    rw [root] at h
    match ys with
    | [] => exact absurd rfl hyne
    | [b] =>
      rw [root, Option.some.injEq] at h
      rw [h]
    | l :: r :: ys => exact absurd h.symm (root_pair_ne hbind (hx a (by simp)) hy)
  | case3 l r xs ih =>
    match ys with
    | [] => exact absurd rfl hyne
    | [b] =>
      rw [root.eq_def node [b]] at h
      exact absurd h (root_pair_ne hbind (hy b (by simp)) hx)
    | l' :: r' :: ys =>
      rw [root, root] at h
      have hnext := ih (Rank.pairUp hx) (Rank.pairUp hy) (pairUp_nodup hbind hx hxs)
        (pairUp_nodup hbind hy hys) (pairUp_ne_nil node (by simp)) (pairUp_ne_nil node (by simp)) h
      exact pairUp_injective hbind hx hy hxs hys hnext

/-- a repeated last leaf is not seen -/
example (a b c : α) : root node [a, b, c] = root node [a, b, c, c] := by
  simp [root, pairUp]

end

end Merkle
