import Mathlib.Data.Finset.Card
import Mathlib.Data.List.Chain
import Mathlib.Tactic

/-!
# Searching a graph

What a search has found, for a graph given as a relation.  A breadth-first search keeps the nodes it
has seen and a queue of nodes, or of paths, whose successors it has not looked at; a depth-first
search keeps the nodes that are done, none of which is on a cycle.  A search for a cycle through one
node keeps a stack of paths that visit no node twice.

* `IsPath`, `IsCycle`    walks as lists of nodes;
* `Explored`             a search that looks at one node after another;
* `Explored.mem_iff`     at its end it has seen what can be reached;
* `Layered`              a search by paths, shorter ones first;
* `Layered.shortest`     the path at the head of the queue is a shortest one;
* `Settled`              nodes that lead to one another only, and to no cycle;
* `card_unseen_append`   what is seen is not seen again;
* `exists_simple`        where there is a walk there is one that visits no node twice;
* `Ahead`                a cycle is still to be found;
* `Ahead.expand`         it is, after a path that does not close is replaced by longer ones;
* `weight_expand`        every turn of the search takes weight off the stack.
-/

namespace GraphSearch
open Relation

section
variable {ι : Type*} {E : ι → ι → Prop} {a b c start x y : ι} {p q : List ι}

/-! ## walks -/

/-- a list of consecutive nodes from `a` to `b` -/
structure IsPath (E : ι → ι → Prop) (a b : ι) (p : List ι) : Prop where
  chain : p.IsChain E
  head : p.head? = some a
  last : p.getLast? = some b

theorem IsPath.single (a : ι) : IsPath E a a [a] := ⟨.singleton a, rfl, rfl⟩

theorem IsPath.concat (h : IsPath E a b p) (hbc : E b c) : IsPath E a c (p ++ [c]) where
  chain := by
    refine h.chain.append (.singleton c) ?_
    intro x hx y hy
    rw [h.last, Option.mem_some_iff] at hx
    rw [List.head?_singleton, Option.mem_some_iff] at hy
    exact hx ▸ hy ▸ hbc
  head := by rw [List.head?_append, h.head, Option.some_or]
  last := List.getLast?_concat

/-- a walk is one node, or a shorter walk and an edge -/
theorem IsPath.cases (h : IsPath E a b p) :
    (p = [a] ∧ b = a) ∨ ∃ q c, p = q ++ [b] ∧ IsPath E a c q ∧ E c b := by
  obtain ⟨q, rfl⟩ : ∃ q, p = q ++ [b] := List.getLast?_eq_some_iff.mp h.last
  rcases List.eq_nil_or_concat q with rfl | ⟨r, c, rfl⟩
  · have hhead : some b = some a := h.head
    exact Or.inl ⟨by rw [Option.some.inj hhead]; rfl, Option.some.inj hhead⟩
  · rw [List.concat_eq_append] at h ⊢
    obtain ⟨hchain, _, hedge⟩ := List.isChain_append.mp h.chain
    refine Or.inr ⟨r ++ [c], c, rfl, ⟨hchain, ?_, List.getLast?_concat⟩, ?_⟩
    · have hhead := h.head
      rwa [List.head?_append_of_ne_nil _ (by simp)] at hhead
    · exact hedge c (by simp) b (by simp)

/-- an induction along a walk, from its start -/
theorem IsPath.induction {P : ι → List ι → Prop} (hstart : P a [a])
    (hedge : ∀ b c q, IsPath E a b q → P b q → E b c → P c (q ++ [c])) (h : IsPath E a b p) :
    P b p := by
  induction hn : p.length using Nat.strong_induction_on generalizing p b with
  | _ n ih =>
    rcases h.cases with ⟨rfl, rfl⟩ | ⟨q, c, rfl, hq, hcb⟩
    · exact hstart
    · refine hedge c b q hq (ih q.length ?_ hq rfl) hcb
      rw [← hn, List.length_append]
      exact Nat.lt_succ_self _

theorem IsPath.reflTransGen (h : IsPath E a b p) : ReflTransGen E a b :=
  h.induction (P := fun b _ => ReflTransGen E a b) .refl fun _ _ _ _ hab hbc => hab.tail hbc

/-- consecutive nodes that close -/
structure IsCycle (E : ι → ι → Prop) (c : List ι) : Prop where
  chain : c.IsChain E
  long : 2 ≤ c.length
  closed : c.head? = c.getLast?

theorem IsCycle.exists_transGen {c : List ι} (h : IsCycle E c) : ∃ x, TransGen E x x := by
  have hlong := h.long
  obtain ⟨x, c', rfl⟩ : ∃ x c', c = x :: c' := List.exists_cons_of_length_pos (by omega)
  have hpath : IsPath E x x (x :: c') := ⟨h.chain, rfl, h.closed.symm⟩
  rcases hpath.cases with ⟨hone, _⟩ | ⟨q, z, _, hq, hzx⟩
  · rw [hone, List.length_singleton] at hlong
    omega
  · exact ⟨x, TransGen.tail' hq.reflTransGen hzx⟩

/-! ## one node after another -/

/-- A search has seen `seen`; only the successors of the nodes that are pending may be unseen. -/
structure Explored (E : ι → ι → Prop) (start : ι) (seen pending : List ι) : Prop where
  source : start ∈ seen
  queued : ∀ x ∈ pending, x ∈ seen
  reached : ∀ x ∈ seen, ReflTransGen E start x
  closed : ∀ x ∈ seen, x ∈ pending ∨ ∀ y, E x y → y ∈ seen

theorem Explored.init : Explored E start [start] [start] where
  source := List.mem_singleton_self start
  queued _ hx := hx
  reached _ hx := List.mem_singleton.mp hx ▸ .refl
  closed _ hx := Or.inl hx

/-- a node is looked at -/
theorem Explored.visit {seen pending fresh : List ι} (h : Explored E start seen (x :: pending))
    (hfresh : ∀ y, y ∈ fresh ↔ E x y ∧ y ∉ seen) :
    Explored E start (seen ++ fresh) (pending ++ fresh) where
  source := List.mem_append_left _ h.source
  queued y hy := by
    rcases List.mem_append.mp hy with hy | hy
    · exact List.mem_append_left _ (h.queued y (List.mem_cons_of_mem _ hy))
    · exact List.mem_append_right _ hy
  reached y hy := by
    rcases List.mem_append.mp hy with hy | hy
    · exact h.reached y hy
    · exact (h.reached x (h.queued x List.mem_cons_self)).tail ((hfresh y).mp hy).1
  closed y hy := by
    by_cases hnew : y ∈ fresh
    · exact Or.inl (List.mem_append_right _ hnew)
    · have hseen : y ∈ seen := (List.mem_append.mp hy).resolve_right hnew
      -- the successors of the node are seen now, those of the others were or are pending
      have hnext : y = x → ∀ z, E y z → z ∈ seen ++ fresh := by
        rintro rfl z hz
        by_cases hz' : z ∈ seen
        · exact List.mem_append_left _ hz'
        · exact List.mem_append_right _ ((hfresh z).mpr ⟨hz, hz'⟩)
      rcases h.closed y hseen with hpending | hclosed
      · rcases List.mem_cons.mp hpending with hyx | hpending
        · exact Or.inr (hnext hyx)
        · exact Or.inl (List.mem_append_left _ hpending)
      · exact Or.inr fun z hz => List.mem_append_left _ (hclosed z hz)

/-- **A search that has nothing pending has seen what can be reached.** -/
theorem Explored.mem_iff {seen : List ι} (h : Explored E start seen []) :
    y ∈ seen ↔ ReflTransGen E start y := by
  constructor
  · exact h.reached y
  · intro hy
    induction hy with
    | refl => exact h.source
    | tail _ hbc ih => exact (h.closed _ ih).resolve_left List.not_mem_nil _ hbc

/-! ## shorter paths first -/

/-- the last nodes of the paths in a queue -/
def ends (queue : List (List ι)) : List ι := queue.filterMap List.getLast?

theorem mem_ends {queue : List (List ι)} : x ∈ ends queue ↔ ∃ p ∈ queue, p.getLast? = some x :=
  List.mem_filterMap

/-- A search keeps a queue of paths, shorter ones first, to nodes whose successors it has not looked
at; `d` counts the nodes of the path by which a node was seen. -/
structure Layered (E : ι → ι → Prop) (start : ι) (seen : List ι) (queue : List (List ι))
    (d : ι → ℕ) : Prop where
  explored : Explored E start seen (ends queue)
  path : ∀ p ∈ queue, ∃ x, IsPath E start x p ∧ d x = p.length
  origin : d start = 1
  next : ∀ x ∈ seen, x ∈ ends queue ∨ ∀ y, E x y → d y ≤ d x + 1
  near : ∀ p ∈ queue, ∀ x ∈ seen, d x ≤ p.length + 1
  sorted : queue.Pairwise fun p q => p.length ≤ q.length

theorem Layered.init : Layered E start [start] [[start]] fun _ => 1 where
  explored := .init
  path _ hp := List.mem_singleton.mp hp ▸ ⟨start, .single start, rfl⟩
  origin := rfl
  next _ hx := Or.inl hx
  near _ _ _ _ := Nat.le_add_left 1 _
  sorted := List.pairwise_singleton _ _

/-- a walk ends at a node seen by a path that is no longer, or a path in the queue is shorter -/
theorem Layered.walk {seen : List ι} {queue : List (List ι)} {d : ι → ℕ}
    (h : Layered E start seen queue d) (hp : IsPath E start x p) :
    (x ∈ seen ∧ d x ≤ p.length) ∨ ∃ q ∈ queue, q.length < p.length := by
  refine hp.induction (P := fun x p => (x ∈ seen ∧ d x ≤ p.length) ∨
    ∃ q ∈ queue, q.length < p.length) ?_ ?_
  · exact Or.inl ⟨h.explored.source, h.origin.le⟩
  · rintro b c q hq (⟨hseen, hd⟩ | ⟨q', hq', hlt⟩) hbc
    · rw [List.length_append, List.length_singleton]
      -- either `b` is still pending by a path no longer than this one, or `c` was seen from it
      by_cases hpending : b ∈ ends queue
      · obtain ⟨q', hq', hlast⟩ := mem_ends.mp hpending
        obtain ⟨b', hb', hlength⟩ := h.path q' hq'
        obtain rfl : b' = b := Option.some.inj (hb'.last.symm.trans hlast)
        exact Or.inr ⟨q', hq', by omega⟩
      · have hclosed := (h.explored.closed b hseen).resolve_left hpending c hbc
        have hnext := (h.next b hseen).resolve_left hpending c hbc
        exact Or.inl ⟨hclosed, by omega⟩
    · rw [List.length_append, List.length_singleton]
      exact Or.inr ⟨q', hq', by omega⟩

/-- **The path at the head of the queue is a shortest one** to the node where it ends. -/
theorem Layered.shortest {seen : List ι} {rest : List (List ι)} {d : ι → ℕ}
    (h : Layered E start seen (p :: rest) d) (hp : IsPath E start x p) (hq : IsPath E start x q) :
    p.length ≤ q.length := by
  rcases h.walk hq with ⟨_, hd⟩ | ⟨q', hq', hlt⟩
  · obtain ⟨x', hx', hlength⟩ := h.path p List.mem_cons_self
    obtain rfl : x' = x := Option.some.inj (hx'.last.symm.trans hp.last)
    omega
  · rcases List.mem_cons.mp hq' with rfl | hq'
    · exact hlt.le
    · have hle := (List.pairwise_cons.mp h.sorted).1 q' hq'
      omega

theorem ends_append (queue more : List (List ι)) : ends (queue ++ more) = ends queue ++ ends more :=
  List.filterMap_append

theorem ends_extend (p fresh : List ι) : ends (fresh.map fun y => p ++ [y]) = fresh := by
  unfold ends
  rw [List.filterMap_map]
  refine (List.filterMap_congr fun y _ => ?_).trans List.filterMap_some
  exact List.getLast?_concat

open Classical in
/-- the node at the end of the first path is looked at, and the path is extended -/
theorem Layered.visit {seen fresh fresh' : List ι} {rest : List (List ι)} {d : ι → ℕ}
    (h : Layered E start seen (p :: rest) d) (hp : IsPath E start x p)
    (hfresh : ∀ y, y ∈ fresh ↔ E x y ∧ y ∉ seen) (hperm : ∀ y, y ∈ fresh' ↔ y ∈ fresh) :
    Layered E start (seen ++ fresh) (rest ++ fresh'.map fun y => p ++ [y])
      (fun y => if y ∈ fresh then p.length + 1 else d y) := by
  have hx : x ∈ seen := h.explored.queued x (mem_ends.mpr ⟨p, List.mem_cons_self, hp.last⟩)
  have hold : ∀ y ∈ seen, y ∉ fresh := fun y hy hnew => ((hfresh y).mp hnew).2 hy
  obtain ⟨x', hx', hlength⟩ := h.path p List.mem_cons_self
  obtain rfl : x' = x := Option.some.inj (hx'.last.symm.trans hp.last)
  have hends : ends (p :: rest) = x' :: ends rest := List.filterMap_cons_some hp.last
  have hends' : ends (rest ++ fresh'.map fun y => p ++ [y]) = ends rest ++ fresh' := by
    rw [ends_append, ends_extend]
  have hrest : ∀ q ∈ rest, p.length ≤ q.length := (List.pairwise_cons.mp h.sorted).1
  have hclose : ∀ y ∈ seen ++ fresh,
      (if y ∈ fresh then p.length + 1 else d y) ≤ p.length + 1 := by
    intro y hy
    split
    · exact le_rfl
    · next hnew =>
      exact h.near p List.mem_cons_self y ((List.mem_append.mp hy).resolve_right hnew)
  constructor
  · -- what is pending is the same set, in another order
    have hvisit := (hends ▸ h.explored).visit hfresh
    refine ⟨hvisit.source, fun y hy => hvisit.queued y ?_, hvisit.reached, fun y hy => ?_⟩
    · rw [hends'] at hy
      simpa [hperm] using hy
    · rw [hends']
      simpa [hperm] using hvisit.closed y hy
  · intro q hq
    rcases List.mem_append.mp hq with hq | hq
    · obtain ⟨y, hy, hd⟩ := h.path q (List.mem_cons_of_mem _ hq)
      have hseen : y ∈ seen := h.explored.queued y
        (mem_ends.mpr ⟨q, List.mem_cons_of_mem _ hq, hy.last⟩)
      exact ⟨y, hy, by rw [if_neg (hold y hseen), hd]⟩
    · obtain ⟨y, hy, rfl⟩ := List.mem_map.mp hq
      have hnew : y ∈ fresh := (hperm y).mp hy
      refine ⟨y, hp.concat ((hfresh y).mp hnew).1, ?_⟩
      rw [if_pos hnew, List.length_append, List.length_singleton]
  · rw [if_neg (hold start h.explored.source), h.origin]
  · intro y hy
    rw [hends']
    by_cases hnew : y ∈ fresh
    · exact Or.inl (List.mem_append_right _ ((hperm y).mpr hnew))
    · have hseen : y ∈ seen := (List.mem_append.mp hy).resolve_right hnew
      rw [if_neg hnew]
      by_cases hyx : y = x'
      · subst hyx
        refine Or.inr fun z hz => (hlength ▸ hclose z ?_ : _ ≤ d y + 1)
        by_cases hz' : z ∈ seen
        · exact List.mem_append_left _ hz'
        · exact List.mem_append_right _ ((hfresh z).mpr ⟨hz, hz'⟩)
      · by_cases hpending : y ∈ ends (p :: rest)
        · rw [hends] at hpending
          exact Or.inl (List.mem_append_left _ ((List.mem_cons.mp hpending).resolve_left hyx))
        · refine Or.inr fun z hz => ?_
          have hclosed := (h.explored.closed y hseen).resolve_left hpending z hz
          rw [if_neg (hold z hclosed)]
          exact (h.next y hseen).resolve_left hpending z hz
  · intro q hq y hy
    refine (hclose y hy).trans (Nat.succ_le_succ ?_)
    rcases List.mem_append.mp hq with hq | hq
    · exact hrest q hq
    · obtain ⟨z, _, rfl⟩ := List.mem_map.mp hq
      rw [List.length_append]
      exact Nat.le_add_right _ _
  · refine List.pairwise_append.mpr ⟨(List.pairwise_cons.mp h.sorted).2, ?_, ?_⟩
    · refine List.pairwise_map.mpr (List.pairwise_of_forall fun y z => ?_)
      rw [List.length_append, List.length_append]
      exact le_rfl
    · intro q hq r hr
      obtain ⟨z, _, rfl⟩ := List.mem_map.mp hr
      obtain ⟨y, hy, hd⟩ := h.path q (List.mem_cons_of_mem _ hq)
      have hnear := h.near p List.mem_cons_self y (h.explored.queued y
        (mem_ends.mpr ⟨q, List.mem_cons_of_mem _ hq, hy.last⟩))
      rw [List.length_append, List.length_singleton]
      omega

/-! ## nodes that are done -/

/-- Nodes that lead to one another only, none of them on a cycle. -/
structure Settled (E : ι → ι → Prop) (done : ι → Prop) : Prop where
  closed : ∀ x, done x → ∀ y, E x y → done y
  acyclic : ∀ x, done x → ¬ TransGen E x x

theorem Settled.none : Settled E fun _ => False := ⟨fun _ h => h.elim, fun _ h => h.elim⟩

theorem Settled.reach {done : ι → Prop} (h : Settled E done) (hx : done x)
    (hxy : ReflTransGen E x y) : done y := by
  induction hxy with
  | refl => exact hx
  | tail _ hbc ih => exact h.closed _ ih _ hbc

/-- **A node whose successors are done is done.** -/
theorem Settled.insert {done : ι → Prop} (h : Settled E done) (hx : ¬ done x)
    (hnext : ∀ y, E x y → done y) : Settled E fun z => done z ∨ z = x where
  closed := by
    rintro z (hz | rfl) y hzy
    · exact Or.inl (h.closed z hz y hzy)
    · exact Or.inl (hnext y hzy)
  acyclic := by
    rintro z (hz | rfl) hcycle
    · exact h.acyclic z hz hcycle
    · obtain ⟨y, hzy, hyz⟩ := TransGen.head'_iff.mp hcycle
      exact hx (h.reach (hnext y hzy) hyz)

end

/-! ## what is left to see -/

section
variable {ι : Type*} [DecidableEq ι]

/-- the nodes of a finite graph that are not seen yet -/
def unseen (nodes : Finset ι) (seen : List ι) : Finset ι := nodes.filter fun x => x ∉ seen

theorem card_unseen_append {nodes : Finset ι} {seen fresh : List ι} (hnodup : fresh.Nodup)
    (hfresh : ∀ x ∈ fresh, x ∈ nodes ∧ x ∉ seen) :
    (unseen nodes (seen ++ fresh)).card + fresh.length = (unseen nodes seen).card := by
  have hdisjoint : Disjoint (unseen nodes (seen ++ fresh)) fresh.toFinset := by
    refine Finset.disjoint_left.mpr fun x hx hnew => ?_
    exact (Finset.mem_filter.mp hx).2 (List.mem_append_right _ (List.mem_toFinset.mp hnew))
  rw [← List.toFinset_card_of_nodup hnodup, ← Finset.card_union_of_disjoint hdisjoint]
  congr 1
  ext x
  simp only [unseen, Finset.mem_union, Finset.mem_filter, List.mem_append, List.mem_toFinset]
  constructor
  · rintro (⟨hx, hnot⟩ | hnew)
    · exact ⟨hx, fun hseen => hnot (Or.inl hseen)⟩
    · exact hfresh x hnew
  · rintro ⟨hx, hseen⟩
    by_cases hnew : x ∈ fresh
    · exact Or.inr hnew
    · exact Or.inl ⟨hx, fun hmem => hmem.elim hseen hnew⟩

end

section
variable {ι : Type*} {E : ι → ι → Prop} {a b x y start : ι} {p : List ι}
  {rest fresh stack : List (List ι)}

theorem IsPath.cons (h : IsPath E x b p) (hax : E a x) : IsPath E a b (a :: p) where
  chain := by
    refine List.isChain_cons.mpr ⟨fun y hy => ?_, h.chain⟩
    rw [h.head, Option.mem_some_iff] at hy
    exact hy ▸ hax
  head := rfl
  last := by rw [List.getLast?_cons, h.last]; rfl

theorem IsPath.suffix {s t : List ι} (h : IsPath E a b (s ++ x :: t)) : IsPath E x b (x :: t) where
  chain := (List.isChain_append.mp h.chain).2.1
  head := rfl
  last := by
    have hlast := h.last
    rwa [List.getLast?_append_of_ne_nil _ (List.cons_ne_nil x t)] at hlast

/-- **Where there is a walk there is one that visits no node twice.** -/
theorem exists_simple (h : ReflTransGen E a b) : ∃ p, IsPath E a b p ∧ p.Nodup := by
  induction h using ReflTransGen.head_induction_on with
  | refl => exact ⟨[b], .single b, List.nodup_singleton b⟩
  | @head a x hax _ ih =>
    obtain ⟨p, hp, hnodup⟩ := ih
    by_cases hmem : a ∈ p
    · -- the walk comes back to `a`, and starts there instead
      obtain ⟨s, t, rfl⟩ := List.append_of_mem hmem
      exact ⟨a :: t, hp.suffix, (List.nodup_append.mp hnodup).2.1⟩
    · exact ⟨a :: p, hp.cons hax, List.nodup_cons.mpr ⟨hmem, hnodup⟩⟩

/-- a path in the stack is the beginning of one that closes -/
def Ahead (E : ι → ι → Prop) (start : ι) (stack : List (List ι)) : Prop :=
  ∃ q x, IsPath E start x q ∧ q.Nodup ∧ E x start ∧ ∃ p ∈ stack, p ≠ [] ∧ p <+: q

theorem Ahead.init (h : TransGen E start start) : Ahead E start [[start]] := by
  obtain ⟨x, hx, hclose⟩ := TransGen.tail'_iff.mp h
  obtain ⟨q, hq, hnodup⟩ := exists_simple hx
  refine ⟨q, x, hq, hnodup, hclose, [start], List.mem_singleton_self _, List.cons_ne_nil _ _, ?_⟩
  obtain ⟨t, rfl⟩ := List.head?_eq_some_iff.mp hq.head
  exact ⟨t, rfl⟩

/-- **A path that does not close is replaced by those that are longer by one node.** -/
theorem Ahead.expand (h : Ahead E start (rest ++ [p])) (hlast : p.getLast? = some y)
    (hopen : ¬ E y start) (hfresh : ∀ n, E y n → n ∉ p → p ++ [n] ∈ fresh) :
    Ahead E start (rest ++ fresh) := by
  obtain ⟨q, x, hq, hnodup, hclose, p', hp', hne, hprefix⟩ := h
  rcases List.mem_append.mp hp' with hp' | hp'
  · exact ⟨q, x, hq, hnodup, hclose, p', List.mem_append_left _ hp', hne, hprefix⟩
  · obtain rfl := List.mem_singleton.mp hp'
    obtain ⟨t, rfl⟩ := hprefix
    cases t with
    | nil =>
      rw [List.append_nil] at hq
      obtain rfl := Option.some.inj (hq.last.symm.trans hlast)
      exact absurd hclose hopen
    | cons n t =>
      have hedge : E y n := by
        refine (List.isChain_append.mp hq.chain).2.2 y ?_ n rfl
        rw [hlast]
        rfl
      have hnew : n ∉ p' := fun hmem => (List.nodup_append.mp hnodup).2.2 n hmem n (by simp) rfl
      refine ⟨p' ++ n :: t, x, hq, hnodup, hclose, p' ++ [n],
        List.mem_append_right _ (hfresh n hedge hnew), by simp, ?_⟩
      exact ⟨t, by simp⟩

theorem not_ahead_nil : ¬ Ahead E start [] := by
  rintro ⟨q, x, -, -, -, p, hp, -⟩
  exact List.not_mem_nil hp

/-- what is to do for a stack of paths with at most `bound` nodes and `width` ways on from each -/
def weight (width bound : ℕ) (stack : List (List ι)) : ℕ :=
  (stack.map fun p => (width + 1) ^ (bound + 1 - p.length)).sum

theorem weight_append (width bound : ℕ) (stack more : List (List ι)) :
    weight width bound (stack ++ more) = weight width bound stack + weight width bound more := by
  unfold weight
  rw [List.map_append, List.sum_append]

/-- **Every turn takes weight off the stack.** -/
theorem weight_expand {width bound : ℕ} (hp : p.length ≤ bound) (hwidth : fresh.length ≤ width)
    (hlength : ∀ q ∈ fresh, q.length = p.length + 1) :
    weight width bound (rest ++ fresh) < weight width bound (rest ++ [p]) := by
  rw [weight_append, weight_append]
  have heach : fresh.map (fun q => (width + 1) ^ (bound + 1 - q.length))
      = List.replicate fresh.length ((width + 1) ^ (bound - p.length)) := by
    rw [List.eq_replicate_iff]
    refine ⟨List.length_map _, fun n hn => ?_⟩
    obtain ⟨q, hq, rfl⟩ := List.mem_map.mp hn
    rw [hlength q hq, Nat.add_sub_add_right]
  have hfresh : weight width bound fresh = fresh.length * (width + 1) ^ (bound - p.length) := by
    unfold weight
    rw [heach, List.sum_replicate, smul_eq_mul]
  have hone : weight width bound [p] = (width + 1) * (width + 1) ^ (bound - p.length) := by
    unfold weight
    rw [List.map_singleton, List.sum_singleton, Nat.succ_sub hp, pow_succ, mul_comm]
  have hpos : 0 < (width + 1) ^ (bound - p.length) := Nat.pow_pos (Nat.succ_pos width)
  rw [hfresh, hone]
  refine Nat.add_lt_add_left ?_ _
  exact Nat.mul_lt_mul_of_pos_right (Nat.lt_succ_of_le hwidth) hpos

end

end GraphSearch
