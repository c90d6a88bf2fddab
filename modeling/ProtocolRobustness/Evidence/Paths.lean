import ProtocolRobustness.Evidence.Reachability
import ProtocolRobustness.Library.Fallible
import ProtocolRobustness.Library.GraphSearch

/-!
# What the searches of a DAG find

The depth-first search finds a cycle when there is one, the breadth-first search what can be reached,
and the search by paths a shortest one.  The ids of the graph are neither `nil` nor `false`, which end
a breadth-first search where they come up.

* `EdgeIn`                 the edges that are followed, as a relation;
* `dagCyclePath_spec`      a cycle of an adjacency, or there is none;
* `bfsReachable_spec`      what can be reached from a node;
* `shortestLoop_spec`      a shortest path, or there is none.
-/

set_option linter.unusedSectionVars false

namespace PRF.Evidence
open Table Fallible GraphSearch Relation

section
variable {ι : Type*} [DecidableEq ι]

/-! ## adjacency -/

/-- a node is among the children of another -/
def Child (adjacency : Adjacency ι) (x y : NodeId ι) : Prop := y ∈ children adjacency x

def EdgeIn (g : Graph ι) (x y : NodeId ι) : Prop :=
  ∃ e ∈ edgesForTraversal g, e.fromId = x ∧ e.toId = y

/-- a map whose keys are distinct, to sets -/
structure Distinct (m : Adjacency ι) : Prop where
  keys : (m.map Prod.fst).Nodup
  sets : ∀ x, (children m x).Nodup

variable {m : Adjacency ι} {x y fromId toId : NodeId ι}

theorem distinct_nil : Distinct ([] : Adjacency ι) := ⟨List.nodup_nil, fun _ => List.nodup_nil⟩

theorem children_conjAt (m : Adjacency ι) (fromId toId x : NodeId ι) :
    children (conjAt m fromId toId) x = if fromId = x then
      (if toId ∈ children m fromId then children m fromId else children m fromId ++ [toId])
      else children m x := by
  unfold conjAt
  rw [children, find_put]
  by_cases h : fromId = x
  · rw [if_pos h, if_pos h, Option.getD_some]
  · rw [if_neg h, if_neg h]
    rfl

theorem child_conjAt : Child (conjAt m fromId toId) x y
    ↔ (fromId = x ∧ toId = y) ∨ Child m x y := by
  unfold Child
  rw [children_conjAt]
  by_cases hx : fromId = x
  · subst hx
    rw [if_pos rfl]
    split
    · next hmem =>
      refine ⟨Or.inr, fun h => h.elim (fun heq => heq.2 ▸ hmem) id⟩
    · rw [List.mem_append, List.mem_singleton, or_comm]
      simp [eq_comm]
  · simp [hx]

theorem Distinct.conjAt (h : Distinct m) (fromId toId : NodeId ι) :
    Distinct (conjAt m fromId toId) where
  keys := nodup_put h.keys _ _
  sets x := by
    rw [children_conjAt]
    split
    · split
      · exact h.sets fromId
      · next hnew =>
        refine List.nodup_append.mpr ⟨h.sets fromId, List.nodup_singleton _, ?_⟩
        intro a ha b hb hab
        exact hnew (List.mem_singleton.mp hb ▸ hab ▸ ha)
    · exact h.sets x

theorem distinct_foldl {β : Type*} (f : β → NodeId ι × NodeId ι) (l : List β) (h : Distinct m) :
    Distinct (l.foldl (fun m b => conjAt m (f b).1 (f b).2) m) := by
  induction l generalizing m with
  | nil => exact h
  | cons b l ih => exact ih (h.conjAt _ _)

theorem child_foldl {β : Type*} (f : β → NodeId ι × NodeId ι) (l : List β) :
    Child (l.foldl (fun m b => conjAt m (f b).1 (f b).2) m) x y
      ↔ (∃ b ∈ l, f b = (x, y)) ∨ Child m x y := by
  induction l generalizing m with
  | nil => simp
  | cons b l ih =>
    rw [List.foldl_cons, ih, child_conjAt, List.exists_mem_cons_iff, ← Prod.mk.injEq]
    exact or_left_comm.trans or_assoc.symm

theorem child_buildAdjacency {g : Graph ι} : Child (buildAdjacency g) x y ↔ EdgeIn g x y := by
  unfold buildAdjacency
  rw [child_foldl fun e : EdgeEntry ι => (e.fromId, e.toId)]
  simp [EdgeIn, Child, children, find_nil]

theorem distinct_buildAdjacency (g : Graph ι) : Distinct (buildAdjacency g) :=
  distinct_foldl (fun e : EdgeEntry ι => (e.fromId, e.toId)) _ distinct_nil

theorem Distinct.child_iff (h : Distinct m) : Child m x y ↔ ∃ e ∈ m, e.1 = x ∧ y ∈ e.2 := by
  unfold Child children
  constructor
  · intro hy
    cases hfound : find m x with
    | none =>
      rw [hfound] at hy
      cases hy
    | some l =>
      rw [hfound] at hy
      exact ⟨(x, l), mem_of_find hfound, rfl, hy⟩
  · rintro ⟨⟨_, l⟩, he, rfl, hy⟩
    rw [find_of_mem h.keys he]
    exact hy

theorem mem_keys_of_child (h : Child m x y) : x ∈ m.map Prod.fst := by
  by_contra hnot
  unfold Child children at h
  rw [(find_eq_none_iff m x).mpr hnot] at h
  cases h

theorem mem_targets_of_child (h : Child m x y) : y ∈ m.flatMap Prod.snd := by
  unfold Child children at h
  cases hfound : find m x with
  | none =>
    rw [hfound] at h
    cases h
  | some l =>
    rw [hfound] at h
    exact List.mem_flatMap.mpr ⟨(x, l), mem_of_find hfound, h⟩

variable {walk : List (NodeId ι) → List (NodeId ι)}

theorem distinct_reverse_foldl (l : Adjacency ι) (h : Distinct m) : Distinct
    (l.foldl (fun m e => (walk e.2).foldl (fun m toId => conjAt m toId e.1) m) m) := by
  induction l generalizing m with
  | nil => exact h
  | cons e l ih => exact ih (distinct_foldl (fun toId => (toId, e.1)) _ h)

theorem child_reverse_foldl (hwalk : ∀ l, (walk l).Perm l) (l : Adjacency ι) : Child
    (l.foldl (fun m e => (walk e.2).foldl (fun m toId => conjAt m toId e.1) m) m) x y
      ↔ (∃ e ∈ l, e.1 = y ∧ x ∈ e.2) ∨ Child m x y := by
  induction l generalizing m with
  | nil => simp
  | cons e l ih =>
    have hturn : (∃ toId ∈ walk e.2, (toId, e.1) = (x, y)) ↔ e.1 = y ∧ x ∈ e.2 := by
      constructor
      · rintro ⟨toId, hmem, heq⟩
        obtain ⟨rfl, rfl⟩ := Prod.mk.inj heq
        exact ⟨rfl, (hwalk e.2).mem_iff.mp hmem⟩
      · rintro ⟨rfl, hmem⟩
        exact ⟨x, (hwalk e.2).mem_iff.mpr hmem, rfl⟩
    rw [List.foldl_cons, ih, child_foldl fun toId => (toId, e.1), hturn, List.exists_mem_cons_iff]
    exact or_left_comm.trans or_assoc.symm

theorem child_reverseAdjacency (hwalk : ∀ l, (walk l).Perm l) (h : Distinct m) :
    Child (reverseAdjacency walk m) x y ↔ Child m y x := by
  unfold reverseAdjacency
  rw [child_reverse_foldl hwalk, h.child_iff]
  simp [Child, children, find_nil]

/-! ## what is reached -/

/-- no child is `nil` or `false`, nor has such a node children -/
def TruthyChildren (m : Adjacency ι) : Prop := ∀ x y, Child m x y → x.truthy = true ∧ y.truthy = true

theorem mem_unseen (hwalk : ∀ l, (walk l).Perm l) (seen : List (NodeId ι)) :
    y ∈ walk ((children m x).filter fun y => y ∉ seen) ↔ Child m x y ∧ y ∉ seen := by
  rw [(hwalk _).mem_iff, List.mem_filter, decide_eq_true_eq]
  rfl

theorem nodup_unseen (hwalk : ∀ l, (walk l).Perm l) (h : Distinct m) (x : NodeId ι)
    (seen : List (NodeId ι)) : (walk ((children m x).filter fun y => y ∉ seen)).Nodup :=
  (hwalk _).nodup_iff.mpr ((h.sets x).filter _)

/-- the nodes of a search: where it starts, and every child -/
def searched (m : Adjacency ι) (start : NodeId ι) : Finset (NodeId ι) :=
  (start :: m.flatMap Prod.snd).toFinset

theorem unseen_searched (m : Adjacency ι) (start : NodeId ι) :
    (unseen (searched m start) [start]).card + 1 < searchBound m := by
  have hsub : unseen (searched m start) [start] ⊆ (m.flatMap Prod.snd).toFinset := by
    intro y hy
    obtain ⟨hmem, hnew⟩ := Finset.mem_filter.mp hy
    rw [searched, List.mem_toFinset, List.mem_cons] at hmem
    exact List.mem_toFinset.mpr (hmem.resolve_left fun heq => hnew (heq ▸ List.mem_singleton_self _))
  have hcard := (Finset.card_le_card hsub).trans (List.toFinset_card_le _)
  unfold searchBound
  omega

theorem unseen_turn (hwalk : ∀ l, (walk l).Perm l) (h : Distinct m) (start x : NodeId ι)
    (seen : List (NodeId ι)) :
    (unseen (searched m start)
      (seen ++ walk ((children m x).filter fun y => y ∉ seen))).card
        + (walk ((children m x).filter fun y => y ∉ seen)).length
      = (unseen (searched m start) seen).card := by
  refine card_unseen_append (nodup_unseen hwalk h x seen) fun y hy => ?_
  obtain ⟨hchild, hnew⟩ := (mem_unseen hwalk seen).mp hy
  exact ⟨List.mem_toFinset.mpr (List.mem_cons_of_mem _ (mem_targets_of_child hchild)), hnew⟩

theorem bfsLoop_spec (hwalk : ∀ l, (walk l).Perm l) (h : Distinct m) (htruthy : TruthyChildren m)
    {start : NodeId ι} {bound : ℕ} {seen queue : List (NodeId ι)}
    (hexplored : Explored (Child m) start seen queue) (hqueue : ∀ x ∈ queue, x.truthy = true)
    (hbound : (unseen (searched m start) seen).card + queue.length < bound) :
    ∃ result, bfsLoop walk m bound seen queue = .ok result ∧
      ∀ y, y ∈ result ↔ ReflTransGen (Child m) start y := by
  induction bound generalizing seen queue with
  | zero => omega
  | succ bound ih =>
    cases queue with
    | nil => exact ⟨seen, rfl, fun y => hexplored.mem_iff⟩
    | cons node queue =>
      unfold bfsLoop
      rw [if_pos (hqueue node List.mem_cons_self)]
      have hturn := unseen_turn hwalk h start node seen
      refine ih (hexplored.visit fun y => mem_unseen hwalk seen) (fun x hx => ?_) ?_
      · rcases List.mem_append.mp hx with hx | hx
        · exact hqueue x (List.mem_cons_of_mem _ hx)
        · exact (htruthy node x ((mem_unseen hwalk seen).mp hx).1).2
      · rw [List.length_cons] at hbound
        rw [List.length_append]
        omega

/-- **A breadth-first search finds what can be reached.** -/
theorem bfsReachable_spec (hwalk : ∀ l, (walk l).Perm l) (h : Distinct m) (htruthy : TruthyChildren m)
    (start : NodeId ι) : ∃ result, bfsReachable walk m start = .ok result ∧
      ∀ y, y ∈ result ↔ ReflTransGen (Child m) start y := by
  unfold bfsReachable
  by_cases hstart : start.truthy = true
  · refine bfsLoop_spec hwalk h htruthy .init (fun x hx => ?_) (unseen_searched m start)
    exact List.mem_singleton.mp hx ▸ hstart
  · -- the search ends at once, at a node without children
    have hbound : searchBound m = (m.flatMap Prod.snd).length + 1 + 1 := rfl
    rw [hbound]
    unfold bfsLoop
    rw [if_neg hstart]
    refine ⟨[start], rfl, fun y => ?_⟩
    rw [List.mem_singleton]
    constructor
    · rintro rfl
      exact .refl
    · intro hy
      rcases hy.cases_head with heq | ⟨z, hz, _⟩
      · exact heq.symm
      · exact absurd (htruthy start z hz).1 hstart

/-! ## shortest paths -/

/-- the ids that are put into a queue together can be compared -/
def Sorts (sort : List (NodeId ι) → Except SearchFailure (List (NodeId ι))) (m : Adjacency ι) :
    Prop :=
  ∀ x l, (∀ y ∈ l, Child m x y) → ∃ sorted, sort l = .ok sorted ∧ sorted.Perm l

/-- a path with the fewest edges -/
structure IsShortest (E : NodeId ι → NodeId ι → Prop) (a b : NodeId ι) (p : List (NodeId ι)) :
    Prop where
  path : IsPath E a b p
  shortest : ∀ q, IsPath E a b q → p.length ≤ q.length

theorem shortestLoop_spec {sort : List (NodeId ι) → Except SearchFailure (List (NodeId ι))}
    (hwalk : ∀ l, (walk l).Perm l) (h : Distinct m) (hsort : Sorts sort m)
    {start : NodeId ι} {bound : ℕ} {seen : List (NodeId ι)} {queue : List (List (NodeId ι))}
    {d : NodeId ι → ℕ} (hlayered : Layered (Child m) start seen queue d)
    (hpending : toId ∈ seen → toId ∈ ends queue)
    (hbound : (unseen (searched m start) seen).card + queue.length < bound) :
    ∃ result, shortestLoop walk sort m toId bound seen queue = .ok result ∧
      (∀ p, result = some p → IsShortest (Child m) start toId p) ∧
      (result = none → ¬ ReflTransGen (Child m) start toId) := by
  induction bound generalizing seen queue d with
  | zero => omega
  | succ bound ih =>
    cases queue with
    | nil =>
      refine ⟨none, rfl, nofun, fun _ hreach => ?_⟩
      have hseen : toId ∈ seen := hlayered.explored.mem_iff.mpr hreach
      exact absurd (hpending hseen) List.not_mem_nil
    | cons path queue =>
      obtain ⟨current, hpath, _⟩ := hlayered.path path List.mem_cons_self
      unfold shortestLoop
      rw [hpath.last, Option.getD_some]
      by_cases hcurrent : current = toId
      · subst hcurrent
        rw [if_pos rfl]
        refine ⟨some path, rfl, fun p hp => ?_, nofun⟩
        obtain rfl := Option.some.inj hp
        exact ⟨hpath, fun q hq => hlayered.shortest hpath hq⟩
      · rw [if_neg hcurrent]
        obtain ⟨sorted, hsorted, hperm⟩ :=
          hsort current _ fun y hy => ((mem_unseen hwalk seen).mp hy).1
        dsimp only
        rw [hsorted]
        have hturn := unseen_turn hwalk h start current seen
        refine ih (hlayered.visit hpath (fun y => mem_unseen hwalk seen) fun y => hperm.mem_iff)
          (fun hseen => ?_) ?_
        · rw [ends_append, ends_extend, List.mem_append, hperm.mem_iff]
          refine (List.mem_append.mp hseen).imp_left fun hold => ?_
          obtain ⟨p, hp, hlast⟩ := mem_ends.mp (hpending hold)
          rcases List.mem_cons.mp hp with rfl | hp
          · exact absurd (Option.some.inj (hpath.last.symm.trans hlast)) hcurrent
          · exact mem_ends.mpr ⟨p, hp, hlast⟩
        · rw [List.length_cons] at hbound
          rw [List.length_append, List.length_map, hperm.length_eq]
          omega

/-! ## cycles -/

/-- What holds between two visits: the path is what is being visited, and what has been visited is
done. -/
structure Marked (E : NodeId ι → NodeId ι → Prop) (marks : Marks ι) (path : List (NodeId ι)) :
    Prop where
  visiting : ∀ x, marks x = some .visiting ↔ x ∈ path
  chain : path.IsChain E
  settled : Settled E fun x => marks x = some .visited

/-- After a visit of `targets` there is a cycle, or they have been visited. -/
structure Searched (E : NodeId ι → NodeId ι → Prop) (path targets : List (NodeId ι))
    (marks : Marks ι) (found : Option (List (NodeId ι))) (marks' : Marks ι) : Prop where
  cycle : ∀ c, found = some c → IsCycle E c
  marked : found = none → Marked E marks' path
  visited : found = none → ∀ x ∈ targets, marks' x = some .visited
  kept : found = none → ∀ x, marks x = some .visited → marks' x = some .visited
  fewer : ∀ x, marks' x = none → marks x = none

/-- the nodes that have no mark -/
def unmarked (nodes : Finset (NodeId ι)) (marks : Marks ι) : Finset (NodeId ι) :=
  nodes.filter fun x => marks x = none

theorem unmarked_le {nodes : Finset (NodeId ι)} {marks marks' : Marks ι}
    (h : ∀ x, marks' x = none → marks x = none) :
    (unmarked nodes marks').card ≤ (unmarked nodes marks).card :=
  Finset.card_le_card (Finset.monotone_filter_right _ fun x _ => h x)

theorem unmarked_lt {nodes : Finset (NodeId ι)} {marks : Marks ι} (hx : x ∈ nodes)
    (hnew : marks x = none) : (unmarked nodes (Function.update marks x (some .visiting))).card
      < (unmarked nodes marks).card := by
  refine Finset.card_lt_card (Finset.ssubset_iff_of_subset ?_ |>.mpr ⟨x, ?_, ?_⟩)
  · refine Finset.monotone_filter_right _ fun y _ hy => ?_
    by_cases hyx : y = x
    · rw [hyx, Function.update_self] at hy
      cases hy
    · rwa [Function.update_of_ne hyx] at hy
  · exact Finset.mem_filter.mpr ⟨hx, hnew⟩
  · intro hmem
    have hnone := (Finset.mem_filter.mp hmem).2
    rw [Function.update_self] at hnone
    cases hnone

variable {E : NodeId ι → NodeId ι → Prop} {path : List (NodeId ι)} {marks : Marks ι}

theorem someFound_spec {nodes : Finset (NodeId ι)} {n : ℕ}
    {f : NodeId ι → Marks ι → Except SearchFailure (Option (List (NodeId ι)) × Marks ι)}
    {l : List (NodeId ι)}
    (hf : ∀ x ∈ l, ∀ marks, Marked E marks path → (unmarked nodes marks).card < n →
      ∃ found marks', f x marks = .ok (found, marks') ∧ Searched E path [x] marks found marks')
    (hmarked : Marked E marks path) (hn : (unmarked nodes marks).card < n) :
    ∃ found marks', someFound f l marks = .ok (found, marks') ∧
      Searched E path l marks found marks' := by
  induction l generalizing marks with
  | nil =>
    exact ⟨none, marks, rfl, nofun, fun _ => hmarked, nofun, fun _ _ hx => hx, fun _ hx => hx⟩
  | cons x l ih =>
    obtain ⟨found, marks₁, hx, hsearched⟩ := hf x List.mem_cons_self marks hmarked hn
    unfold someFound
    rw [hx]
    cases found with
    | some c =>
      exact ⟨some c, marks₁, rfl, hsearched.cycle, nofun, nofun, nofun, hsearched.fewer⟩
    | none =>
      obtain ⟨found, marks₂, hl, hrest⟩ := ih
        (fun y hy => hf y (List.mem_cons_of_mem _ hy)) (hsearched.marked rfl)
        ((unmarked_le hsearched.fewer).trans_lt hn)
      refine ⟨found, marks₂, hl, hrest.cycle, hrest.marked, fun hnone y hy => ?_,
        fun hnone y hy => hrest.kept hnone y (hsearched.kept rfl y hy),
        fun y hy => hsearched.fewer y (hrest.fewer y hy)⟩
      rcases List.mem_cons.mp hy with rfl | hy
      · exact hrest.kept hnone y (hsearched.visited rfl y (List.mem_singleton_self y))
      · exact hrest.visited hnone y hy

theorem cycle_of_visiting (hchain : path.IsChain E) (hx : x ∈ path)
    (hlast : ∀ y ∈ path.getLast?, E y x) :
    IsCycle E (path.dropWhile (fun y => y ≠ x) ++ [x]) := by
  obtain ⟨before, after, rfl, hbefore⟩ := List.eq_append_cons_of_mem hx
  have hdrop : (before ++ x :: after).dropWhile (fun y => y ≠ x) = x :: after := by
    rw [List.dropWhile_append_of_pos, List.dropWhile_cons_of_neg]
    · simp
    · intro y hy
      exact decide_eq_true fun heq => hbefore (heq ▸ hy)
  rw [List.getLast?_append_of_ne_nil _ (List.cons_ne_nil x after)] at hlast
  rw [hdrop]
  refine ⟨hchain.right_of_append.append (.singleton x) ?_, ?_, ?_⟩
  · intro y hy z hz
    rw [List.head?_singleton, Option.mem_some_iff] at hz
    exact hz ▸ hlast y hy
  · rw [List.length_append, List.length_cons, List.length_singleton]
    omega
  · rw [List.getLast?_concat]
    rfl

theorem Marked.enter (h : Marked E marks path) (hnew : marks x = none)
    (hlast : ∀ y ∈ path.getLast?, E y x) :
    Marked E (Function.update marks x (some .visiting)) (path ++ [x]) where
  visiting y := by
    rw [Function.update_apply, List.mem_append, List.mem_singleton, ← h.visiting y]
    by_cases hyx : y = x <;> simp [hyx]
  chain := by
    refine h.chain.append (.singleton x) fun y hy z hz => ?_
    rw [List.head?_singleton, Option.mem_some_iff] at hz
    exact hz ▸ hlast y hy
  settled := by
    have hsame : (fun y => Function.update marks x (some .visiting) y = some .visited)
        = fun y => marks y = some .visited := by
      funext y
      rw [Function.update_apply]
      by_cases hyx : y = x <;> simp [hyx, hnew]
    rw [hsame]
    exact h.settled

/-- a node is taken off the path, when its children have been visited -/
theorem Marked.leave (h : Marked E marks (path ++ [x])) (hx : x ∉ path)
    (hnext : ∀ y, E x y → marks y = some .visited) :
    Marked E (Function.update marks x (some .visited)) path where
  visiting y := by
    have hvisiting := h.visiting y
    rw [List.mem_append, List.mem_singleton] at hvisiting
    rw [Function.update_apply]
    by_cases hyx : y = x
    · simpa [hyx] using hx
    · rw [if_neg hyx, hvisiting, or_iff_left hyx]
  chain := h.chain.left_of_append
  settled := by
    have hvisiting : marks x = some .visiting :=
      (h.visiting x).mpr (List.mem_append_right _ (List.mem_singleton_self x))
    have hmore : (fun y => Function.update marks x (some .visited) y = some .visited)
        = fun y => marks y = some .visited ∨ y = x := by
      funext y
      rw [Function.update_apply]
      by_cases hyx : y = x <;> simp [hyx]
    rw [hmore]
    refine h.settled.insert ?_ hnext
    rw [hvisiting]
    nofun

/-- **A visit finds a cycle, or what it has visited is done.** -/
theorem visit_spec (hwalk : ∀ l, (walk l).Perm l) {nodes : Finset (NodeId ι)}
    (hnodes : ∀ x y, Child m x y → y ∈ nodes) {bound : ℕ} {node : NodeId ι} (hnode : node ∈ nodes)
    (hmarked : Marked (Child m) marks path) (hlast : ∀ y ∈ path.getLast?, Child m y node)
    (hbound : (unmarked nodes marks).card < bound) :
    ∃ found marks', visit walk m bound node path marks = .ok (found, marks') ∧
      Searched (Child m) path [node] marks found marks' := by
  induction bound generalizing node path marks with
  | zero => omega
  | succ bound ih =>
    unfold visit
    cases hmark : marks node with
    | some mark =>
      cases mark with
      | visiting =>
        have hmem : node ∈ path := (hmarked.visiting node).mp hmark
        refine ⟨_, marks, rfl, fun c hc => ?_, nofun, nofun, nofun, fun _ hx => hx⟩
        exact Option.some.inj hc ▸ cycle_of_visiting hmarked.chain hmem hlast
      | visited =>
        refine ⟨none, marks, rfl, nofun, fun _ => hmarked, fun _ x hx => ?_, fun _ _ hx => hx,
          fun _ hx => hx⟩
        exact List.mem_singleton.mp hx ▸ hmark
    | none =>
      have hnew : node ∉ path := fun hmem => by
        rw [(hmarked.visiting node).mpr hmem] at hmark
        cases hmark
      have hfewer := unmarked_lt hnode hmark
      have hchildren : ∀ child ∈ walk (children m node), ∀ marks₁,
          Marked (Child m) marks₁ (path ++ [node]) → (unmarked nodes marks₁).card < bound →
          ∃ found marks', visit walk m bound child (path ++ [node]) marks₁ = .ok (found, marks') ∧
            Searched (Child m) (path ++ [node]) [child] marks₁ found marks' := by
        intro child hchild marks₁ hmarked₁ hbound₁
        have hedge : Child m node child := (hwalk _).mem_iff.mp hchild
        refine ih (hnodes node child hedge) hmarked₁ (fun y hy => ?_) hbound₁
        rw [List.getLast?_concat, Option.mem_some_iff] at hy
        exact hy ▸ hedge
      obtain ⟨found, marks₁, hsome, hsearched⟩ :=
        someFound_spec hchildren (hmarked.enter hmark hlast) (by omega)
      dsimp only
      rw [hsome]
      refine ⟨found, _, rfl, hsearched.cycle, fun hnone => ?_, fun hnone x hx => ?_,
        fun hnone x hx => ?_, fun x hx => ?_⟩
      · refine (hsearched.marked hnone).leave hnew fun y hy => ?_
        exact hsearched.visited hnone y ((hwalk _).mem_iff.mpr hy)
      · rw [List.mem_singleton.mp hx, Function.update_self]
      · have hne : x ≠ node := fun heq => by
          rw [heq, hmark] at hx
          cases hx
        rw [Function.update_of_ne hne]
        exact hsearched.kept hnone x (by rw [Function.update_of_ne hne]; exact hx)
      · by_cases hxn : x = node
        · exact hxn ▸ hmark
        · rw [Function.update_of_ne hxn] at hx
          have hold := hsearched.fewer x hx
          rwa [Function.update_of_ne hxn] at hold

/-- **A depth-first search finds a cycle, or there is none.** -/
theorem dagCyclePath_spec (hwalk : ∀ l, (walk l).Perm l) (m : Adjacency ι) :
    ∃ found, dagCyclePath walk m = .ok found ∧ (∀ c, found = some c → IsCycle (Child m) c) ∧
      (found = none → ∀ x, ¬ TransGen (Child m) x x) := by
  let nodes := (m.map Prod.fst ++ m.flatMap Prod.snd).toFinset
  have hnodes : ∀ x y, Child m x y → y ∈ nodes := fun x y hxy =>
    List.mem_toFinset.mpr (List.mem_append_right _ (mem_targets_of_child hxy))
  have hstart : Marked (Child m) (fun _ => none) [] := by
    refine ⟨fun x => by simp, .nil, ?_⟩
    simpa using Settled.none
  have hbound : (unmarked nodes fun _ => none).card < depthBound m :=
    Nat.lt_succ_of_le ((Finset.card_filter_le _ _).trans (List.toFinset_card_le _))
  have hvisit : ∀ x ∈ walk (m.map Prod.fst), ∀ marks, Marked (Child m) marks [] →
      (unmarked nodes marks).card < depthBound m →
      ∃ found marks', visit walk m (depthBound m) x [] marks = .ok (found, marks') ∧
        Searched (Child m) [] [x] marks found marks' := by
    intro x hx marks hmarked hn
    have hkey : x ∈ nodes :=
      List.mem_toFinset.mpr (List.mem_append_left _ ((hwalk _).mem_iff.mp hx))
    exact visit_spec hwalk hnodes hkey hmarked nofun hn
  obtain ⟨found, marks', hsome, hsearched⟩ := someFound_spec hvisit hstart hbound
  refine ⟨found, ?_, hsearched.cycle, fun hnone x hcycle => ?_⟩
  · unfold dagCyclePath
    rw [hsome]
    rfl
  · -- a node on a cycle has a child, so it is a key, and has been visited
    obtain ⟨y, hxy, _⟩ := TransGen.head'_iff.mp hcycle
    have hvisited : marks' x = some .visited :=
      hsearched.visited hnone x ((hwalk _).mem_iff.mpr (mem_keys_of_child hxy))
    exact (hsearched.marked hnone).settled.acyclic x hvisited hcycle

/-! ## the DAG -/

variable {g : Graph ι} {a b : NodeId ι}

theorem child_eq (g : Graph ι) : Child (buildAdjacency g) = EdgeIn g := by
  funext x y
  exact propext child_buildAdjacency

/-- neither an edge that is followed nor a declared node has an id that is not true -/
def Graph.Truthy (g : Graph ι) : Prop :=
  (∀ e ∈ edgesForTraversal g, e.fromId.truthy = true ∧ e.toId.truthy = true) ∧
    ∀ declared, g.declaredIds = some declared → ∀ x ∈ declared, x.truthy = true

/-- an id that is declared; where nothing declares ids, any but `nil` -/
def Graph.Declares (g : Graph ι) (x : NodeId ι) : Prop :=
  match g.declaredIds with
  | some declared => x ∈ declared
  | none => x ≠ .nil

/-- what the searches of a graph answer -/
structure SearchesCorrect (walk : List (NodeId ι) → List (NodeId ι)) (g : Graph ι) : Prop where
  cycle : ∀ d, g = .dag d → baseErrors d = [] → ∃ errors, dagStructuralErrors walk d = .ok errors ∧
    (.cycle ∈ errors ↔ ∃ x, TransGen (EdgeIn (.edges d.edgeEntries.items)) x x) ∧
    (.cycle ∈ errors → ∃ c,
      dagCyclePath walk (buildAdjacency (.edges d.edgeEntries.items)) = .ok (some c) ∧
      IsCycle (EdgeIn (.edges d.edgeEntries.items)) c)
  reachable : g.Truthy → ∀ a b, ∃ answer, dagReachable walk g a b = .ok answer ∧
    (answer = true ↔ g.Declares a ∧ g.Declares b ∧ ReflTransGen (EdgeIn g) a b)
  dual : g.Truthy → ∀ a b, ∃ up down, dagAncestors walk g b = .ok up ∧
    dagDescendants walk g a = .ok down ∧ (a ∈ up ↔ b ∈ down)
  shortest : g.Truthy → ∀ sort, Sorts sort (buildAdjacency g) → ∀ a b, a ≠ b →
    ∃ answer, dagShortestPath walk sort g a b = .ok answer ∧
      (∀ p, answer = some p → IsShortest (EdgeIn g) a b p) ∧
      (answer = none → ¬ ReflTransGen (EdgeIn g) a b)
  same : ∀ sort a, dagShortestPath walk sort g a a = .ok none

theorem Graph.Truthy.adjacency (h : g.Truthy) : TruthyChildren (buildAdjacency g) := by
  intro x y hxy
  obtain ⟨e, he, rfl, rfl⟩ := child_buildAdjacency.mp hxy
  exact h.1 e he

theorem dagStructuralErrors_spec (hwalk : ∀ l, (walk l).Perm l) {d : Dag ι}
    (hbase : baseErrors d = []) : ∃ errors, dagStructuralErrors walk d = .ok errors ∧
      (.cycle ∈ errors ↔ ∃ x, TransGen (EdgeIn (.edges d.edgeEntries.items)) x x) ∧
      (.cycle ∈ errors → ∃ c,
        dagCyclePath walk (buildAdjacency (.edges d.edgeEntries.items)) = .ok (some c) ∧
        IsCycle (EdgeIn (.edges d.edgeEntries.items)) c) := by
  obtain ⟨found, hfound, hcycle, hnone⟩ :=
    dagCyclePath_spec hwalk (buildAdjacency (.edges d.edgeEntries.items))
  rw [child_eq] at hcycle hnone
  unfold dagStructuralErrors
  rw [if_neg (not_not.mpr hbase), hfound]
  refine ⟨_, rfl, ?_⟩
  cases found with
  | none =>
    have hnot : DagError.cycle ∉ ([] : List DagError) := List.not_mem_nil
    refine ⟨iff_of_false hnot ?_, fun h => absurd h hnot⟩
    rintro ⟨x, hx⟩
    exact hnone rfl x hx
  | some c =>
    have hc := hcycle c rfl
    exact ⟨iff_of_true (List.mem_singleton_self _) hc.exists_transGen, fun _ => ⟨c, rfl, hc⟩⟩

theorem Graph.Truthy.declares (h : g.Truthy) (ha : g.Declares a) : a ≠ .nil := by
  unfold Graph.Declares at ha
  split at ha
  · next declared hdeclared =>
    rintro rfl
    exact absurd (h.2 declared hdeclared _ ha) nofun
  · exact ha

theorem dagReachable_spec (hwalk : ∀ l, (walk l).Perm l) (h : g.Truthy) (a b : NodeId ι) :
    ∃ answer, dagReachable walk g a b = .ok answer ∧
      (answer = true ↔ g.Declares a ∧ g.Declares b ∧ ReflTransGen (EdgeIn g) a b) := by
  unfold dagReachable
  dsimp only
  by_cases hnil : a = .nil ∨ b = .nil
  · rw [if_pos hnil]
    refine ⟨_, rfl, iff_of_false Bool.false_ne_true ?_⟩
    rintro ⟨ha, hb, _⟩
    exact hnil.elim (h.declares ha) (h.declares hb)
  · rw [if_neg hnil]
    rw [not_or] at hnil
    have hdeclares : (g.declaredIds.any fun declared => decide (a ∉ declared ∨ b ∉ declared)) = true
        ↔ ¬ (g.Declares a ∧ g.Declares b) := by
      unfold Graph.Declares
      cases g.declaredIds with
      | some declared =>
        simp only [Option.any_some, decide_eq_true_eq]
        exact not_and_or.symm
      | none => simp [hnil]
    by_cases hany : (g.declaredIds.any fun declared =>
        decide (a ∉ declared ∨ b ∉ declared)) = true
    · rw [if_pos hany]
      exact ⟨_, rfl, iff_of_false Bool.false_ne_true fun hall =>
        hdeclares.mp hany ⟨hall.1, hall.2.1⟩⟩
    · rw [if_neg hany]
      obtain ⟨ha, hb⟩ := not_not.mp fun hnot => hany (hdeclares.mpr hnot)
      by_cases hab : a = b
      · rw [if_pos hab]
        exact ⟨_, rfl, iff_of_true rfl ⟨ha, hb, hab ▸ .refl⟩⟩
      · rw [if_neg hab]
        by_cases hdirect : b ∈ children (buildAdjacency g) a
        · rw [if_pos hdirect]
          exact ⟨_, rfl, iff_of_true rfl ⟨ha, hb, .single (child_buildAdjacency.mp hdirect)⟩⟩
        · rw [if_neg hdirect]
          obtain ⟨seen, hseen, hmem⟩ :=
            bfsReachable_spec hwalk (distinct_buildAdjacency g) h.adjacency a
          rw [hseen]
          refine ⟨_, rfl, ?_⟩
          rw [decide_eq_true_eq, hmem, child_eq]
          exact ⟨fun hreach => ⟨ha, hb, hreach⟩, fun hall => hall.2.2⟩

theorem dagAncestors_dual (hwalk : ∀ l, (walk l).Perm l) (h : g.Truthy) (a b : NodeId ι) :
    ∃ up down, dagAncestors walk g b = .ok up ∧ dagDescendants walk g a = .ok down ∧
      (a ∈ up ↔ b ∈ down) := by
  have hdistinct := distinct_buildAdjacency g
  have hreverse : ∀ x y, Child (reverseAdjacency walk (buildAdjacency g)) x y
      ↔ Child (buildAdjacency g) y x := fun x y => child_reverseAdjacency hwalk hdistinct
  obtain ⟨up, hup, hmemUp⟩ := bfsReachable_spec hwalk (distinct_reverse_foldl _ distinct_nil)
    (fun x y hxy => (h.adjacency y x ((hreverse x y).mp hxy)).symm) b
  obtain ⟨down, hdown, hmemDown⟩ := bfsReachable_spec hwalk hdistinct h.adjacency a
  refine ⟨up, down, hup, hdown, ?_⟩
  have hswap : Child (reverseAdjacency walk (buildAdjacency g))
      = Function.swap (Child (buildAdjacency g)) := by
    funext x y
    exact propext (hreverse x y)
  rw [hmemUp, hmemDown]
  show ReflTransGen (Child (reverseAdjacency walk (buildAdjacency g))) b a ↔ _
  rw [hswap]
  exact reflTransGen_swap

theorem dagShortestPath_spec (hwalk : ∀ l, (walk l).Perm l) (h : g.Truthy)
    {sort : List (NodeId ι) → Except SearchFailure (List (NodeId ι))}
    (hsort : Sorts sort (buildAdjacency g)) (hab : a ≠ b) :
    ∃ answer, dagShortestPath walk sort g a b = .ok answer ∧
      (∀ p, answer = some p → IsShortest (EdgeIn g) a b p) ∧
      (answer = none → ¬ ReflTransGen (EdgeIn g) a b) := by
  unfold dagShortestPath
  by_cases htruthy : a.truthy = true ∧ b.truthy = true
  · rw [if_pos ⟨htruthy.1, htruthy.2, hab⟩, ← child_eq]
    refine shortestLoop_spec hwalk (distinct_buildAdjacency g) hsort .init ?_
      (unseen_searched (buildAdjacency g) a)
    intro hb
    exact mem_ends.mpr ⟨[a], List.mem_singleton_self _, (List.mem_singleton.mp hb) ▸ rfl⟩
  · rw [if_neg fun hall => htruthy ⟨hall.1, hall.2.1⟩]
    refine ⟨none, rfl, nofun, fun _ hreach => htruthy ?_⟩
    -- both ends of a path of the graph are ids
    rw [← child_eq] at hreach
    obtain ⟨x, hax, _⟩ := hreach.cases_head.resolve_left hab
    obtain ⟨y, _, hyb⟩ := hreach.cases_tail.resolve_left (Ne.symm hab)
    exact ⟨(h.adjacency a x hax).1, (h.adjacency y b hyb).2⟩

/-- **The searches of an execution DAG are correct**, whatever the order in which sets are walked. -/
theorem dag_searches_correct (hwalk : ∀ l, (walk l).Perm l) (g : Graph ι) :
    SearchesCorrect walk g where
  cycle _ _ hbase := dagStructuralErrors_spec hwalk hbase
  reachable h := dagReachable_spec hwalk h
  dual h := dagAncestors_dual hwalk h
  shortest h _ hsort _ _ hab := dagShortestPath_spec hwalk h hsort hab
  same _ _ := if_neg fun hall => hall.2.2 rfl

end

/-- two ways from the first node to the last -/
def diamond : Graph ℕ :=
  .dag
    { nodes := some ⟨[.map (.id 1), .map (.id 2), .map (.id 3), .map (.id 4)], true⟩
      edges := some ⟨[.map (.id 1) (.id 2), .map (.id 2) (.id 3), .map (.id 1) (.id 4),
        .map (.id 3) (.id 4)], true⟩ }

theorem dag_searches_correct_diamond : SearchesCorrect id diamond ∧ diamond.Truthy ∧
    Sorts .ok (buildAdjacency diamond) := by
  refine ⟨dag_searches_correct (fun l => .refl l) diamond, ⟨by decide, fun declared h => ?_⟩,
    fun _ l _ => ⟨l, rfl, .refl l⟩⟩
  obtain rfl := Option.some.inj h
  decide

/-- two nodes with edges both ways -/
def backAndForth : Graph ℕ := .edges [.map (.id 1) (.id 2), .map (.id 2) (.id 1)]

/-- a node whose id is `false`, between two others -/
def falseBetween : Dag ℕ where
  nodes := some ⟨[.map (.id 1), .map .false, .map (.id 2)], true⟩
  edges := some ⟨[.map (.id 1) .false, .map .false (.id 2)], true⟩

/-- There is a path from a node on a cycle to itself, and none is returned.  A node whose id is
`false` ends a search, in a DAG without structural errors. -/
theorem searches_incomplete :
    (TransGen (EdgeIn backAndForth) (.id 1) (.id 1) ∧
      dagReachable id backAndForth (.id 1) (.id 1) = .ok true ∧
      dagShortestPath id .ok backAndForth (.id 1) (.id 1) = .ok none) ∧
    (dagStructuralErrors id falseBetween = .ok [] ∧
      TransGen (EdgeIn (.dag falseBetween)) (.id 1) (.id 2) ∧
      dagReachable id (.dag falseBetween) (.id 1) (.id 2) = .ok false) := by
  refine ⟨⟨?_, by decide +kernel, by decide +kernel⟩, by decide +kernel, ?_, by decide +kernel⟩
  · exact .tail (.single ⟨.map (.id 1) (.id 2), by decide, rfl, rfl⟩)
      ⟨.map (.id 2) (.id 1), by decide, rfl, rfl⟩
  · exact .tail (.single ⟨.map (.id 1) .false, by decide, rfl, rfl⟩)
      ⟨.map .false (.id 2), by decide, rfl, rfl⟩

end PRF.Evidence
