import ProtocolRobustness.Library.Callers
import ProtocolRobustness.Library.Table
import ProtocolRobustness.Publication.Records

/-!
# The head store in memory

`pro_rata/publication.clj`: one cell with the head of a publication store, changed by compare-and-set.

* `HeadState`, `HeadCall`, `HeadAnswer`   the cell, and the two ways to publish;
* `publishHead`               one turn of the loop of a call;
* `retainedApplicationBinding`   the binding that the head commits;
* `Advanced`                  the cell after its writes;
* `one_head_chain`            every interleaving of publishers writes one chain of heads.
-/

set_option linter.unusedSectionVars false

namespace PRF.Publication
open CompareAndSet Callers Table

structure HeadState (ι : Type*) where
  head : Head ι
  bindings : List (ι × Binding ι)
  storeVersion : ℕ

inductive HeadCall (κ ι ε : Type*)
  | publish (orderingRoot : ι) (expectedVersion : Option ℕ)
  | publishApplicationBound (ordering : Ordering κ ι) (binding : Binding ι) (resolved : ε)
      (expectedVersion : Option ℕ)

inductive HeadAnswer (ι : Type*)
  | invalidApplicationBinding
  | requiresV2Head
  | contention (expectedVersion observedVersion : ℕ)
  | committed (head : Head ι)

section
variable {κ ι ε γ : Type*} [DecidableEq κ] [DecidableEq ι] [DecidableEq γ] (R : Roots κ ι)
  (closure : Binding ι → Ordering κ ι → ε → Bool)

/-- `new-head-store` and `new-application-head-store` -/
def newHeadStore (schema : HeadSchema) : HeadState ι := ⟨initialHead R schema, [], 0⟩

def HeadCall.expectedVersion : HeadCall κ ι ε → Option ℕ
  | .publish _ expected => expected
  | .publishApplicationBound _ _ _ expected => expected

def HeadCall.binding : HeadCall κ ι ε → Option (Binding ι)
  | .publish _ _ => none
  | .publishApplicationBound _ binding _ _ => some binding

def HeadCall.orderingRoot : HeadCall κ ι ε → ι
  | .publish root _ => root
  | .publishApplicationBound ordering _ _ _ => ordering.hash

/-- one turn of the loop of `publish!` or `publish-application-bound!`.  The first makes a head of
the first schema of any head, and drops the bindings -/
def publishHead (d : HeadCall κ ι ε) (s : HeadState ι) : Outcome (HeadState ι) (HeadAnswer ι) :=
  match d with
  | .publish orderingRoot expected =>
    match expected.filter fun n => n ≠ s.storeVersion with
    | some n => .answer (.contention n s.storeVersion)
    | none =>
      let successor := successorHead R .v1 s.head orderingRoot none
      .write ⟨successor, [], s.storeVersion + 1⟩ (.committed successor)
  | .publishApplicationBound ordering binding resolved expected =>
    if bindingEligible R closure binding ordering resolved = false then
      .answer .invalidApplicationBinding
    else if s.head.schema ≠ .v2 then .answer .requiresV2Head
    else
      match expected.filter fun n => n ≠ s.storeVersion with
      | some n => .answer (.contention n s.storeVersion)
      | none =>
        let successor := successorHead R .v2 s.head ordering.hash (some binding.root)
        .write ⟨successor, put s.bindings binding.root binding, s.storeVersion + 1⟩
          (.committed successor)

def retainedApplicationBinding (s : HeadState ι) : Option (Binding ι) := do
  let bindingRoot ← s.head.applicationBindingRoot
  let binding ← find s.bindings bindingRoot
  if s.head.schema = .v2 ∧ bindingRoot = binding.root
      ∧ s.head.lastOrderingRoot = some binding.publicationOrderingRoot then
    some binding
  else none

def published (s : HeadState ι) (orderingRoot : ι) : Bool :=
  s.head.lastOrderingRoot = some orderingRoot

/-! ## the writes of a store -/

/-- the heads that were committed, the first first -/
def committedHeads (writes : List (HeadCall κ ι ε × HeadAnswer ι)) : List (Head ι) :=
  writes.filterMap fun e =>
    match e.2 with
    | .committed head => some head
    | _ => none

/-- what one write did -/
structure Wrote (R : Roots κ ι) (d : HeadCall κ ι ε) (s s' : HeadState ι) (a : HeadAnswer ι) :
    Prop where
  answer : a = .committed s'.head
  version : s'.storeVersion = s.storeVersion + 1
  expected : ∀ n, d.expectedVersion = some n → n = s.storeVersion
  parent : s'.head.predecessorRoot = some s.head.headRoot
  sequence : s'.head.sequence = s.head.sequence + 1
  root : s'.head.headRoot = R.head s'.head.toHeadBody
  ordering : s'.head.lastOrderingRoot = some d.orderingRoot
  retained : retainedApplicationBinding s' = d.binding
  schema : s'.head.schema = .v2 ↔ d.binding.isSome
  bound : d.binding.isSome → s.head.schema = .v2

variable {R closure} {d : HeadCall κ ι ε} {s s' : HeadState ι} {a : HeadAnswer ι}

theorem expected_of_filter {expected : Option ℕ} {version : ℕ}
    (h : expected.filter (fun n => n ≠ version) = none) (n : ℕ) (hn : expected = some n) :
    n = version := by
  subst hn
  by_contra hne
  simp [Option.filter, hne] at h

theorem wrote_of_write (h : publishHead R closure d s = .write s' a) : Wrote R d s s' a := by
  cases d with
  | publish orderingRoot expected =>
    simp only [publishHead] at h
    split at h
    · cases h
    · next hexpected =>
      cases h
      refine ⟨rfl, rfl, expected_of_filter hexpected, rfl, rfl, rfl, rfl, rfl, ?_, nofun⟩
      exact ⟨nofun, nofun⟩
  | publishApplicationBound ordering binding resolved expected =>
    simp only [publishHead] at h
    split at h
    · cases h
    · next heligible =>
      split at h
      · cases h
      · next hschema =>
        split at h
        · cases h
        · next hexpected =>
          cases h
          have hcommitted := (eligible_of_bindingEligible (Bool.not_eq_false _ ▸ heligible)).committed
          refine ⟨rfl, rfl, expected_of_filter hexpected, rfl, rfl, rfl, rfl, ?_, ?_,
            fun _ => not_not.mp hschema⟩
          · show ((find (put s.bindings binding.root binding) binding.root).bind fun b => _) = _
            rw [find_put, if_pos rfl]
            exact if_pos ⟨rfl, rfl, congrArg some hcommitted.symm⟩
          · exact ⟨fun _ => rfl, fun _ => rfl⟩

variable {writes : List (HeadCall κ ι ε × HeadAnswer ι)} {first : HeadState ι}

/-- the cell after its writes -/
structure Advanced (first : HeadState ι) (writes : List (HeadCall κ ι ε × HeadAnswer ι))
    (s : HeadState ι) : Prop where
  version : s.storeVersion = first.storeVersion + writes.length
  heads : (committedHeads writes).length = writes.length
  current : s.head = (committedHeads writes).getLast?.getD first.head
  sequence : s.head.sequence = first.head.sequence + writes.length
  linked : HashChain.LinkedFrom Head.headRoot (fun head => head.predecessorRoot)
    (some first.head.headRoot) (committedHeads writes)
  expected : ∀ i e, writes[i]? = some e → ∀ n, e.1.expectedVersion = some n →
    n = first.storeVersion + i
  retained : ∀ e, writes.getLast? = some e → retainedApplicationBinding s = e.1.binding
    ∧ s.head.lastOrderingRoot = some e.1.orderingRoot
  schema : s.head.schema = .v2 → ∀ e ∈ writes, e.1.binding.isSome
  bound : writes.Pairwise fun e e' => e'.1.binding.isSome → e.1.binding.isSome

theorem advanced_nil : Advanced (κ := κ) (ε := ε) first [] first where
  version := rfl
  heads := rfl
  current := rfl
  sequence := rfl
  linked := trivial
  expected := nofun
  retained := nofun
  schema := nofun
  bound := .nil

theorem committedHeads_concat (writes : List (HeadCall κ ι ε × HeadAnswer ι)) (d : HeadCall κ ι ε)
    (head : Head ι) :
    committedHeads (writes ++ [(d, .committed head)]) = committedHeads writes ++ [head] := by
  rw [committedHeads, List.filterMap_append]
  rfl

theorem Advanced.wrote (h : Advanced first writes s) (hd : Wrote R d s s' a) :
    Advanced first (writes ++ [(d, a)]) s' := by
  obtain rfl := hd.answer
  refine ⟨?_, ?_, ?_, ?_, ?_, fun i e he n hn => ?_, fun e he => ?_, fun hschema e he => ?_, ?_⟩
  · rw [hd.version, h.version, List.length_append]
    rfl
  · rw [committedHeads_concat, List.length_append, List.length_append, h.heads]
    rfl
  · rw [committedHeads_concat, List.getLast?_concat]
    rfl
  · rw [hd.sequence, h.sequence, List.length_append]
    rfl
  · rw [committedHeads_concat, HashChain.linkedFrom_concat]
    refine ⟨h.linked, ?_⟩
    rw [hd.parent, h.current, HashChain.tip]
    cases (committedHeads writes).getLast? <;> rfl
  · rcases Nat.lt_or_ge i writes.length with hi | hi
    · rw [List.getElem?_append_left hi] at he
      exact h.expected i e he n hn
    · rw [List.getElem?_append_right hi] at he
      obtain ⟨hzero, rfl⟩ : i - writes.length = 0 ∧ (d, _) = e := by
        cases hj : i - writes.length with
        | zero =>
          rw [hj] at he
          exact ⟨rfl, Option.some.inj he⟩
        | succ j =>
          rw [hj] at he
          cases he
      rw [hd.expected n hn, h.version]
      omega
  · rw [List.getLast?_concat] at he
    cases he
    exact ⟨hd.retained, hd.ordering⟩
  · have hbound := hd.schema.mp hschema
    rcases List.mem_append.mp he with he | he
    · exact h.schema (hd.bound hbound) e he
    · cases List.mem_singleton.mp he
      exact hbound
  · refine List.pairwise_append.mpr ⟨h.bound, List.pairwise_singleton _ _, fun e he e' he' hbound => ?_⟩
    cases List.mem_singleton.mp he'
    exact h.schema (hd.bound hbound) e he

theorem advanced_of_written (h : Written (publishHead R closure) first writes s) :
    Advanced first writes s := by
  induction h with
  | nil => exact advanced_nil
  | snoc _ hattempt ih => exact ih.wrote (wrote_of_write hattempt)

variable (R closure) in
/-- **However publishers are interleaved, the heads they commit are one chain, at most one for each
expected version; the store retains the binding of the last publication if that had one, and once a
publication without one came through, none with one does.** -/
theorem one_head_chain (schema : HeadSchema) (moves : List (Move γ (HeadCall κ ι ε))) :
    let c := (Cell.start (newHeadStore R schema) : Cell (HeadState ι) γ (HeadCall κ ι ε)
      (HeadAnswer ι)).after (publishHead R closure) moves
    HashChain.LinkedFrom Head.headRoot (fun head => head.predecessorRoot)
        (some (initialHead R schema).headRoot) (committedHeads c.writes)
      ∧ c.value.head = (committedHeads c.writes).getLast?.getD (initialHead R schema)
      ∧ c.value.storeVersion = c.writes.length
      ∧ (committedHeads c.writes).length = c.writes.length
      ∧ (∀ (i : ℕ) (e : HeadCall κ ι ε × HeadAnswer ι), c.writes[i]? = some e →
        ∀ n, e.1.expectedVersion = some n → n = i)
      ∧ (∀ e, c.writes.getLast? = some e →
        retainedApplicationBinding c.value = e.1.binding ∧ published c.value e.1.orderingRoot = true)
      ∧ c.writes.Pairwise fun e e' => e'.1.binding.isSome → e.1.binding.isSome := by
  intro c
  have hlinear : Linear (publishHead R closure) (newHeadStore R schema) c := linear_start.after moves
  have h := advanced_of_written hlinear.written
  refine ⟨h.linked, h.current, h.version.trans (Nat.zero_add _), h.heads, fun i e he n hn => ?_,
    fun e he => ?_, h.bound⟩
  · exact (h.expected i e he n hn).trans (Nat.zero_add i)
  · obtain ⟨hretained, hordering⟩ := h.retained e he
    exact ⟨hretained, decide_eq_true hordering⟩

end

end PRF.Publication
