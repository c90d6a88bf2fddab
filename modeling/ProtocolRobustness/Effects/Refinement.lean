import ProtocolRobustness.Effects.StateRoot
import ProtocolRobustness.Effects.Transact

/-!
# Sequential execution and the atomic transition

* `executed`            the state operations leave one after the other: a delta on a new quantity
                        leaves an entry, whatever the net of the quantity is;
* `execute_eq`          operations no prefix of which goes below zero run to the end, in this state;
* `executed_same_iff`   it is the state after the transition unless a new quantity ends at zero;
* `Refines`             the trace realizes the transition, in both modes;
* `execute_refines_iff` it does so exactly when no delta on a new quantity is cancelled.
-/

namespace PRF.Transact
open Bytes Fallible LongArith

/-! ## the run -/

def Operation.entry (o : Operation) : String × ℤ := (o.quantityRoot, o.delta)

/-- the effects of a list of operations -/
def effectsOf (operations : List (String × ℤ)) : List Effect :=
  operations.map fun o => delta o.1 o.2

theorem entries_effectsOf (operations : List (String × ℤ)) :
    (effectsOf operations).map Effect.entry = operations := by
  unfold effectsOf
  rw [List.map_map]
  exact List.map_id operations

theorem known_effectsOf (operations : List (String × ℤ)) : Known (effectsOf operations) := by
  intro e he
  obtain ⟨o, _, rfl⟩ := List.mem_map.mp he
  rfl

theorem netOf_effectsOf (operations : List (String × ℤ)) (root : String) :
    netOf (effectsOf operations) root = GroupSum.net operations root := by
  rw [netOf, entries_effectsOf]

/-- the state operations leave one after the other -/
def executed (s : Quantities) (operations : List (String × ℤ)) : Quantities :=
  s.collect (operations.filter fun o => o.2 ≠ 0)

theorem executed_cons (s : Quantities) (o : String × ℤ) (operations : List (String × ℤ)) :
    executed s (o :: operations) = executed (executed s [o]) operations := by
  unfold executed
  rw [← Quantities.collect_append, ← List.filter_append]
  rfl

theorem amount_executed (s : Quantities) (operations : List (String × ℤ)) (root : String) :
    (executed s operations).amount root = s.amount root + GroupSum.net operations root := by
  rw [executed, Quantities.amount_collect, GroupSum.net_filter_ne_zero]

theorem find_executed (s : Quantities) (operations : List (String × ℤ)) (root : String) :
    (executed s operations).find root
      = if ∃ o ∈ operations, o.1 = root ∧ o.2 ≠ 0
        then some (s.amount root + GroupSum.net operations root) else s.find root := by
  rw [executed, Quantities.find_collect, GroupSum.net_filter_ne_zero]
  refine if_congr ?_ rfl rfl
  simp only [List.mem_map, List.mem_filter, decide_eq_true_eq]
  exact ⟨fun ⟨o, ⟨ho, h0⟩, hr⟩ => ⟨o, ho, hr, h0⟩, fun ⟨o, ho, hr, h0⟩ => ⟨o, ⟨ho, h0⟩, hr⟩⟩

theorem normalForm_single (o : String × ℤ) :
    (normalForm [delta o.1 o.2]).map Effect.entry = [o].filter fun o => o.2 ≠ 0 := by
  have hc : GroupSum.collect [] ([delta o.1 o.2].map Effect.entry) = [o] := by
    show GroupSum.add [] o = [o]
    unfold GroupSum.add
    rw [Table.find_nil, Option.getD_none, zero_add]
    rfl
  have hp := @entries_normalForm [delta o.1 o.2]
  rw [hc] at hp
  by_cases h : o.2 = 0
  · simp only [List.filter_cons, List.filter_nil, h] at hp ⊢
    exact List.perm_nil.mp hp
  · have hf : [o].filter (fun o => o.2 ≠ 0) = [o] := by simp [h]
    rw [hf] at hp ⊢
    exact List.perm_singleton.mp hp

theorem applyEffects_single {s : Quantities} {o : String × ℤ} (h : 0 ≤ s.amount o.1 + o.2)
    (hs : ∀ root, 0 ≤ s.amount root) : applyEffects s [delta o.1 o.2] = .ok (executed s [o]) := by
  have hk : Known [delta o.1 o.2] := known_effectsOf [o]
  rw [applyEffects_eq hk, normalForm_single]
  · rfl
  · intro root
    have hn : netOf [delta o.1 o.2] root = if o.1 = root then o.2 else 0 := by
      rw [show [delta o.1 o.2] = effectsOf [o] from rfl, netOf_effectsOf, GroupSum.net_cons,
        GroupSum.net_nil, add_zero]
    rw [hn]
    by_cases hr : o.1 = root
    · rw [if_pos hr, ← hr]
      exact h
    · rw [if_neg hr, add_zero]
      exact hs root

/-- no prefix of the operations leaves a quantity below zero -/
def Solvent (s : Quantities) (operations : List (String × ℤ)) : Prop :=
  ∀ n root, 0 ≤ s.amount root + GroupSum.net (operations.take n) root

section
variable {s : Quantities} {operations : List (String × ℤ)}

theorem Solvent.start (h : Solvent s operations) (root : String) : 0 ≤ s.amount root := by
  have h0 := h 0 root
  rwa [List.take_zero, GroupSum.net_nil, add_zero] at h0

theorem Solvent.final (h : Solvent s operations) (root : String) :
    0 ≤ s.amount root + GroupSum.net operations root := by
  have hl := h operations.length root
  rwa [List.take_length] at hl

theorem Solvent.head {o : String × ℤ} (h : Solvent s (o :: operations)) :
    0 ≤ s.amount o.1 + o.2 := by
  have h1 := h 1 o.1
  rwa [List.take_succ_cons, List.take_zero, GroupSum.net_cons, GroupSum.net_nil, if_pos rfl,
    add_zero] at h1

theorem Solvent.tail {o : String × ℤ} (h : Solvent s (o :: operations)) :
    Solvent (executed s [o]) operations := by
  intro n root
  have hn := h (n + 1) root
  rw [List.take_succ_cons, GroupSum.net_cons] at hn
  rw [amount_executed, GroupSum.net_cons, GroupSum.net_nil]
  omega

end

/-! ## `execute` -/

section
variable {sha256 : ByteString → String} {hash : String → Value → String}
  {operations : List (String × ℤ)} {operationSemanticsRoot tracePolicyRoot : Value}
  {transaction : Transaction}

theorem operation_entry {root : String} {d : ℤ} {o : Operation}
    (h : operation hash root d = .ok o) : o.entry = (root, d) ∧ CanonicalEffects.isRoot root = true := by
  unfold operation CanonicalEffects.delta at h
  by_cases hr : CanonicalEffects.isRoot root = true
  · rw [hr] at h
    cases h
    exact ⟨rfl, hr⟩
  · rw [Bool.not_eq_true] at hr
    rw [hr] at h
    cases h

theorem operations_entries {ops : List Operation}
    (h : List.Forall₂ (fun o op => operation hash o.1 o.2 = .ok op) operations ops) :
    ops.map Operation.entry = operations := by
  induction h with
  | nil => rfl
  | cons ho _ ih => rw [List.map_cons, (operation_entry ho).1, ih]

theorem buildTransaction_operations (h : buildTransaction hash operations operationSemanticsRoot
    tracePolicyRoot = .ok transaction) : transaction.operations.map Operation.entry = operations ∧
      ∀ o ∈ operations, CanonicalEffects.isRoot o.1 = true := by
  obtain ⟨ops, hops, h⟩ := bind_eq_ok.mp h
  cases h
  have hall := mapM_ok_iff.mp hops
  constructor
  · exact operations_entries hall
  · intro o ho
    obtain ⟨op, _, hop⟩ := exists_of_mem_left hall ho
    exact (operation_entry hop).2

theorem delta_eq {root : String} (h : CanonicalEffects.isRoot root = true) (d : ℤ) :
    CanonicalEffects.delta root d = .ok (delta root d) := by
  unfold CanonicalEffects.delta
  rw [h]
  rfl

theorem executeStep_eq (sha256 : ByteString → String) {s : Quantities} (steps : List Step)
    {op : Operation}
    (hr : CanonicalEffects.isRoot op.quantityRoot = true)
    (hop : 0 ≤ s.amount op.quantityRoot + op.delta) (hs : ∀ root, 0 ≤ s.amount root)
    (ha : ∀ root, 0 ≤ (executed s [op.entry]).amount root) :
    executeStep sha256 (s, steps) op = .ok (executed s [op.entry],
      steps ++ [⟨steps.length, op.operationRoot, sha256 (stateBytes (executed s [op.entry]))⟩]) := by
  have happ : applyEffects s [delta op.quantityRoot op.delta] = .ok (executed s [op.entry]) :=
    applyEffects_single (o := op.entry) hop hs
  refine bind_eq_ok.mpr ⟨_, delta_eq hr _, bind_eq_ok.mpr ⟨_, happ, bind_eq_ok.mpr ⟨_, ?_, rfl⟩⟩⟩
  exact stateRoot_eq ha

theorem foldlM_executeStep (sha256 : ByteString → String) {s : Quantities} (steps : List Step)
    {ops : List Operation}
    (hr : ∀ o ∈ ops, CanonicalEffects.isRoot o.quantityRoot = true)
    (h : Solvent s (ops.map Operation.entry)) :
    ∃ steps', ops.foldlM (executeStep sha256) (s, steps)
      = .ok (executed s (ops.map Operation.entry), steps') := by
  induction ops generalizing s steps with
  | nil => exact ⟨steps, rfl⟩
  | cons op ops ih =>
    have hstep := executeStep_eq sha256 steps (hr op List.mem_cons_self) h.head h.start h.tail.start
    obtain ⟨steps', hrest⟩ := ih _ (fun o ho => hr o (List.mem_cons_of_mem op ho)) h.tail
    refine ⟨steps', ?_⟩
    rw [List.foldlM_cons, List.map_cons, executed_cons]
    exact bind_eq_ok.mpr ⟨_, hstep, hrest⟩

/-- **Solvent operations within the bound run to the end.** -/
theorem execute_eq {s : Quantities} {canonical : Transition} {policy : TracePolicy} {bound : HostInt}
    (hb : buildTransaction hash operations operationSemanticsRoot tracePolicyRoot = .ok transaction)
    (h : Solvent s operations) (hbefore : canonical.stateBeforeRoot = sha256 (stateBytes s))
    (hbound : deriveBound policy canonical = some bound)
    (hlen : (operations.length : ℤ) ≤ bound.value) :
    ∃ trace, execute sha256 hash s transaction canonical policy = .ok trace ∧
      trace.inputRoot = sha256 (stateBytes s) ∧
      trace.outputRoot = sha256 (stateBytes (executed s operations)) := by
  obtain ⟨hops, hroots⟩ := buildTransaction_operations hb
  have hvalid : ∀ o ∈ transaction.operations, CanonicalEffects.isRoot o.quantityRoot = true :=
    fun o ho => hroots o.entry (hops ▸ List.mem_map_of_mem ho)
  have hsolvent : Solvent s (transaction.operations.map Operation.entry) := hops ▸ h
  have hlength : (transaction.operations.length : ℤ) ≤ bound.value := by
    rw [← hops, List.length_map] at hlen
    exact hlen
  obtain ⟨steps, hrun⟩ := foldlM_executeStep sha256 [] hvalid hsolvent
  rw [hops] at hrun
  have hend : ∀ root, 0 ≤ (executed s operations).amount root := fun root =>
    (amount_executed s operations root).symm ▸ h.final root
  unfold execute
  simp only [hbound, stateRoot_eq h.start, stateRoot_eq hend, effects, whenNot, hrun, hbefore,
    decide_eq_true hlength, decide_true, if_true, bind, Except.bind, pure, Except.pure]
  exact ⟨_, rfl, rfl, rfl⟩

end

/-! ## the two states -/

/-- a quantity that a delta touches and that ends where it began is in the state before -/
def KeepsNothingNew (s : Quantities) (operations : List (String × ℤ)) : Prop :=
  ∀ o ∈ operations, o.2 ≠ 0 → GroupSum.net operations o.1 = 0 → o.1 ∈ s.keys

section
variable {s : Quantities} {operations : List (String × ℤ)}

theorem find_of_key {root : String} (h : root ∈ s.keys) : s.find root = some (s.amount root) := by
  cases hf : s.find root with
  | none => exact absurd h ((Table.find_eq_none_iff s.entries root).mp hf)
  | some n => rw [Quantities.amount, hf, Option.getD_some]

theorem exists_of_net {root : String} (h : GroupSum.net operations root ≠ 0) :
    ∃ o ∈ operations, o.1 = root ∧ o.2 ≠ 0 := by
  rw [← GroupSum.net_filter_ne_zero] at h
  by_contra hno
  refine h (GroupSum.net_of_not_mem fun hmem => hno ?_)
  obtain ⟨o, ho, hr⟩ := List.mem_map.mp hmem
  obtain ⟨ho, h0⟩ := List.mem_filter.mp ho
  exact ⟨o, ho, hr, of_decide_eq_true h0⟩

/-- the executed state is the one after the transition unless a new quantity ends at zero -/
theorem executed_same_iff {after : Quantities} (ha : ∀ root, after.find root
      = if GroupSum.net operations root ≠ 0 then some (s.amount root + GroupSum.net operations root)
        else s.find root) :
    (∀ root, (executed s operations).find root = after.find root) ↔
      KeepsNothingNew s operations := by
  constructor
  · intro h o ho h0 hnet
    have hr := h o.1
    rw [find_executed, if_pos ⟨o, ho, rfl, h0⟩, ha, hnet, if_neg (not_not.mpr rfl)] at hr
    by_contra hk
    rw [Quantities.find, (Table.find_eq_none_iff s.entries o.1).mpr hk] at hr
    cases hr
  · intro h root
    rw [find_executed, ha]
    by_cases hnet : GroupSum.net operations root = 0
    · rw [if_neg (not_not.mpr hnet)]
      split
      · next hex =>
        obtain ⟨o, ho, rfl, h0⟩ := hex
        rw [hnet, add_zero, find_of_key (h o ho h0 hnet)]
      · rfl
    · rw [if_pos hnet, if_pos (exists_of_net hnet)]

end

/-! ## bindings -/

/-- a trace is bound to a transition in a mode -/
def Accepts (hash : String → Value → String) (canonical : Transition) (transaction : Transaction)
    (trace : Trace) (mode : Keyword) : Prop :=
  ∃ binding, bindTransition hash canonical transaction trace (bindingSemanticsRoot hash mode) mode
    = .ok binding

section
variable {hash : String → Value → String} {canonical : Transition} {transaction : Transaction}
  {trace : Trace} {operations : List (String × ℤ)}

theorem effects_eq_ok {α : Type} {x : Except Thrown α} {a : α} :
    effects x = .ok a ↔ x = .ok a := by
  cases x <;> simp [effects]

theorem whenNot_eq_ok {test : Bool} {failure : Failure} {u : Unit} :
    whenNot test failure = .ok u ↔ test = true := by
  unfold whenNot
  cases test <;> simp

theorem deltas_eq (hops : transaction.operations.map Operation.entry = operations)
    (hr : ∀ o ∈ operations, CanonicalEffects.isRoot o.1 = true) :
    transaction.operations.mapM (fun o => CanonicalEffects.delta o.quantityRoot o.delta)
      = .ok (effectsOf operations) := by
  subst hops
  unfold effectsOf
  rw [List.map_map]
  exact mapM_ok fun o ho => delta_eq (hr o.entry (List.mem_map_of_mem ho)) o.delta

theorem normalizeEffects_effectsOf (hr : ∀ o ∈ operations, CanonicalEffects.isRoot o.1 = true) :
    CanonicalEffects.normalizeEffects (effectsOf operations)
      = .ok (normalForm (effectsOf operations)) := by
  refine bind_eq_ok.mpr ⟨(), forM_ok_iff.mpr fun e he => ?_,
    normalizeEffects_eq (known_effectsOf operations)⟩
  obtain ⟨o, ho, rfl⟩ := List.mem_map.mp he
  exact PRF.whenNot_eq_ok.mpr (hr o ho)

theorem accepts_iff (hops : transaction.operations.map Operation.entry = operations)
    (hr : ∀ o ∈ operations, CanonicalEffects.isRoot o.1 = true)
    (heffects : canonical.effects = normalForm (effectsOf operations))
    (hbefore : canonical.stateBeforeRoot = trace.inputRoot) {mode : Keyword}
    (hmode : mode = netEquivalent ∨ mode = effectExact) :
    Accepts hash canonical transaction trace mode ↔ canonical.stateAfterRoot = trace.outputRoot ∧
      (mode = netEquivalent ∨ sameSet (transaction.operations.map Operation.quantityRoot)
        (canonical.effects.map Effect.quantityRoot) = true) := by
  constructor
  · rintro ⟨binding, h⟩
    obtain ⟨_, _, h⟩ := bind_eq_ok.mp h
    obtain ⟨deltas, _, h⟩ := bind_eq_ok.mp h
    obtain ⟨normalized, _, h⟩ := bind_eq_ok.mp h
    obtain ⟨_, h, _⟩ := bind_eq_ok.mp h
    simp only [whenNot_eq_ok, Bool.and_eq_true, Bool.or_eq_true, decide_eq_true_eq] at h
    exact ⟨h.1.1.2, h.2⟩
  · rintro ⟨hafter, hset⟩
    refine exists_bind_ok.mpr ⟨(), whenNot_eq_ok.mpr (decide_eq_true rfl), ?_⟩
    refine exists_bind_ok.mpr ⟨_, effects_eq_ok.mpr (deltas_eq hops hr), ?_⟩
    refine exists_bind_ok.mpr ⟨_, effects_eq_ok.mpr (normalizeEffects_effectsOf hr), ?_⟩
    refine exists_bind_ok.mpr ⟨(), whenNot_eq_ok.mpr ?_, _, rfl⟩
    simp only [Bool.and_eq_true, Bool.or_eq_true, decide_eq_true_eq]
    exact ⟨⟨⟨⟨hmode, hbefore⟩, hafter⟩, heffects⟩, hset⟩

end

/-! ## the refinement -/

section
variable (sha256 : ByteString → String) (hash : String → Value → String)

/-- the run realizes the transition: it ends in the root the transition ends in, and is bound to it
in both modes, in the stricter one unless it touches more quantities -/
def Refines (s : Quantities) (transaction : Transaction) (canonical : Transition)
    (policy : TracePolicy) : Prop :=
  ∃ trace, execute sha256 hash s transaction canonical policy = .ok trace ∧
    trace.outputRoot = canonical.stateAfterRoot ∧
    Accepts hash canonical transaction trace netEquivalent ∧
    (Accepts hash canonical transaction trace effectExact ↔
      ∀ o ∈ transaction.operations, o.quantityRoot ∈ canonical.effects.map Effect.quantityRoot)

variable {sha256 hash} {s : Quantities} {operations : List (String × ℤ)}
  {operationSemanticsRoot tracePolicyRoot : Value} {transaction : Transaction}
  {canonical : Transition} {policy : TracePolicy} {bound : HostInt}

theorem sameSet_iff (hops : transaction.operations.map Operation.entry = operations)
    (heffects : canonical.effects = normalForm (effectsOf operations)) :
    sameSet (transaction.operations.map Operation.quantityRoot)
        (canonical.effects.map Effect.quantityRoot) = true ↔
      ∀ o ∈ transaction.operations, o.quantityRoot ∈ canonical.effects.map Effect.quantityRoot := by
  unfold sameSet
  simp only [Bool.and_eq_true, List.all_eq_true, decide_eq_true_eq, List.forall_mem_map]
  refine and_iff_left fun e he => ?_
  rw [heffects] at he
  have hnet := mem_roots_normalForm.mp (List.mem_map_of_mem he)
  rw [netOf_effectsOf] at hnet
  obtain ⟨o, ho, hroot, _⟩ := exists_of_net hnet
  rw [← hops] at ho
  obtain ⟨op, hop, rfl⟩ := List.mem_map.mp ho
  exact hroot ▸ List.mem_map_of_mem hop

/-- **Execution refines the transition unless it leaves a zero behind.**  For the converse the
digest has to tell the two final states apart. -/
theorem execute_refines_iff
    (hb : buildTransaction hash operations operationSemanticsRoot tracePolicyRoot = .ok transaction)
    (h : Solvent s operations) (hc : transition sha256 s (effectsOf operations) = .ok canonical)
    (hbound : deriveBound policy canonical = some bound)
    (hlen : (operations.length : ℤ) ≤ bound.value)
    (hsha : sha256 (stateBytes (executed s operations)) = sha256 (stateBytes canonical.stateAfter) →
      stateBytes (executed s operations) = stateBytes canonical.stateAfter) :
    Refines sha256 hash s transaction canonical policy ↔ KeepsNothingNew s operations := by
  obtain ⟨hops, hroots⟩ := buildTransaction_operations hb
  obtain ⟨canonical', hc', heffects, hbefore, hafter, hfind⟩ := transition_spec sha256
    (known_effectsOf operations) h.start (fun root => (netOf_effectsOf operations root).symm ▸ h.final root)
  obtain rfl : canonical' = canonical := Except.ok.inj (hc'.symm.trans hc)
  simp only [netOf_effectsOf] at hfind
  obtain ⟨trace, hrun, hin, hout⟩ := execute_eq hb h hbefore hbound hlen
  have hsame : canonical'.stateAfterRoot = trace.outputRoot ↔ KeepsNothingNew s operations := by
    rw [← executed_same_iff hfind, ← stateBytes_eq_iff, hafter, hout]
    exact ⟨fun he => hsha he.symm, fun he => congrArg sha256 he.symm⟩
  have hnet : Accepts hash canonical' transaction trace netEquivalent ↔
      canonical'.stateAfterRoot = trace.outputRoot := by
    rw [accepts_iff hops hroots heffects (hbefore.trans hin.symm) (Or.inl rfl)]
    exact and_iff_left (Or.inl rfl)
  have hexact : Accepts hash canonical' transaction trace effectExact ↔
      canonical'.stateAfterRoot = trace.outputRoot ∧
        ∀ o ∈ transaction.operations,
          o.quantityRoot ∈ canonical'.effects.map Effect.quantityRoot := by
    have hne : effectExact ≠ netEquivalent := by decide
    rw [accepts_iff hops hroots heffects (hbefore.trans hin.symm) (Or.inr rfl),
      ← sameSet_iff hops heffects]
    exact and_congr_right' (or_iff_right hne)
  constructor
  · rintro ⟨trace', hrun', hroot, _⟩
    obtain rfl : trace' = trace := Except.ok.inj (hrun'.symm.trans hrun)
    exact hsame.mp hroot.symm
  · intro hkeep
    have hroot := hsame.mpr hkeep
    refine ⟨trace, hrun, hroot.symm, hnet.mpr hroot, ?_⟩
    rw [hexact]
    exact and_iff_right hroot

end

/-! ## two transactions -/

/-- the root of a quantity with a last digit of its own -/
def quantity (digit : Char) : String := String.ofList (List.replicate 63 '0' ++ [digit])

def funded : Quantities := ⟨[(quantity '1', 100)], List.nodup_singleton _⟩

def moved : List (String × ℤ) := [(quantity '1', -40), (quantity '2', 40)]

def churned : List (String × ℤ) := [(quantity '1', 1), (quantity '1', -1)]

def policy : TracePolicy := ⟨HostInt.ofInt 2, HostInt.ofInt 2⟩

theorem amount_nonneg {s : Quantities} (h : (s.entries.all fun e => 0 ≤ e.2) = true)
    (root : String) : 0 ≤ s.amount root := by
  unfold Quantities.amount Quantities.find
  cases hf : Table.find s.entries root with
  | none => exact le_rfl
  | some n => exact of_decide_eq_true (List.all_eq_true.mp h _ (Table.mem_of_find hf))

theorem Solvent.nil {s : Quantities} (h : (s.entries.all fun e => 0 ≤ e.2) = true) :
    Solvent s [] := by
  intro n root
  rw [List.take_nil, GroupSum.net_nil, add_zero]
  exact amount_nonneg h root

theorem Solvent.cons {s : Quantities} {o : String × ℤ} {operations : List (String × ℤ)}
    (hs : (s.entries.all fun e => 0 ≤ e.2) = true) (h : Solvent (executed s [o]) operations) :
    Solvent s (o :: operations) := by
  intro n root
  cases n with
  | zero =>
    rw [List.take_zero, GroupSum.net_nil, add_zero]
    exact amount_nonneg hs root
  | succ n =>
    have hn := h n root
    rw [amount_executed, GroupSum.net_cons, GroupSum.net_nil] at hn
    rw [List.take_succ_cons, GroupSum.net_cons]
    omega

theorem execute_refines_moved : ∃ transaction canonical,
    buildTransaction lettersOf moved .null .null = .ok transaction ∧
      transition letters funded (effectsOf moved) = .ok canonical ∧
      (Refines letters lettersOf funded transaction canonical policy ↔
        KeepsNothingNew funded moved) := by
  obtain ⟨transaction, hb⟩ := exists_ok (x := buildTransaction lettersOf moved .null .null)
    (by decide +kernel)
  obtain ⟨canonical, hc⟩ := exists_ok (x := transition letters funded (effectsOf moved))
    (by decide +kernel)
  have hbound : (transition letters funded (effectsOf moved)).toOption.bind (deriveBound policy)
      = some (HostInt.ofInt 6) := by decide +kernel
  rw [hc, Except.toOption, Option.bind_some] at hbound
  refine ⟨transaction, canonical, hb, hc, execute_refines_iff hb ?_ hc hbound ?_ ?_⟩
  · exact Solvent.cons (by decide +kernel)
      (Solvent.cons (by decide +kernel) (Solvent.nil (by decide +kernel)))
  · decide
  · exact fun h => letters_injective h

/-- on an empty state a delta and its opposite leave a zero the transition does not have -/
theorem execute_refines_counterexample : ∃ transaction canonical bound,
    buildTransaction lettersOf churned .null .null = .ok transaction ∧
      Solvent .empty churned ∧
      transition letters .empty (effectsOf churned) = .ok canonical ∧
      deriveBound policy canonical = some bound ∧ (churned.length : ℤ) ≤ bound.value ∧
      ¬ Refines letters lettersOf .empty transaction canonical policy := by
  obtain ⟨transaction, hb⟩ := exists_ok (x := buildTransaction lettersOf churned .null .null)
    (by decide +kernel)
  obtain ⟨canonical, hc⟩ := exists_ok (x := transition letters .empty (effectsOf churned))
    (by decide +kernel)
  have hbound : (transition letters .empty (effectsOf churned)).toOption.bind (deriveBound policy)
      = some (HostInt.ofInt 2) := by decide +kernel
  have hroots : ((buildTransaction lettersOf churned .null .null).toOption.bind fun t =>
      (transition letters .empty (effectsOf churned)).toOption.bind fun c =>
        (execute letters lettersOf .empty t c policy).toOption.map fun trace =>
          decide (trace.outputRoot = c.stateAfterRoot)) = some false := by decide +kernel
  rw [hb, Except.toOption, Option.bind_some, hc, Except.toOption, Option.bind_some] at hroots
  rw [hc, Except.toOption, Option.bind_some] at hbound
  refine ⟨transaction, canonical, _, hb, ?_, hc, hbound, by decide, ?_⟩
  · exact Solvent.cons (by decide +kernel)
      (Solvent.cons (by decide +kernel) (Solvent.nil (by decide +kernel)))
  · rintro ⟨trace, hrun, hroot, _⟩
    rw [hrun, Except.toOption, Option.map_some] at hroots
    exact of_decide_eq_false (Option.some.inj hroots) hroot

end PRF.Transact
