import ProtocolRobustness.Library.Apportion

/-!
# The largest remainder method

An amount is divided over a list of claimants in proportion to their weights.  Each has the floor of
its exact share; the dust goes, one unit each, to the first claimants of a ranking by remainder, in
which equal remainders are ordered by a relation of the caller's choice.

* `ranking`, `winners`   the ranking, and who gets a unit;
* `share`                the floor and the unit;
* `sum_share`            the shares add up to the amount;
* `share_le_weight`      below the total nobody gets more than its weight;
* `ranking_congr`        orders that agree on pairs of the list rank alike;
* `ranking_eq_of_perm`   with an order that separates the claimants, their order in the list is of
                         no account;
* `ranking_map`          the ranking read through a map.
-/

set_option linter.unusedSectionVars false

namespace Hamilton
open Apportion

/-! ## ranking by remainder -/

/-- a sort compares an item with those after it only -/
theorem insertionSort_congr {α : Type*} {r r' : α → α → Prop} [DecidableRel r] [DecidableRel r']
    {l : List α} (h : l.Pairwise fun a b => r a b ↔ r' a b) :
    l.insertionSort r = l.insertionSort r' := by
  induction l with
  | nil => rfl
  | cons a l ih =>
    rw [List.pairwise_cons] at h
    rw [List.insertionSort_cons, List.insertionSort_cons, ih h.2]
    have hmem : ∀ b ∈ l.insertionSort r', (r a b ↔ r' a b) := fun b hb =>
      h.1 b ((List.mem_insertionSort _).mp hb)
    generalize l.insertionSort r' = m at hmem
    induction m with
    | nil => rfl
    | cons b m ihm =>
      rw [List.orderedInsert_cons, List.orderedInsert_cons,
        ihm fun c hc => hmem c (List.mem_cons_of_mem _ hc)]
      exact if_congr (hmem b List.mem_cons_self) rfl rfl

section
variable {α : Type*} (tie : α → α → Prop) (amount total : ℤ) (weight : α → ℤ)

/-- larger remainder first, then the order of ties -/
def rankLe (a b : α) : Prop :=
  remainder amount total weight b < remainder amount total weight a ∨
    remainder amount total weight a = remainder amount total weight b ∧ tie a b

instance [DecidableRel tie] : DecidableRel (rankLe tie amount total weight) := fun _ _ =>
  inferInstanceAs (Decidable (_ ∨ _ ∧ _))

instance [Std.Total tie] : Std.Total (rankLe tie amount total weight) where
  total a b := by
    unfold rankLe
    rcases lt_trichotomy (remainder amount total weight a) (remainder amount total weight b)
      with h | h | h
    · exact Or.inr (Or.inl h)
    · rcases Std.Total.total (r := tie) a b with hb | hb
      · exact Or.inl (Or.inr ⟨h, hb⟩)
      · exact Or.inr (Or.inr ⟨h.symm, hb⟩)
    · exact Or.inl (Or.inl h)

instance [IsTrans α tie] : IsTrans α (rankLe tie amount total weight) where
  trans a b c h h' := by
    unfold rankLe at *
    rcases h with h | ⟨h, hb⟩
    · rcases h' with h' | ⟨h', _⟩
      · exact Or.inl (h'.trans h)
      · exact Or.inl (h' ▸ h)
    · rcases h' with h' | ⟨h', hb'⟩
      · exact Or.inl (h ▸ h')
      · exact Or.inr ⟨h.trans h', IsTrans.trans (r := tie) _ _ _ hb hb'⟩

variable [DecidableRel tie]

def ranking (l : List α) : List α := l.insertionSort (rankLe tie amount total weight)

/-- the first of the ranking, as many as there are units left -/
def winners (l : List α) : List α :=
  (ranking tie amount (l.map weight).sum weight l).take
    (dust amount (l.map weight).sum weight l).toNat

def share [DecidableEq α] (l : List α) (a : α) : ℤ :=
  floorShare amount (l.map weight).sum weight a + if a ∈ winners tie amount weight l then 1 else 0

theorem ranking_perm (l : List α) : (ranking tie amount total weight l).Perm l :=
  List.perm_insertionSort _ _

theorem ranking_pairwise [Std.Total tie] [IsTrans α tie] (l : List α) :
    (ranking tie amount total weight l).Pairwise fun a b =>
      remainder amount total weight b ≤ remainder amount total weight a := by
  refine (List.pairwise_insertionSort (rankLe tie amount total weight) l).imp fun h => ?_
  rcases h with h | ⟨h, _⟩
  · exact h.le
  · exact h.ge

theorem ranking_congr {tie' : α → α → Prop} [DecidableRel tie'] {l : List α}
    (h : l.Pairwise fun a b => tie a b ↔ tie' a b) :
    ranking tie amount total weight l = ranking tie' amount total weight l := by
  refine insertionSort_congr (h.imp fun {a b} e => ?_)
  unfold rankLe
  rw [e]

/-- only the weights of the claimants count -/
theorem ranking_congr_weight {weight' : α → ℤ} {l : List α} (h : ∀ a ∈ l, weight a = weight' a) :
    ranking tie amount total weight l = ranking tie amount total weight' l := by
  refine insertionSort_congr (List.pairwise_of_forall_mem_list fun a ha b hb => ?_)
  unfold rankLe remainder
  rw [h a ha, h b hb]

theorem ranking_eq_of_perm [Std.Total tie] [IsTrans α tie] {l m : List α} (h : l.Perm m)
    (hanti : ∀ a ∈ l, ∀ b ∈ l, tie a b → tie b a → a = b) :
    ranking tie amount total weight l = ranking tie amount total weight m := by
  have hp : (ranking tie amount total weight l).Perm (ranking tie amount total weight m) :=
    ((ranking_perm tie amount total weight l).trans h).trans
      (ranking_perm tie amount total weight m).symm
  refine hp.eq_of_pairwise ?_ (List.pairwise_insertionSort _ l) (List.pairwise_insertionSort _ m)
  intro a b ha hb hab hba
  have ha' := (ranking_perm tie amount total weight l).mem_iff.mp ha
  have hb' := h.mem_iff.mpr ((ranking_perm tie amount total weight m).mem_iff.mp hb)
  rcases hab with hab | ⟨hab, htie⟩
  · rcases hba with hba | ⟨hba, _⟩
    · exact absurd hab hba.not_gt
    · exact absurd hba hab.ne
  · rcases hba with hba | ⟨_, htie'⟩
    · exact absurd hab hba.ne
    · exact hanti a ha' b hb' htie htie'

end

theorem ranking_map {α β : Type*} (tie : α → α → Prop) [DecidableRel tie] (amount total : ℤ)
    (weight : α → ℤ) (f : β → α) (l : List β) :
    (ranking (fun a b => tie (f a) (f b)) amount total (weight ∘ f) l).map f
      = ranking tie amount total weight (l.map f) :=
  List.map_insertionSort _ _ f l fun _ _ _ _ => Iff.rfl

/-! ## winners and shares -/

section
variable {α : Type*} {tie : α → α → Prop} [DecidableRel tie] {amount : ℤ} {weight : α → ℤ}
  {l : List α}

theorem mem_of_mem_winners {a : α} (h : a ∈ winners tie amount weight l) : a ∈ l :=
  (ranking_perm tie amount _ weight l).mem_iff.mp (List.mem_of_mem_take h)

theorem winners_nodup (hl : l.Nodup) : (winners tie amount weight l).Nodup :=
  (List.take_sublist _ _).nodup ((ranking_perm tie amount _ weight l).nodup_iff.mpr hl)

theorem winners_congr {tie' : α → α → Prop} [DecidableRel tie']
    (h : l.Pairwise fun a b => tie a b ↔ tie' a b) :
    winners tie amount weight l = winners tie' amount weight l := by
  unfold winners
  rw [ranking_congr tie amount _ weight h]

theorem share_congr [DecidableEq α] {tie' : α → α → Prop} [DecidableRel tie']
    (h : l.Pairwise fun a b => tie a b ↔ tie' a b) (a : α) :
    share tie amount weight l a = share tie' amount weight l a := by
  unfold share
  rw [winners_congr h]

theorem winners_congr_weight {weight' : α → ℤ} (h : ∀ a ∈ l, weight a = weight' a) :
    winners tie amount weight l = winners tie amount weight' l := by
  have e : (l.map weight).sum = (l.map weight').sum := congrArg List.sum (List.map_congr_left h)
  have e' : dust amount (l.map weight').sum weight l = dust amount (l.map weight').sum weight' l := by
    unfold dust floorShare
    rw [List.map_congr_left fun a ha => by rw [h a ha]]
  unfold winners
  rw [e, e', ranking_congr_weight tie amount _ weight h]

theorem winners_map {β : Type*} (f : β → α) (m : List β) :
    (winners (fun a b => tie (f a) (f b)) amount (weight ∘ f) m).map f
      = winners tie amount weight (m.map f) := by
  unfold winners
  rw [List.map_take, ranking_map]
  unfold dust floorShare
  simp only [List.map_map]
  rfl

/-- a share read through a map that tells the claimants apart -/
theorem share_map {β : Type*} [DecidableEq α] [DecidableEq β] (tie : α → α → Prop) [DecidableRel tie]
    (weight : α → ℤ) (f : β → α) {m : List β}
    (hf : ∀ b ∈ m, ∀ c ∈ m, f b = f c → b = c) {b : β} (hb : b ∈ m) :
    share (fun a b => tie (f a) (f b)) amount (weight ∘ f) m b
      = share tie amount weight (m.map f) (f b) := by
  have hmem : f b ∈ winners tie amount weight (m.map f)
      ↔ b ∈ winners (fun a b => tie (f a) (f b)) amount (weight ∘ f) m := by
    rw [← winners_map]
    constructor
    · intro h
      obtain ⟨c, hc, e⟩ := List.mem_map.mp h
      exact hf c (mem_of_mem_winners hc) b hb e ▸ hc
    · exact fun h => List.mem_map_of_mem h
  unfold share
  rw [if_congr hmem rfl rfl, List.map_map]
  rfl

theorem winners_eq_of_perm [Std.Total tie] [IsTrans α tie] {m : List α} (h : l.Perm m)
    (hanti : ∀ a ∈ l, ∀ b ∈ l, tie a b → tie b a → a = b) :
    winners tie amount weight l = winners tie amount weight m := by
  have e : (l.map weight).sum = (m.map weight).sum := (h.map weight).sum_eq
  have e' : dust amount (l.map weight).sum weight l = dust amount (m.map weight).sum weight m := by
    unfold dust
    rw [e, (h.map (floorShare amount (m.map weight).sum weight)).sum_eq]
  unfold winners
  rw [e', e, ranking_eq_of_perm tie amount _ weight h hanti]

section
variable [Std.Total tie] [IsTrans α tie] (ht : 0 < (l.map weight).sum)
include ht

theorem remainder_pos_of_mem_winners {a : α} (h : a ∈ winners tie amount weight l) :
    0 < remainder amount (l.map weight).sum weight a := by
  refine pos_of_mem_take (ranking_pairwise tie amount _ weight l) _ ?_ a h
  have h1 := dust_le_countP amount weight ht (l := l) rfl
  rw [(ranking_perm tie amount _ weight l).countP_eq]
  omega

theorem length_winners :
    ((winners tie amount weight l).length : ℤ) = dust amount (l.map weight).sum weight l := by
  have h0 := dust_nonneg amount weight ht (l := l) rfl
  have h1 := dust_le_length amount weight ht (l := l) rfl
  unfold winners
  rw [List.length_take, (ranking_perm tie amount _ weight l).length_eq]
  omega

variable [DecidableEq α]

theorem sum_share (hl : l.Nodup) : (l.map (share tie amount weight l)).sum = amount := by
  have hnodup : (winners tie amount weight l).Nodup := winners_nodup hl
  have hunits := sum_units hl hnodup fun a ha => mem_of_mem_winners ha
  have hlen : ((winners tie amount weight l).length : ℤ)
      = dust amount (l.map weight).sum weight l := length_winners ht
  unfold share
  rw [List.sum_map_add, hunits, hlen]
  unfold dust
  omega

omit ht in
theorem floorShare_le_share (a : α) :
    floorShare amount (l.map weight).sum weight a ≤ share tie amount weight l a := by
  unfold share
  split <;> omega

/-- nobody gets more than its weight of an amount below the total -/
theorem share_le_weight (hlt : amount < (l.map weight).sum) {a : α} (hw : 0 ≤ weight a) :
    share tie amount weight l a ≤ weight a := by
  have hdecomp : (l.map weight).sum * floorShare amount (l.map weight).sum weight a
      + remainder amount (l.map weight).sum weight a = amount * weight a :=
    floorShare_add_remainder amount weight a
  have hrem := remainder_nonneg amount weight ht a
  unfold share
  by_cases hmem : a ∈ winners tie amount weight l
  · have hpos := remainder_pos_of_mem_winners ht hmem
    have hlt' : floorShare amount (l.map weight).sum weight a < weight a := by
      by_contra hge
      have h1 : (l.map weight).sum * weight a
          ≤ (l.map weight).sum * floorShare amount (l.map weight).sum weight a :=
        mul_le_mul_of_nonneg_left (not_lt.mp hge) ht.le
      have h2 : amount * weight a ≤ (l.map weight).sum * weight a :=
        mul_le_mul_of_nonneg_right hlt.le hw
      omega
    rw [if_pos hmem]
    omega
  · have hle : floorShare amount (l.map weight).sum weight a ≤ weight a := by
      by_contra hgt
      have h1 : (l.map weight).sum * (weight a + 1)
          ≤ (l.map weight).sum * floorShare amount (l.map weight).sum weight a :=
        mul_le_mul_of_nonneg_left (by omega) ht.le
      have h2 : amount * weight a ≤ (l.map weight).sum * weight a :=
        mul_le_mul_of_nonneg_right hlt.le hw
      rw [mul_add, mul_one] at h1
      omega
    rw [if_neg hmem]
    omega

/-- an amount that covers the total covers every weight -/
theorem weight_le_share (hle : (l.map weight).sum ≤ amount) {a : α} (hw : 0 ≤ weight a) :
    weight a ≤ share tie amount weight l a := by
  refine le_trans ?_ (floorShare_le_share a)
  unfold floorShare
  rw [Int.le_ediv_iff_mul_le ht, mul_comm]
  exact mul_le_mul_of_nonneg_right hle hw

end

end

end Hamilton
