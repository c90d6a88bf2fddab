import Mathlib.Data.List.Perm.Basic
import Mathlib.Data.List.Nodup
import Mathlib.Tactic

/-!
# One vote a voter

Votes come in some order, some of them twice, and a voter may vote for two things.  A roll holds one
vote of each voter whose votes agree and none of the others.  Which vote it holds of a voter depends
on the order, but not who is on it nor for what.

* `Unanimous votes i`   the votes of `i` are for one thing;
* `Roll votes kept`     what one pass keeps;
* `Roll.first`, `Roll.again`, `Roll.conflict`, `Roll.out`   a roll after one more vote;
* `Roll.perm`           who is on a roll, and for what, is the same for the same set of votes.
-/

namespace Ballot

section
variable {β ι κ : Type*} (voter : β → ι) (choice : β → κ)

/-- the votes of a voter are for one thing -/
def Unanimous (votes : List β) (i : ι) : Prop :=
  ∀ a ∈ votes, ∀ b ∈ votes, voter a = i → voter b = i → choice a = choice b

/-- one vote of each voter whose votes agree -/
structure Roll (votes kept : List β) : Prop where
  cast : ∀ a ∈ kept, a ∈ votes
  once : (kept.map voter).Nodup
  mem_iff : ∀ i, i ∈ kept.map voter ↔ i ∈ votes.map voter ∧ Unanimous voter choice votes i

variable {voter choice} {votes votes' kept kept' : List β} {a b : β} {i : ι}

theorem Unanimous.mono (h : Unanimous voter choice votes i) (hsub : ∀ a ∈ votes', a ∈ votes) :
    Unanimous voter choice votes' i :=
  fun a ha b hb => h a (hsub a ha) b (hsub b hb)

theorem roll_nil : Roll voter choice [] [] :=
  ⟨fun a ha => ha, List.nodup_nil, fun i => by simp⟩

/-- the vote of another voter makes no difference -/
theorem unanimous_other (h : voter a ≠ i) :
    Unanimous voter choice (votes ++ [a]) i ↔ Unanimous voter choice votes i := by
  constructor
  · exact fun hall => hall.mono fun b hb => List.mem_append_left _ hb
  · intro hall b hb c hc hbi hci
    rcases List.mem_append.mp hb with hb | hb
    · rcases List.mem_append.mp hc with hc | hc
      · exact hall b hb c hc hbi hci
      · exact absurd (List.mem_singleton.mp hc ▸ hci) h
    · exact absurd (List.mem_singleton.mp hb ▸ hbi) h

/-- the order of a roll is of no account -/
theorem Roll.of_perm (h : Roll voter choice votes kept) (hperm : kept.Perm kept') :
    Roll voter choice votes kept' where
  cast a ha := h.cast a (hperm.mem_iff.mpr ha)
  once := (hperm.map voter).nodup_iff.mp h.once
  mem_iff i := (hperm.map voter).mem_iff.symm.trans (h.mem_iff i)

/-- a voter on the roll agrees with each of his votes -/
theorem Roll.agrees (h : Roll voter choice votes kept) (ha : a ∈ kept) (hb : b ∈ votes)
    (hvoter : voter b = voter a) : choice b = choice a := by
  have hone := ((h.mem_iff (voter a)).mp (List.mem_map_of_mem ha)).2
  exact hone b hb a (h.cast a ha) hvoter rfl

/-- a first vote is kept -/
theorem Roll.first (h : Roll voter choice votes kept) (hnew : voter a ∉ votes.map voter) :
    Roll voter choice (votes ++ [a]) (kept ++ [a]) where
  cast b hb := by
    rcases List.mem_append.mp hb with hb | hb
    · exact List.mem_append_left _ (h.cast b hb)
    · exact List.mem_append_right _ hb
  once := by
    rw [List.map_append, List.map_singleton, List.nodup_append]
    refine ⟨h.once, List.nodup_singleton _, fun i hi j hj => ?_⟩
    rintro rfl
    rw [List.mem_singleton.mp hj] at hi
    exact hnew ((h.mem_iff _).mp hi).1
  mem_iff i := by
    by_cases hi : voter a = i
    · subst hi
      refine iff_of_true (by simp) ⟨by simp, fun b hb c hc hbi hci => ?_⟩
      have hlast : ∀ d ∈ votes ++ [a], voter d = voter a → d = a := by
        intro d hd hda
        rcases List.mem_append.mp hd with hd | hd
        · exact absurd (hda ▸ List.mem_map_of_mem hd) hnew
        · exact List.mem_singleton.mp hd
      rw [hlast b hb hbi, hlast c hc hci]
    · rw [unanimous_other hi]
      simp [h.mem_iff i, Ne.symm hi]

/-- a vote like the one on the roll changes nothing -/
theorem Roll.again (h : Roll voter choice votes kept) (hb : b ∈ kept) (hvoter : voter a = voter b)
    (hchoice : choice a = choice b) : Roll voter choice (votes ++ [a]) kept where
  cast c hc := List.mem_append_left _ (h.cast c hc)
  once := h.once
  mem_iff i := by
    by_cases hi : voter a = i
    · subst hi
      refine iff_of_true (hvoter ▸ List.mem_map_of_mem hb) ⟨by simp, fun c hc d hd hci hdi => ?_⟩
      have hsame : ∀ e ∈ votes ++ [a], voter e = voter a → choice e = choice b := by
        intro e he hea
        rcases List.mem_append.mp he with he | he
        · exact h.agrees hb he (hea.trans hvoter)
        · rw [List.mem_singleton.mp he, hchoice]
      rw [hsame c hc hci, hsame d hd hdi]
    · rw [unanimous_other hi]
      simp [h.mem_iff i, Ne.symm hi]

/-- the vote of a voter whose votes do not agree changes nothing -/
theorem Roll.out (h : Roll voter choice votes kept) (hseen : voter a ∈ votes.map voter)
    (hout : voter a ∉ kept.map voter) : Roll voter choice (votes ++ [a]) kept where
  cast c hc := List.mem_append_left _ (h.cast c hc)
  once := h.once
  mem_iff i := by
    by_cases hi : voter a = i
    · subst hi
      refine iff_of_false hout fun hboth => hout ((h.mem_iff _).mpr ⟨hseen, ?_⟩)
      exact hboth.2.mono fun b hb => List.mem_append_left _ hb
    · rw [unanimous_other hi]
      simp [h.mem_iff i, Ne.symm hi]

/-- a vote unlike the one on the roll takes the voter off it -/
theorem Roll.conflict [DecidableEq ι] (h : Roll voter choice votes kept) (hb : b ∈ kept)
    (hvoter : voter a = voter b) (hchoice : choice a ≠ choice b) :
    Roll voter choice (votes ++ [a]) (kept.filter fun c => voter c ≠ voter a) where
  cast c hc := List.mem_append_left _ (h.cast c (List.mem_of_mem_filter hc))
  once := (List.filter_sublist.map voter).nodup h.once
  mem_iff i := by
    by_cases hi : voter a = i
    · subst hi
      refine iff_of_false (by simp) fun hboth => hchoice ?_
      exact hboth.2 a (by simp) b (by simp [h.cast b hb]) rfl hvoter.symm
    · have hvotes : i ∈ (votes ++ [a]).map voter ↔ i ∈ votes.map voter := by simp [Ne.symm hi]
      rw [unanimous_other hi, hvotes, ← h.mem_iff i]
      constructor
      · intro hmem
        obtain ⟨c, hc, rfl⟩ := List.mem_map.mp hmem
        exact List.mem_map_of_mem (List.mem_of_mem_filter hc)
      · intro hmem
        obtain ⟨c, hc, rfl⟩ := List.mem_map.mp hmem
        exact List.mem_map_of_mem (List.mem_filter.mpr ⟨hc, by simpa using Ne.symm hi⟩)

/-- a roll has one vote of each voter on it, so one vote goes with him -/
theorem Roll.length_without [DecidableEq ι] (h : Roll voter choice votes kept) (ha : a ∈ kept) :
    (kept.filter fun c => voter c ≠ voter a).length + 1 = kept.length := by
  have hone : kept.countP (fun c => decide (voter c = voter a)) = 1 := by
    rw [← List.count_eq_one_of_mem h.once (List.mem_map_of_mem ha), List.count, List.countP_map]
    apply List.countP_congr
    intro c _
    simp
  have hsplit := List.length_eq_countP_add_countP (fun c => decide (voter c = voter a)) (l := kept)
  have hrest : kept.countP (fun c => decide ¬decide (voter c = voter a) = true)
      = (kept.filter fun c => voter c ≠ voter a).length := by
    rw [List.countP_eq_length_filter]
    simp
  omega

/-- **Who is on a roll, and for what, is the same for the same set of votes.** -/
theorem Roll.perm (h : Roll voter choice votes kept) (h' : Roll voter choice votes' kept')
    (hsame : ∀ a, a ∈ votes ↔ a ∈ votes') :
    (kept.map fun a => (voter a, choice a)).Perm (kept'.map fun a => (voter a, choice a)) := by
  have hnodup : ∀ {kept votes : List β}, Roll voter choice votes kept →
      (kept.map fun a => (voter a, choice a)).Nodup := by
    intro kept votes hroll
    apply List.Nodup.of_map Prod.fst
    rw [List.map_map]
    exact hroll.once
  have hsub : ∀ {kept votes kept' votes' : List β}, Roll voter choice votes kept →
      Roll voter choice votes' kept' → (∀ a, a ∈ votes ↔ a ∈ votes') →
      ∀ p ∈ kept.map fun a => (voter a, choice a), p ∈ kept'.map fun a => (voter a, choice a) := by
    intro kept votes kept' votes' hroll hroll' hsame p hp
    obtain ⟨a, ha, rfl⟩ := List.mem_map.mp hp
    obtain ⟨hcast, hone⟩ := (hroll.mem_iff (voter a)).mp (List.mem_map_of_mem ha)
    obtain ⟨b, hb, hba⟩ := List.mem_map.mp hcast
    have hon : voter a ∈ kept'.map voter := by
      refine (hroll'.mem_iff _).mpr ⟨List.mem_map.mpr ⟨b, (hsame b).mp hb, hba⟩, ?_⟩
      exact hone.mono fun c hc => (hsame c).mpr hc
    obtain ⟨c, hc, hca⟩ := List.mem_map.mp hon
    have hchoice := hroll.agrees ha ((hsame c).mpr (hroll'.cast c hc)) hca
    exact List.mem_map.mpr ⟨c, hc, by rw [hca, hchoice]⟩
  exact (List.perm_ext_iff_of_nodup (hnodup h) (hnodup h')).mpr fun p =>
    ⟨hsub h h' hsame p, hsub h' h (fun a => (hsame a).symm) p⟩

end

end Ballot
