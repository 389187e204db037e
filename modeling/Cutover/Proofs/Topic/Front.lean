import Cutover.Topic
import Mathlib.Order.Bounds.Basic

/-! # The front of a group

A group commits its places in any order and as often as it likes.  What it has committed is a set
(`Group.places`): everything in front of the front, and the places ahead of it.  A commit adds its
place to the set and then moves the front over what is ahead of it, as far as there is no gap
(`places_advance`); so the front is the least place outside of the set (`Tidy.isLeast`), and whoever
knows the set knows the front.
-/

namespace Cutover.Group

/-- The places that a group has committed. -/
def places (g : Group) : Set Nat := {k | k < g.committed ∨ k ∈ g.ahead}

/-- What is ahead lies behind a gap. -/
def Tidy (g : Group) : Prop := ∀ k ∈ g.ahead, g.committed < k

variable {g : Group}

theorem mem_places {k : Nat} : k ∈ g.places ↔ k < g.committed ∨ k ∈ g.ahead := Iff.rfl

theorem places_empty : (⟨0, []⟩ : Group).places = ∅ := by
  ext k
  simp [mem_places]

theorem tidy_empty : (⟨0, []⟩ : Group).Tidy := by
  intro k hk
  cases hk

/-- The front is the least place that has not been committed. -/
theorem Tidy.isLeast (h : g.Tidy) : IsLeast {k | k ∉ g.places} g.committed := by
  constructor
  · rintro (hlt | hahead)
    · exact absurd hlt (Nat.lt_irrefl _)
    · exact absurd (h _ hahead) (Nat.lt_irrefl _)
  · intro k hk
    by_contra hlt
    exact hk (.inl (Nat.lt_of_not_le hlt))

/-- One place taken over by the front is committed as before. -/
theorem places_step (hc : g.committed ∈ g.ahead) :
    (⟨g.committed + 1, g.ahead.filter (· ≠ g.committed)⟩ : Group).places = g.places := by
  ext k
  simp only [mem_places, List.mem_filter, decide_eq_true_eq]
  by_cases hk : k = g.committed
  · subst hk
    simp [hc]
  · have hlt : k < g.committed + 1 ↔ k < g.committed := by omega
    simp [hk, hlt]

/-- **The front moves up to the first gap, and what has been committed stays so**, by induction on
how much is ahead. -/
theorem places_advance {n : Nat} (hn : g.ahead.length ≤ n) (h : ∀ k ∈ g.ahead, g.committed ≤ k) :
    (advance n g).Tidy ∧ (advance n g).places = g.places := by
  induction n generalizing g with
  | zero =>
    have hnil : g.ahead = [] := List.eq_nil_of_length_eq_zero (Nat.le_zero.mp hn)
    refine ⟨?_, rfl⟩
    intro k hk
    rw [advance, hnil] at hk
    cases hk
  | succ n ih =>
    by_cases hc : g.committed ∈ g.ahead
    · rw [advance, if_pos (List.contains_iff_mem.mpr hc)]
      have hshort : (g.ahead.filter (· ≠ g.committed)).length < g.ahead.length := by
        rw [List.length_filter_lt_length_iff_exists]
        exact ⟨g.committed, hc, by simp⟩
      have hbehind : ∀ k ∈ g.ahead.filter (· ≠ g.committed), g.committed + 1 ≤ k := by
        intro k hk
        obtain ⟨hmem, hne⟩ := List.mem_filter.mp hk
        have hle := h k hmem
        have hne : k ≠ g.committed := of_decide_eq_true hne
        omega
      obtain ⟨htidy, hplaces⟩ :=
        ih (g := ⟨g.committed + 1, g.ahead.filter (· ≠ g.committed)⟩)
          (Nat.le_of_lt_succ (Nat.lt_of_lt_of_le hshort hn)) hbehind
      exact ⟨htidy, hplaces.trans (places_step hc)⟩
    · have hstop : ¬ g.ahead.contains g.committed = true := by
        rwa [List.contains_iff_mem]
      rw [advance, if_neg hstop]
      refine ⟨?_, rfl⟩
      intro k hk
      have hle := h k hk
      have hne : k ≠ g.committed := by
        rintro rfl
        exact hc hk
      omega

/-- **A commit adds its place to what has been committed**, whether it is in front of the front, at
it, or ahead of it, and whether it was committed before. -/
theorem Tidy.commit (h : g.Tidy) (k : Nat) :
    (g.commit k).Tidy ∧ (g.commit k).places = insert k g.places := by
  by_cases hfront : k < g.committed
  · rw [Group.commit, if_pos hfront]
    exact ⟨h, (Set.insert_eq_of_mem (show k ∈ g.places from .inl hfront)).symm⟩
  · rw [Group.commit, if_neg hfront]
    have hahead : ∀ j ∈ (if g.ahead.contains k then g.ahead else k :: g.ahead),
        g.committed ≤ j := by
      intro j hj
      split at hj
      · exact Nat.le_of_lt (h j hj)
      · rcases List.mem_cons.mp hj with rfl | hj
        · omega
        · exact Nat.le_of_lt (h j hj)
    have hplaces :
      (⟨g.committed, if g.ahead.contains k then g.ahead else k :: g.ahead⟩ : Group).places =
        insert k g.places := by
      ext j
      rw [Set.mem_insert_iff, mem_places, mem_places]
      split
      · rename_i hin
        constructor
        · exact .inr
        · rintro (rfl | hj)
          · exact .inr (List.contains_iff_mem.mp hin)
          · exact hj
      · simp only [List.mem_cons]
        exact or_left_comm
    obtain ⟨htidy, hsame⟩ := places_advance
      (g := ⟨g.committed, if g.ahead.contains k then g.ahead else k :: g.ahead⟩)
        (Nat.le_refl _) hahead
    exact ⟨htidy, hsame.trans hplaces⟩

end Cutover.Group
