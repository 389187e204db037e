/-! # Where an entry stands in a history

A history grows at its end, and what is said of an entry is said of what came before it.  So a
statement about all entries of a history is shown for each of them at the moment it is added: a
place in the longer history is the new end, or it was there before (`snoc_eq_append_cons`).
-/

namespace Cutover

variable {α : Type}

/-- A place in a list with one more element is the last one, or it was there before. -/
theorem snoc_eq_append_cons {h a b : List α} {d x : α} (he : h ++ [d] = a ++ x :: b) :
    (a = h ∧ x = d ∧ b = []) ∨ ∃ b', b = b' ++ [d] ∧ h = a ++ x :: b' := by
  rcases List.eq_nil_or_concat b with rfl | ⟨b', y, rfl⟩
  · obtain ⟨rfl, hx⟩ := List.append_inj' he rfl
    cases hx
    exact .inl ⟨rfl, rfl, rfl⟩
  · have hs : h ++ [d] = (a ++ x :: b') ++ [y] := by
      rw [he]
      simp
    obtain ⟨hh, hy⟩ := List.append_inj' hs rfl
    cases hy
    exact .inr ⟨b', by simp, hh⟩

/-- Of two places in a list one is in front of the other, or they are the same. -/
theorem append_cons_cases {a b a' b' : List α} {x y : α} (he : a ++ x :: b = a' ++ y :: b') :
    (∃ mid, a' = a ++ x :: mid ∧ b = mid ++ y :: b') ∨ (a = a' ∧ x = y ∧ b = b') ∨
      ∃ mid, a = a' ++ y :: mid ∧ b' = mid ++ x :: b := by
  rcases List.append_eq_append_iff.mp he with ⟨mid, ha, hb⟩ | ⟨mid, ha, hb⟩
  · cases mid with
    | nil =>
      obtain ⟨hxy, hbb⟩ := List.cons.inj hb
      exact .inr (.inl ⟨by simpa using ha.symm, hxy, hbb⟩)
    | cons z mid =>
      obtain ⟨rfl, hbb⟩ := List.cons.inj hb
      exact .inl ⟨mid, ha, hbb⟩
  · cases mid with
    | nil =>
      obtain ⟨hxy, hbb⟩ := List.cons.inj hb
      exact .inr (.inl ⟨by simpa using ha, hxy.symm, hbb.symm⟩)
    | cons z mid =>
      obtain ⟨rfl, hbb⟩ := List.cons.inj hb
      exact .inr (.inr ⟨mid, ha, hbb⟩)

/-- An entry of a list with one more element is the last one, or it was there before. -/
theorem getElem?_snoc_cases {h : List α} {d x : α} {n : Nat} (hx : (h ++ [d])[n]? = some x) :
    h[n]? = some x ∨ n = h.length ∧ x = d := by
  obtain hn | hn | hn := Nat.lt_trichotomy n h.length
  · rw [List.getElem?_append_left hn] at hx
    exact .inl hx
  · subst hn
    rw [List.getElem?_concat_length] at hx
    exact .inr ⟨rfl, (Option.some.inj hx).symm⟩
  · have hnone : (h ++ [d])[n]? = none := by
      rw [List.getElem?_eq_none_iff, List.length_append]
      exact hn
    rw [hnone] at hx
    cases hx

end Cutover
