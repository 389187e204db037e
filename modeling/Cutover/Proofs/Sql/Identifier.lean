import Cutover.TableSpec

/-! # The grammar of identifiers

The test of a name reads it once, from left to right.  Here the grammar is told without a reading:
parts joined by points, each an ASCII letter or underscore followed by ASCII letters, digits and
underscores (`IsDotted`); and the test accepts exactly these names (`isValid_iff`).
-/

namespace Cutover
namespace Identifier

/-- An ASCII letter or the underscore. -/
def IsLetter (c : Char) : Prop := 'A' ≤ c ∧ c ≤ 'Z' ∨ 'a' ≤ c ∧ c ≤ 'z' ∨ c = '_'

/-- An ASCII digit. -/
def IsFigure (c : Char) : Prop := '0' ≤ c ∧ c ≤ '9'

/-- A letter, then letters and digits. -/
def IsPart (s : String) : Prop :=
  ∃ c r, s.toList = c :: r ∧ IsLetter c ∧ ∀ d ∈ r, IsLetter d ∨ IsFigure d

/-- One or more parts with points between them. -/
def IsDotted (s : String) : Prop :=
  ∃ parts : List String, parts ≠ [] ∧ (∀ p ∈ parts, IsPart p) ∧ s = ".".intercalate parts

theorem isHead_iff {c : Char} : isHead c = true ↔ IsLetter c := by
  have halpha : c.isAlpha =
      (decide ('A' ≤ c ∧ c ≤ 'Z') || (decide ('a' ≤ c) && decide (c ≤ 'z'))) := rfl
  simp [isHead, halpha, IsLetter, or_assoc]

theorem isTail_iff {c : Char} : isTail c = true ↔ IsLetter c ∨ IsFigure c := by
  have htail : isTail c = (isHead c || c.isDigit) := by
    rw [isTail, isHead, Char.isAlphanum, Bool.or_right_comm]
  rw [htail, Bool.or_eq_true, isHead_iff, IsFigure]
  simp [Char.isDigit, Char.le_def]

theorem ne_point {c : Char} (h : IsLetter c ∨ IsFigure c) : c ≠ '.' := by
  rintro rfl
  exact absurd (isTail_iff.mpr h) (by decide)

/-- What may follow the first letter of a name: the rest of its part, and further parts behind
points. -/
def Continues (l : List Char) : Prop :=
  ∃ (r : List Char) (parts : List String), (∀ d ∈ r, IsLetter d ∨ IsFigure d) ∧
    (∀ p ∈ parts, IsPart p) ∧ l = r ++ parts.flatMap ('.' :: ·.toList)

/-- A name is a letter and what may follow it. -/
theorem isDotted_iff {s : String} :
    IsDotted s ↔ ∃ c l, s.toList = c :: l ∧ IsLetter c ∧ Continues l := by
  have hjoin : ∀ (p : String) parts,
      (".".intercalate (p :: parts)).toList = p.toList ++ parts.flatMap ('.' :: ·.toList) := by
    intro p parts
    induction parts generalizing p with
    | nil => simp
    | cons q parts ih =>
      rw [String.intercalate_cons_cons, String.toList_append, ih]
      simp
  constructor
  · rintro ⟨_ | ⟨p, parts⟩, hne, hall, rfl⟩
    · exact absurd rfl hne
    · obtain ⟨⟨c, r, hp, hc, hr⟩, hparts⟩ := List.forall_mem_cons.mp hall
      exact ⟨c, r ++ parts.flatMap ('.' :: ·.toList), by rw [hjoin, hp, List.cons_append], hc, r,
        parts, hr, hparts, rfl⟩
  · rintro ⟨c, _, hs, hc, r, parts, hr, hparts, rfl⟩
    have hhead : IsPart (String.ofList (c :: r)) := ⟨c, r, String.toList_ofList, hc, hr⟩
    refine ⟨String.ofList (c :: r) :: parts, List.cons_ne_nil _ _,
      List.forall_mem_cons.mpr ⟨hhead, hparts⟩, String.toList_inj.mp ?_⟩
    rw [hjoin, hs, String.toList_ofList, List.cons_append]

theorem continues_cons_iff {c : Char} {l : List Char} :
    Continues (c :: l) ↔
      c = '.' ∧ IsDotted (String.ofList l) ∨ (IsLetter c ∨ IsFigure c) ∧ Continues l := by
  simp only [isDotted_iff, String.toList_ofList]
  constructor
  · rintro ⟨_ | ⟨d, r⟩, parts, hr, hparts, hl⟩
    · -- nothing is left of the part, so the next one begins
      cases parts with
      | nil => cases hl
      | cons p parts =>
        obtain ⟨⟨b, r, hp, hb, hr⟩, hparts⟩ := List.forall_mem_cons.mp hparts
        rw [List.nil_append, List.flatMap_cons, List.cons_append, List.cons.injEq, hp] at hl
        exact .inl ⟨hl.1, b, _, hl.2, hb, r, parts, hr, hparts, rfl⟩
    · rw [List.cons_append, List.cons.injEq] at hl
      obtain ⟨rfl, rfl⟩ := hl
      obtain ⟨hd, hr⟩ := List.forall_mem_cons.mp hr
      exact .inr ⟨hd, r, parts, hr, hparts, rfl⟩
  · rintro (⟨rfl, b, _, rfl, hb, r, parts, hr, hparts, rfl⟩ | ⟨hc, r, parts, hr, hparts, rfl⟩)
    · have hpart : IsPart (String.ofList (b :: r)) := ⟨b, r, String.toList_ofList, hb, hr⟩
      exact ⟨[], String.ofList (b :: r) :: parts, nofun, List.forall_mem_cons.mpr ⟨hpart, hparts⟩,
        by simp⟩
    · exact ⟨c :: r, parts, List.forall_mem_cons.mpr ⟨hc, hr⟩, hparts, rfl⟩

/-- The reading of a name follows its grammar, at the beginning of a part and within one. -/
theorem wellFormedFrom_iff {l : List Char} :
    (wellFormedFrom true l = true ↔ IsDotted (String.ofList l)) ∧
      (wellFormedFrom false l = true ↔ Continues l) := by
  induction l with
  | nil =>
    refine ⟨⟨nofun, fun h => ?_⟩, ⟨fun _ => ⟨[], [], nofun, nofun, rfl⟩, fun _ => rfl⟩⟩
    obtain ⟨c, l, hl, -⟩ := isDotted_iff.mp h
    cases hl
  | cons c l ih =>
    constructor
    · rw [wellFormedFrom, Bool.and_eq_true, isHead_iff, ih.2, isDotted_iff, String.toList_ofList]
      constructor
      · exact fun h => ⟨c, l, rfl, h⟩
      · rintro ⟨_, _, ⟨⟩, h⟩
        exact h
    · rw [wellFormedFrom, continues_cons_iff]
      by_cases hc : c = '.'
      · have hletter : ¬ (IsLetter c ∨ IsFigure c) := fun h => ne_point h hc
        simp [hc, ih.1, hc ▸ hletter]
      · simp [hc, isTail_iff, ih.2]

/-- **A name is accepted exactly when it follows the grammar.** -/
theorem isValid_iff {s : String} : isValid s = true ↔ IsDotted s := by
  rw [isValid, wellFormedFrom_iff.1, String.ofList_toList]

end Identifier

theorem checkIdentifier_eq_ok_iff {s : String} :
    checkIdentifier s = .ok () ↔ Identifier.IsDotted s := by
  rw [← Identifier.isValid_iff, checkIdentifier]
  split <;> simp_all

/-- There is a table of given names exactly when each of them follows the grammar. -/
theorem TableSpec.exists_ofNames_iff {name idColumn utimeColumn : String} :
    (∃ t, TableSpec.ofNames name idColumn utimeColumn = .ok t) ↔
      Identifier.IsDotted name ∧ Identifier.IsDotted idColumn ∧
      Identifier.IsDotted utimeColumn := by
  simp only [← Identifier.isValid_iff, ofNames]
  constructor
  · rintro ⟨t, h⟩
    split at h
    · rename_i hn
      split at h
      · rename_i hi
        split at h
        · rename_i hu
          exact ⟨hn, hi, hu⟩
        · cases h
      · cases h
    · cases h
  · rintro ⟨hn, hi, hu⟩
    simp [hn, hi, hu]

end Cutover
