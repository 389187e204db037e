import Mathlib.Data.List.Basic
import Mathlib.Data.List.Induction
import Mathlib.Tactic.Ring
import Cutover.Text.Numeral

/-! # Numerals read back

The decimal text of a number is read as that number.  It is made of digits that spell the number and
do not begin with a zero, unless this is the only one (`exists_digits`).
-/

namespace Cutover.Text

theorem all_isDigit_toDigits (n : Nat) : (Nat.toDigits 10 n).all Char.isDigit = true :=
  List.all_eq_true.mpr fun _ hc => Nat.isDigit_of_mem_toDigits (by decide) (by decide) hc

theorem digitsValue_toDigits (n : Nat) : digitsValue 0 (Nat.toDigits 10 n) = n :=
  Nat.ofDigitChars_ten_toDigits

@[simp] theorem natural?_toDigits (n : Nat) : natural? (Nat.toDigits 10 n) = some n := by
  rw [natural?, if_pos ⟨Nat.toDigits_ne_nil, all_isDigit_toDigits n⟩, digitsValue_toDigits]

@[simp] theorem toList_ofNat (n : Nat) : (ofNat n).toList = Nat.toDigits 10 n :=
  String.toList_ofList

/-! ## What digits spell -/

/-- The number that digits spell. -/
def spelled (ds : List Nat) : Nat := ds.foldl (fun n d => 10 * n + d) 0

/-- Behind other digits these are moved on. -/
theorem foldl_spelled (ds : List Nat) (n : Nat) :
    ds.foldl (fun n d => 10 * n + d) n = n * 10 ^ ds.length + spelled ds := by
  induction ds using List.reverseRecOn with
  | nil => simp [spelled]
  | append_singleton init d ih =>
    have hspelled : spelled (init ++ [d]) = 10 * spelled init + d := by simp [spelled]
    rw [List.foldl_append, ih, hspelled, List.length_append, List.length_singleton, pow_succ]
    simp only [List.foldl_cons, List.foldl_nil]
    ring

theorem spelled_append (ds es : List Nat) :
    spelled (ds ++ es) = spelled ds * 10 ^ es.length + spelled es := by
  unfold spelled
  rw [List.foldl_append, foldl_spelled]
  rfl

theorem spelled_zeros (k : Nat) : spelled (List.replicate k 0) = 0 := by
  induction k with
  | zero => rfl
  | succ k ih =>
    rw [List.replicate_succ', spelled_append, ih]
    rfl

/-- Decimal digits as numbers are written: at least one, and a zero in front only alone. -/
structure IsDecimal (ds : List Nat) : Prop where
  ne_nil : ds ≠ []
  lt : ∀ d ∈ ds, d < 10
  head : ds.head? = some 0 → ds = [0]

/-- Zeros in front or behind are digits too. -/
theorem IsDecimal.lt_of_mem_or_zero {ds : List Nat} (hds : IsDecimal ds) {k d : Nat}
    (hd : d ∈ List.replicate k 0 ∨ d ∈ ds) : d < 10 := by
  rcases hd with hd | hd
  · rw [List.eq_of_mem_replicate hd]
    decide
  · exact hds.lt d hd

/-- The digits in front are digits as they are written. -/
theorem IsDecimal.take {ds : List Nat} (hds : IsDecimal ds) {k : Nat} (hk : 0 < k) :
    IsDecimal (ds.take k) where
  ne_nil := by simp [hds.ne_nil, hk.ne']
  lt d hd := hds.lt d (List.mem_of_mem_take hd)
  head hhead := by
    rw [List.head?_take, if_neg hk.ne'] at hhead
    rw [hds.head hhead, List.take_of_length_le hk]

/-- The text of a natural number is made of its digits. -/
theorem exists_digits (n : Nat) :
    ∃ ds, IsDecimal ds ∧ spelled ds = n ∧ Nat.toDigits 10 n = ds.map Nat.digitChar := by
  induction n using Nat.strongRecOn with
  | _ n ih =>
    by_cases hn : n < 10
    · refine ⟨[n], ⟨List.cons_ne_nil _ _, ?_, ?_⟩, ?_, Nat.toDigits_of_lt_base hn⟩
      · simpa using hn
      · simp
      · simp [spelled]
    · have hpos : 0 < n / 10 := Nat.div_pos (Nat.le_of_not_lt hn) (by decide)
      obtain ⟨ds, hds, hspelled, htext⟩ := ih (n / 10) (Nat.div_lt_self (by omega) (by decide))
      -- a number that is not zero has no zero in front
      have hhead : ds.head? ≠ some 0 := by
        intro hzero
        rw [hds.head hzero] at hspelled
        have : (0 : Nat) = n / 10 := hspelled
        omega
      refine ⟨ds ++ [n % 10], ⟨by simp, ?_, ?_⟩, ?_, ?_⟩
      · intro d hd
        rcases List.mem_append.mp hd with hd | hd
        · exact hds.lt d hd
        · rw [List.mem_singleton.mp hd]
          exact Nat.mod_lt _ (by decide)
      · intro hzero
        rw [List.head?_append_of_ne_nil _ hds.ne_nil] at hzero
        exact absurd hzero hhead
      · rw [spelled_append, hspelled]
        show n / 10 * 10 ^ 1 + (10 * 0 + n % 10) = n
        omega
      · rw [Nat.toDigits_of_base_le (by decide) (Nat.le_of_not_lt hn), htext, List.map_append]
        rfl

theorem isDigit_digitChar {d : Nat} (hd : d < 10) :
    (Nat.digitChar d).isDigit = true ∧ digitValue (Nat.digitChar d) = d := by
  have hall : ∀ d < 10, (Nat.digitChar d).isDigit = true ∧ digitValue (Nat.digitChar d) = d := by
    decide
  exact hall d hd

end Cutover.Text
