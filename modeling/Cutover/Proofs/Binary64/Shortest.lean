import Mathlib.Data.Nat.Cast.Order.Field
import Cutover.Binary64.Shortest
import Cutover.Proofs.Binary64.Arithmetic

/-! # The shortest decimal reads back

The decimal that is written for a finite double is rounded to this double again (`rounds_shortest`),
for two reasons.  What is taken from a grid lies in the interval of the reals that round to the
double (`Interval.holds_onGrid`, `rounds_of_holds`), and one grid is fine enough to meet the
interval: of seventeen digits, the step is smaller than the interval, since ten to the sixteen is
more than two to the fifty-three (`Interval.exists_onGrid`).
-/

namespace Cutover
namespace Binary64

/-! ## Decimals -/

/-- The number that a decimal stands for. -/
def Decimal.value (x : Decimal) : ℚ := x.digits * 10 ^ x.exponent

/-- Zeros at the end do not count. -/
theorem Decimal.value_stripZeros (fuel : ℕ) (x : Decimal) :
    (x.stripZeros fuel).value = x.value := by
  induction fuel generalizing x with
  | zero => rfl
  | succ fuel ih =>
    unfold stripZeros
    split
    · rename_i hzero
      have hdigits : x.digits = x.digits / 10 * 10 := by omega
      have hvalue : (x.digits : ℚ) = (x.digits / 10 : ℕ) * 10 := by exact_mod_cast hdigits
      rw [ih]
      unfold value
      rw [hvalue, zpow_add₀ (by norm_num), zpow_one]
      ring
    · rfl

/-! ## The place of the decimal point -/

theorem le_shortfall {fuel n d : ℕ} (h : d ≤ n * 10 ^ fuel) : d ≤ n * 10 ^ shortfall fuel n d := by
  induction fuel generalizing n with
  | zero => exact h
  | succ fuel ih =>
    unfold shortfall
    split
    · have hrest : d ≤ n * 10 * 10 ^ fuel := by
        rw [Nat.mul_assoc, ← Nat.pow_succ']
        exact h
      rw [Nat.pow_succ', ← Nat.mul_assoc]
      exact ih hrest
    · rename_i hge
      simpa using hge

/-- A positive number has as many digits as the power of ten below it says. -/
theorem pow_length_toDigits_le {n : ℕ} (hn : 0 < n) :
    10 ^ ((Nat.toDigits 10 n).length - 1) ≤ n := by
  by_cases hone : (Nat.toDigits 10 n).length - 1 = 0
  · rw [hone, Nat.pow_zero]
    exact hn
  · by_contra hlt
    have hle := (Nat.length_toDigits_le_iff (by decide : 1 < 10) (Nat.pos_of_ne_zero hone)).mpr
      (not_le.mp hlt)
    omega

/-- **The first digit stands at the decimal point or behind it.** -/
theorem zpow_decimalPoint_le {n d : ℕ} (hd : 0 < d) (hn : 0 < n) (hfuel : d ≤ n * 10 ^ 400) :
    (10 : ℚ) ^ (decimalPoint n d - 1) ≤ n / d := by
  have hd' : (0 : ℚ) < d := by exact_mod_cast hd
  unfold decimalPoint
  split
  · rename_i hle
    have hpos : 0 < n / d := Nat.div_pos hle hd
    have hlength : 0 < (Nat.toDigits 10 (n / d)).length := Nat.length_toDigits_pos
    have hexponent : ((Nat.toDigits 10 (n / d)).length : ℤ) - 1 =
        ((Nat.toDigits 10 (n / d)).length - 1 : ℕ) := by
      omega
    rw [hexponent, zpow_natCast]
    calc (10 : ℚ) ^ ((Nat.toDigits 10 (n / d)).length - 1) ≤ (n / d : ℕ) := by
          exact_mod_cast pow_length_toDigits_le hpos
      _ ≤ n / d := Nat.cast_div_le
  · have hle := le_shortfall hfuel
    have hexponent : (1 - (shortfall 400 n d : ℤ)) - 1 = -(shortfall 400 n d : ℤ) := by ring
    rw [hexponent, zpow_neg, zpow_natCast, inv_le_comm₀ (by positivity) (by positivity), inv_div,
      div_le_iff₀ (by exact_mod_cast hn), mul_comm]
    exact_mod_cast hle

/-! ## The interval -/

namespace Interval

/-- A number lies in the interval. -/
def Holds (i : Interval) (q : ℚ) : Prop :=
  if i.closed then i.low ≤ q ∧ q ≤ i.high else i.low < q ∧ q < i.high

theorem contains_iff (i : Interval) {f : ℕ} (hf : 0 < f) (d c : ℕ) :
    i.contains f d c = true ↔ i.Holds (c * d / f) := by
  have hf' : (0 : ℚ) < f := by exact_mod_cast hf
  unfold contains Holds
  cases i.closed with
  | true =>
    rw [if_pos rfl, if_pos rfl, Bool.and_eq_true, decide_eq_true_iff, decide_eq_true_iff,
      le_div_iff₀ hf', div_le_iff₀ hf']
    exact_mod_cast Iff.rfl
  | false =>
    rw [if_neg Bool.false_ne_true, if_neg Bool.false_ne_true, Bool.and_eq_true, decide_eq_true_iff,
      decide_eq_true_iff, lt_div_iff₀ hf', div_lt_iff₀ hf']
    exact_mod_cast Iff.rfl

theorem Holds.of_lt {i : Interval} {q : ℚ} (hlow : i.low < q) (hhigh : q < i.high) : i.Holds q := by
  unfold Holds
  split
  · exact ⟨hlow.le, hhigh.le⟩
  · exact ⟨hlow, hhigh⟩

/-! ## Grids -/

theorem pow_toNat_ratio (t : ℤ) : ((10 ^ t.toNat : ℕ) : ℚ) / (10 ^ (-t).toNat : ℕ) = 10 ^ t := by
  push_cast
  rcases le_total 0 t with ht | ht
  · obtain ⟨j, rfl⟩ := Int.eq_ofNat_of_zero_le ht
    simp
  · obtain ⟨j, hj⟩ := Int.eq_ofNat_of_zero_le (neg_nonneg.mpr ht)
    obtain rfl : t = -j := by omega
    simp

/-- The step of a grid, in units of `2 ^ unit`. -/
theorem step_ratio (unit t : ℤ) :
    ((Nat.pow 10 t.toNat <<< (-unit).toNat : ℕ) : ℚ) / (Nat.pow 10 (-t).toNat <<< unit.toNat : ℕ) =
      10 ^ t / 2 ^ unit := by
  have hratio := shifted_ratio (10 ^ t.toNat) (10 ^ (-t).toNat) (-unit)
  rw [neg_neg, pow_toNat_ratio, zpow_neg, ← div_eq_mul_inv] at hratio
  exact hratio

section
variable {i : Interval} {tie : Tie} {unit t : ℤ}

/-- What is taken from a grid is one of the two neighbours that lies in the interval. -/
theorem onGrid_eq_some {x : Decimal} (h : i.onGrid tie unit t = some x) :
    x.exponent = t ∧ i.Holds (x.value / 2 ^ unit) := by
  unfold onGrid at h
  extract_lets f d below r nearer at h
  have hf : 0 < f := shiftLeft_pos (Nat.pow_pos (by decide)) _
  have hlies : ∀ c : ℕ, i.contains f d c = true →
      i.Holds ((⟨c, t⟩ : Decimal).value / 2 ^ unit) := by
    intro c hc
    have hholds := (i.contains_iff hf d c).mp hc
    have hstep : (d : ℚ) / f = 10 ^ t / 2 ^ unit := step_ratio unit t
    rwa [mul_div_assoc, hstep, ← mul_div_assoc] at hholds
  have hnearer : nearer = below ∨ nearer = below + 1 := by
    dsimp only [nearer]
    split_ifs
    · exact .inl rfl
    · exact .inr rfl
    · cases tie with
      | up => exact .inr rfl
      | toEven =>
        show below + below % 2 = below ∨ below + below % 2 = below + 1
        omega
  split at h
  · rename_i hbelow habove
    obtain rfl := Option.some.inj h
    refine ⟨rfl, hlies _ ?_⟩
    rcases hnearer with hnearer | hnearer <;> rw [hnearer] <;> assumption
  · rename_i hbelow _
    obtain rfl := Option.some.inj h
    exact ⟨rfl, hlies _ hbelow⟩
  · rename_i _ habove
    obtain rfl := Option.some.inj h
    exact ⟨rfl, hlies _ habove⟩
  · cases h

/-- **A grid whose step is smaller than the interval meets it**: one of the two neighbours is no
further off than half a step. -/
theorem exists_onGrid {r : ℚ} (hlow : (i.low : ℚ) + r ≤ i.mid) (hhigh : (i.mid : ℚ) + r ≤ i.high)
    (hstep : (10 : ℚ) ^ t / 2 ^ unit < 2 * r) : ∃ x, i.onGrid tie unit t = some x := by
  unfold onGrid
  extract_lets f d below s nearer
  have hf : 0 < f := shiftLeft_pos (Nat.pow_pos (by decide)) _
  have hd : 0 < d := shiftLeft_pos (Nat.pow_pos (by decide)) _
  have hf' : (0 : ℚ) < f := by exact_mod_cast hf
  have hlies : ∀ c : ℕ, i.Holds (c * (d / f)) → i.contains f d c = true := by
    intro c hc
    rw [← mul_div_assoc] at hc
    exact (i.contains_iff hf d c).mpr hc
  -- the middle lies between the two
  have hfloor : d * below ≤ i.mid * f := Nat.mul_div_le _ _
  have hceil : i.mid * f < d * (below + 1) := Nat.lt_mul_div_succ _ hd
  have hbelow : (below : ℚ) * (d / f) ≤ i.mid := by
    rw [← mul_div_assoc, div_le_iff₀ hf', mul_comm]
    exact_mod_cast hfloor
  have habove : (i.mid : ℚ) < (below + 1 : ℕ) * (d / f) := by
    rw [← mul_div_assoc, lt_div_iff₀ hf', mul_comm ((below + 1 : ℕ) : ℚ)]
    exact_mod_cast hceil
  have hratio : (d : ℚ) / f < 2 * r := (step_ratio unit t).trans_lt hstep
  have hapart : ((below + 1 : ℕ) : ℚ) * (d / f) = below * (d / f) + d / f := by
    push_cast
    ring
  have hsome : i.contains f d below = true ∨ i.contains f d (below + 1) = true := by
    rcases le_total ((i.mid : ℚ) - below * (d / f)) (d / f / 2) with hnear | hfar
    · exact .inl (hlies below (.of_lt (by linarith) (by linarith)))
    · exact .inr (hlies (below + 1) (.of_lt (by linarith) (by linarith)))
  split
  · exact ⟨_, rfl⟩
  · exact ⟨_, rfl⟩
  · exact ⟨_, rfl⟩
  · rename_i hno hno'
    rcases hsome with h | h
    · exact absurd (hno.symm.trans h) Bool.false_ne_true
    · exact absurd (hno'.symm.trans h) Bool.false_ne_true

end

end Interval

/-! ## The interval of a double -/

section
variable {m : ℕ} (hpos : 0 < m) (e : ℤ)
include hpos

/-- Below a power of two the interval ends at a quarter of the last place, elsewhere in the
middle. -/
theorem interval_low :
    ((interval m e).low : ℚ) = if m = 2 ^ 52 ∧ -1074 < e then 4 * (m : ℚ) - 1
      else 4 * (m : ℚ) - 2 := by
  have hpower : (1 <<< 52 : ℕ) = 2 ^ 52 := rfl
  rw [interval, hpower]
  dsimp only
  split
  · rw [Nat.cast_sub (by omega)]
    push_cast
    ring
  · rw [Nat.cast_sub (by omega)]
    push_cast
    ring

theorem interval_low_ge : 4 * (m : ℚ) - 2 ≤ (interval m e).low := by
  rw [interval_low hpos]
  split <;> linarith

end

theorem interval_high (m : ℕ) (e : ℤ) : ((interval m e).high : ℚ) = 4 * m + 2 := by
  show ((4 * m + 2 : ℕ) : ℚ) = _
  push_cast
  ring

theorem Interval.Holds.le {i : Interval} {q : ℚ} (h : i.Holds q) : i.low ≤ q ∧ q ≤ i.high := by
  unfold Interval.Holds at h
  split at h
  · exact h
  · exact ⟨h.1.le, h.2.le⟩

/-- **What lies in the interval is nearest to the middle.** -/
theorem isNearest_of_holds {m : ℕ} (hpos : 0 < m) {e : ℤ} {q : ℚ} (h : (interval m e).Holds q) :
    IsNearest (q / 4) m := by
  have hlow := interval_low_ge hpos e
  have hhigh := interval_high m e
  constructor
  · obtain ⟨hge, hle⟩ := h.le
    rw [abs_le]
    constructor <;> linarith
  · intro hhalf
    by_contra hodd
    -- the ends of the interval of an odd number do not belong to it
    have hopen : (interval m e).closed = false := decide_eq_false hodd
    rw [Interval.Holds, hopen, if_neg Bool.false_ne_true] at h
    have hlt : |q / 4 - m| < 1 / 2 := by
      rw [abs_lt]
      constructor <;> linarith
    exact hlt.ne hhalf

/-- **What lies in the interval of a double is rounded to this double.**  The lower half of the
interval of a power of two has the spacing of the place below. -/
theorem rounds_of_holds {m j : ℕ} (hpos : 0 < m) (hm : m < 2 ^ 53) (hplace : j = 0 ∨ 2 ^ 52 ≤ m)
    {q : ℚ} (h : (interval m (j - 1074)).Holds q) : Rounds (q / 4 * 2 ^ j) (j * 2 ^ 52 + m) := by
  have hnearest := isNearest_of_holds hpos h
  obtain ⟨hlow, hhigh⟩ := h.le
  rw [interval_high] at hhigh
  have hm' : (m : ℚ) + 1 ≤ 2 ^ 53 := by exact_mod_cast hm
  have hbelow : q / 4 * 2 ^ j < 2 ^ (j + 53) := by
    rw [pow_add, mul_comm]
    gcongr
    linarith
  by_cases hcrosses : q / 4 < 2 ^ 52 ∧ 0 < j
  · obtain ⟨hless, hj⟩ := hcrosses
    have hpower : m = 2 ^ 52 := by
      have hge := interval_low_ge hpos (j - 1074)
      have hle : (m : ℚ) < 2 ^ 52 + 1 := by linarith
      have hle' : m < 2 ^ 52 + 1 := by exact_mod_cast hle
      omega
    rw [interval_low hpos, if_pos ⟨hpower, by omega⟩] at hlow
    obtain ⟨k, rfl⟩ : ∃ k, j = k + 1 := ⟨j - 1, by omega⟩
    subst hpower
    push_cast at hlow
    have hscale : q / 4 * 2 ^ (k + 1) = q / 2 * 2 ^ k := by ring
    rw [hscale]
    refine ⟨k, 2 ^ 53, by ring, ?_, .inr ?_, ?_⟩
    · rw [pow_add, mul_comm]
      gcongr
      linarith
    · rw [pow_add, mul_comm]
      gcongr
      linarith
    · rw [mul_div_cancel_right₀ _ (by positivity)]
      refine ⟨?_, fun _ => rfl⟩
      push_cast
      rw [abs_le]
      constructor <;> linarith
  · refine ⟨j, m, rfl, hbelow, ?_, ?_⟩
    · by_cases hj : j = 0
      · exact .inl hj
      · refine .inr ?_
        rw [pow_add, mul_comm]
        gcongr
        exact not_lt.mp fun hless => hcrosses ⟨hless, Nat.pos_of_ne_zero hj⟩
    · rw [mul_div_cancel_right₀ _ (by positivity)]
      exact hnearest

/-! ## The shortest decimal -/

theorem two_pow_le_ten_pow {k n : ℕ} (h : k ≤ 3 * n) : 2 ^ k ≤ 10 ^ n :=
  calc 2 ^ k ≤ 2 ^ (3 * n) := Nat.pow_le_pow_right two_pos h
    _ = (2 ^ 3) ^ n := pow_mul 2 3 n
    _ ≤ 10 ^ n := Nat.pow_le_pow_left (by decide) n

section
variable {m j : ℕ} (hpos : 0 < m) (hm : m < 2 ^ 53) (tie : Tie)
include hpos

/-- The place of the decimal point that is found for a double. -/
theorem zpow_point_le :
    (10 : ℚ) ^ (decimalPoint ((4 * m) <<< ((j - 1074 : ℤ) - 2).toNat)
      (1 <<< (-((j - 1074 : ℤ) - 2)).toNat) - 1) ≤ 4 * m * 2 ^ ((j - 1074 : ℤ) - 2) := by
  have hmid : 0 < 4 * m := by omega
  have hratio := shifted_ratio (4 * m) 1 ((j - 1074 : ℤ) - 2)
  rw [Nat.cast_one, div_one] at hratio
  push_cast at hratio
  rw [← hratio]
  refine zpow_decimalPoint_le (shiftLeft_pos one_pos _) (shiftLeft_pos hmid _) ?_
  calc 1 <<< (-((j - 1074 : ℤ) - 2)).toNat = 2 ^ (-((j - 1074 : ℤ) - 2)).toNat :=
    Nat.one_shiftLeft _
    _ ≤ 10 ^ 400 := two_pow_le_ten_pow (by omega)
    _ ≤ (4 * m) <<< ((j - 1074 : ℤ) - 2).toNat * 10 ^ 400 :=
      Nat.le_mul_of_pos_left _ (shiftLeft_pos hmid _)

include hm

/-- **The grid of seventeen digits meets the interval.** -/
theorem exists_onGrid_seventeen {t : ℤ}
    (ht : (10 : ℚ) ^ (t + 16) ≤ 4 * m * 2 ^ ((j - 1074 : ℤ) - 2)) :
    ∃ x, (interval m (j - 1074)).onGrid tie ((j - 1074 : ℤ) - 2) t = some x := by
  have hm' : (m : ℚ) < 2 ^ 53 := by exact_mod_cast hm
  have hunit : (0 : ℚ) < 2 ^ ((j - 1074 : ℤ) - 2) := by positivity
  have hmid : ((interval m (j - 1074)).mid : ℚ) = 4 * m := by
    show ((4 * m : ℕ) : ℚ) = 4 * m
    push_cast
    rfl
  have hstep : (10 : ℚ) ^ t / 2 ^ ((j - 1074 : ℤ) - 2) ≤ 4 * m / 10 ^ 16 := by
    rw [div_le_div_iff₀ hunit (by positivity)]
    rw [zpow_add₀ (by norm_num)] at ht
    exact_mod_cast ht
  by_cases hpower : m = 2 ^ 52 ∧ -1074 < (j - 1074 : ℤ)
  · apply Interval.exists_onGrid (r := 1)
    · rw [interval_low hpos, if_pos hpower, hmid]
      linarith
    · rw [interval_high, hmid]
      linarith
    · refine hstep.trans_lt ?_
      rw [hpower.1]
      norm_num
  · apply Interval.exists_onGrid (r := 2)
    · rw [interval_low hpos, if_neg hpower, hmid]
      linarith
    · rw [interval_high, hmid]
    · refine hstep.trans_lt ?_
      rw [div_lt_iff₀ (by positivity)]
      linarith

/-- **The shortest decimal lies in the interval.** -/
theorem holds_shortestOf :
    (interval m (j - 1074)).Holds
    ((shortestOf tie m (j - 1074)).value / 2 ^ ((j - 1074 : ℤ) - 2)) := by
  unfold shortestOf
  extract_lets i unit point found
  have hpoint : (10 : ℚ) ^ (point - 1) ≤ 4 * m * 2 ^ unit := zpow_point_le hpos
  obtain ⟨x, hx⟩ : ∃ x, found = some x := by
    by_contra hnone
    have hall :=
      List.findSome?_eq_none_iff.mp (Option.eq_none_iff_forall_ne_some.mpr (not_exists.mp hnone))
    have hexponent : point - 17 + 16 = point - 1 := by ring
    obtain ⟨x, hx⟩ := exists_onGrid_seventeen hpos hm tie (hexponent ▸ hpoint)
    have hsixteen := hall 16 (by simp)
    exact absurd (hsixteen.symm.trans hx) nofun
  obtain ⟨n, -, hn⟩ := List.exists_of_findSome?_eq_some hx
  rw [hx, Option.getD_some, Decimal.value_stripZeros]
  exact (Interval.onGrid_eq_some hn).2

end

/-! ## Doubles of either sign -/

/-- The word of a double without its sign. -/
def magnitude (x : Binary64) : ℕ := x.exponentField * 2 ^ 52 + x.fraction

section
variable (x : Binary64)

theorem exponentField_eq : x.exponentField = x.bits.toNat / 2 ^ 52 % 2 ^ 11 := by
  rw [exponentField, Nat.shiftRight_eq_div_pow]
  rfl

theorem fraction_lt : x.fraction < 2 ^ 52 := Nat.mod_lt _ (by decide)

/-- A double is given by its sign and its magnitude. -/
theorem eq_signed : x = signed x.isNegative x.magnitude := by
  have hlt := x.bits.toNat_lt
  have hfield := x.exponentField_eq
  have hfraction : x.fraction = x.bits.toNat % 2 ^ 52 := rfl
  have hbits : x.bits.toNat = if x.isNegative then x.magnitude + (1 <<< 63) else x.magnitude := by
    unfold magnitude
    by_cases hsign : 2 ^ 63 ≤ x.bits.toNat
    · have hnegative : x.isNegative = true := decide_eq_true hsign
      rw [hnegative, if_pos rfl]
      omega
    · have hnegative : x.isNegative = false := decide_eq_false hsign
      rw [hnegative, if_neg Bool.false_ne_true]
      omega
  rw [signed, ← hbits, UInt64.ofNat_toNat]

theorem magnitude_lt_top (h : x.isFinite = true) : x.magnitude < top := by
  have hfield : x.exponentField < 2 ^ 11 := by
    rw [exponentField_eq]
    exact Nat.mod_lt _ (by decide)
  have hfraction := x.fraction_lt
  rw [isFinite, bne_iff_ne] at h
  unfold magnitude top
  omega

/-- The magnitude counts in the spacing of its place. -/
theorem exists_place : ∃ j : ℕ, x.exponent = j - 1074 ∧ x.magnitude = j * 2 ^ 52 + x.mantissa ∧
    x.mantissa < 2 ^ 53 ∧ (j = 0 ∨ 2 ^ 52 ≤ x.mantissa) := by
  have hfraction := x.fraction_lt
  have hone : (1 <<< 52 : ℕ) = 2 ^ 52 := rfl
  unfold exponent mantissa magnitude
  by_cases hleast : x.exponentField = 0
  · rw [if_pos hleast, if_pos hleast, hleast]
    exact ⟨0, by omega, by omega, by omega, .inl rfl⟩
  · rw [if_neg hleast, if_neg hleast, hone]
    exact ⟨x.exponentField - 1, by omega, by omega, by omega, .inr (by omega)⟩

/-- **The shortest decimal of a finite double is rounded to this double.** -/
theorem rounds_shortest (tie : Tie) : Rounds ((x.shortest tie).value * grain) x.magnitude := by
  obtain ⟨j, hexponent, hmagnitude, hlt, hplace⟩ := x.exists_place
  unfold shortest
  by_cases hzero : x.mantissa = 0
  · have hnone : x.magnitude = 0 := by omega
    rw [if_pos hzero, hnone, Decimal.value, Nat.cast_zero, zero_mul, zero_mul]
    simpa [steps] using rounds_steps 0
  · have hpos : 0 < x.mantissa := Nat.pos_of_ne_zero hzero
    have hrounds := rounds_of_holds hpos hlt hplace (holds_shortestOf hpos hlt tie)
    rw [if_neg hzero, hexponent, hmagnitude]
    convert hrounds using 1
    rw [grain, zpow_sub₀ two_ne_zero, zpow_sub₀ two_ne_zero, zpow_natCast]
    field_simp
    norm_num

/-- **The nearest double of the shortest decimal** is the double that it was written for. -/
theorem nearest_shortest (hx : x.isFinite = true) {tie : Tie} {n d : ℕ} (hd : 0 < d)
    (hvalue : (n : ℚ) / d = (x.shortest tie).value) : nearest x.isNegative n d = x := by
  obtain ⟨w, hw, hnearest⟩ := nearest_eq_signed x.isNegative n hd
  rw [hvalue] at hw
  obtain rfl : w = x.magnitude := hw.eq (x.rounds_shortest tie)
  have hmin : min (2047 <<< 52) x.magnitude = x.magnitude :=
    Nat.min_eq_right (x.magnitude_lt_top hx).le
  rw [hnearest, hmin]
  exact x.eq_signed.symm

/-- Only a zero is written with the digit zero. -/
theorem isZero_of_shortest {tie : Tie} (h : (x.shortest tie).digits = 0) : x.isZero = true := by
  have hrounds := x.rounds_shortest tie
  rw [Decimal.value, h, Nat.cast_zero, zero_mul, zero_mul] at hrounds
  have hzero : x.magnitude = 0 := hrounds.eq (by simpa [steps] using rounds_steps 0)
  have hparts : x.exponentField = 0 ∧ x.fraction = 0 := by
    unfold magnitude at hzero
    omega
  rw [isZero, hparts.1, hparts.2]
  rfl

theorem shortest_of_isZero (hx : x.isZero = true) (tie : Tie) : x.shortest tie = ⟨0, 0⟩ := by
  have hmantissa : x.mantissa = 0 := by
    rw [isZero, Bool.and_eq_true, beq_iff_eq, beq_iff_eq] at hx
    rw [mantissa, if_pos hx.1, hx.2]
  rw [shortest, if_pos hmantissa]

end

end Binary64
end Cutover
