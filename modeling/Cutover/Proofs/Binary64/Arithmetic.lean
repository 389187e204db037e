import Cutover.Proofs.Binary64.Rounding

/-! # Arithmetic of magnitudes

A magnitude is a double that is neither negative nor a NaN.  Magnitudes lie in the order of their
words, with the infinity at the top (`IsMagnitude`), and sums, products and quotients of finite ones
are what the exact results are rounded to.  Products keep the order as long as they are no NaNs
(`mul_mono`).
-/

namespace Cutover
namespace Binary64

/-- The number that a finite double stands for. -/
def value (x : Binary64) : ℚ := (if x.isNegative then -1 else 1) * x.mantissa * 2 ^ x.exponent

/-- The word of a double, as a number. -/
abbrev word (x : Binary64) : ℕ := x.bits.toNat

/-- The word of the infinity. -/
def top : ℕ := 2047 * 2 ^ 52

/-- Neither negative nor a NaN. -/
def IsMagnitude (x : Binary64) : Prop := x.word ≤ top

/-! ## Words of magnitudes -/

theorem word_ofWord (w : ℕ) : (ofWord w).word = min top w := by
  have htop : min (2047 <<< 52) w ≤ 2047 * 2 ^ 52 := Nat.min_le_left ..
  show (UInt64.ofNat (min (2047 <<< 52) w)).toNat = _
  rw [UInt64.toNat_ofNat', Nat.mod_eq_of_lt (by omega)]
  rfl

theorem isMagnitude_ofWord (w : ℕ) : (ofWord w).IsMagnitude := by
  rw [IsMagnitude, word_ofWord]
  exact Nat.min_le_left ..

theorem word_ofWord_mono {w w' : ℕ} (h : w ≤ w') : (ofWord w).word ≤ (ofWord w').word := by
  rw [word_ofWord, word_ofWord]
  omega

/-- Every magnitude is given by a word. -/
theorem IsMagnitude.exists_word {x : Binary64} (h : x.IsMagnitude) : ∃ w ≤ top, x = ofWord w := by
  refine ⟨x.word, h, ?_⟩
  have hmin : min (2047 <<< 52) x.word = x.word := Nat.min_eq_right h
  show x = ⟨UInt64.ofNat (min (2047 <<< 52) x.word)⟩
  rw [hmin, UInt64.ofNat_toNat]

theorem ofWord_of_top_le {w : ℕ} (h : top ≤ w) : ofWord w = infinity false :=
  congrArg (signed false) (Nat.min_eq_left h)

section
variable {w : ℕ} (hw : w ≤ top)
include hw

theorem word_ofWord_of_le : (ofWord w).word = w := by
  rw [word_ofWord, Nat.min_eq_right hw]

theorem isNegative_ofWord : (ofWord w).isNegative = false := by
  have hsign : w < 1 <<< 63 := lt_of_le_of_lt hw (by decide)
  have hword : (ofWord w).bits.toNat = w := word_ofWord_of_le hw
  rw [isNegative, hword, decide_eq_false_iff_not]
  omega

theorem exponentField_ofWord : (ofWord w).exponentField = w / 2 ^ 52 := by
  have htop : w ≤ 2047 * 2 ^ 52 := hw
  have hword : (ofWord w).bits.toNat = w := word_ofWord_of_le hw
  rw [exponentField, hword, Nat.shiftRight_eq_div_pow]
  exact Nat.mod_eq_of_lt (by omega)

theorem fraction_ofWord : (ofWord w).fraction = w % 2 ^ 52 := by
  have hword : (ofWord w).bits.toNat = w := word_ofWord_of_le hw
  rw [fraction, hword]
  rfl

theorem isNaN_ofWord : (ofWord w).isNaN = false := by
  have htop : w ≤ 2047 * 2 ^ 52 := hw
  rw [isNaN, exponentField_ofWord hw, fraction_ofWord hw, Bool.and_eq_false_imp, beq_iff_eq,
    bne_eq_false_iff_eq]
  omega

theorem isInfinite_ofWord : (ofWord w).isInfinite = decide (w = top) := by
  have htop : w ≤ 2047 * 2 ^ 52 := hw
  rw [isInfinite, exponentField_ofWord hw, fraction_ofWord hw, Bool.eq_iff_iff, Bool.and_eq_true,
    beq_iff_eq, beq_iff_eq, decide_eq_true_iff, top]
  omega

theorem isZero_ofWord : (ofWord w).isZero = decide (w = 0) := by
  rw [isZero, exponentField_ofWord hw, fraction_ofWord hw, Bool.eq_iff_iff, Bool.and_eq_true,
    beq_iff_eq, beq_iff_eq, decide_eq_true_iff]
  omega

theorem isFinite_ofWord : (ofWord w).isFinite = decide (w < top) := by
  have htop : w ≤ 2047 * 2 ^ 52 := hw
  rw [isFinite, exponentField_ofWord hw, Bool.eq_iff_iff, bne_iff_ne, decide_eq_true_iff, top]
  omega

/-- What a word stands for is what its fields say. -/
theorem mantissa_mul_ofWord :
    ((ofWord w).mantissa : ℚ) * 2 ^ (ofWord w).exponent = steps w / grain := by
  rw [mantissa, exponent, exponentField_ofWord hw, fraction_ofWord hw, grain, steps, div_eq_mul_inv,
    ← zpow_neg]
  by_cases hsmall : w < 2 ^ 52
  · have hdiv : w / 2 ^ 52 = 0 := Nat.div_eq_of_lt hsmall
    rw [if_pos hdiv, if_pos hdiv, if_pos hsmall, Nat.mod_eq_of_lt hsmall]
  · obtain ⟨e, he⟩ : ∃ e, w / 2 ^ 52 = e + 1 := ⟨w / 2 ^ 52 - 1, by omega⟩
    rw [he, if_neg e.succ_ne_zero, if_neg e.succ_ne_zero, if_neg hsmall, Nat.add_sub_cancel,
      Nat.cast_mul, Nat.cast_pow, mul_assoc, ← zpow_natCast, Nat.cast_ofNat,
      ← zpow_add₀ two_ne_zero]
    congr 1
    · exact congrArg Nat.cast (Nat.add_comm (w % 2 ^ 52) (2 ^ 52))
    · congr 1
      push_cast
      ring

/-- A magnitude in units of a power of two that is not greater than its own. -/
theorem units_ofWord {e : ℤ} (he : e ≤ (ofWord w).exponent) :
    ∃ n : ℕ, (ofWord w).units e = n ∧ (n : ℚ) * 2 ^ e = steps w / grain := by
  obtain ⟨k, hk⟩ := Int.eq_ofNat_of_zero_le (sub_nonneg.mpr he)
  refine ⟨(ofWord w).mantissa * 2 ^ k, ?_, ?_⟩
  · rw [units, isNegative_ofWord hw, if_neg Bool.false_ne_true, hk, Nat.shiftLeft_eq]
    rfl
  · have hexponent : (ofWord w).exponent = k + e := by omega
    rw [← mantissa_mul_ofWord hw, hexponent, zpow_add₀ two_ne_zero, zpow_natCast]
    push_cast
    ring

theorem value_ofWord : (ofWord w).value = steps w / grain := by
  rw [value, isNegative_ofWord hw, if_neg Bool.false_ne_true, one_mul, mantissa_mul_ofWord hw]

end

/-- What is at least one and no NaN is a magnitude. -/
theorem isMagnitude_of_one_le {x : Binary64} (hnum : x.isNaN = false) (hone : 1 ≤ x.value) :
    x.IsMagnitude := by
  have hsign : x.isNegative = false := by
    by_contra hneg
    rw [Bool.not_eq_false] at hneg
    have hpos : (0 : ℚ) ≤ x.mantissa * 2 ^ x.exponent := by positivity
    rw [value, hneg, if_pos rfl] at hone
    linarith
  have hlt : x.word < 2 ^ 63 := by
    rw [isNegative, decide_eq_false_iff_not] at hsign
    exact not_le.mp hsign
  rw [isNaN, Bool.and_eq_false_imp, beq_iff_eq, bne_eq_false_iff_eq, exponentField, fraction,
    Nat.shiftRight_eq_div_pow] at hnum
  have htop : ¬ 2047 * 2 ^ 52 < x.word := by
    intro h
    have hfield : x.word / 2 ^ 52 % (1 <<< 11) = 2047 := by
      rw [Nat.mod_eq_of_lt (by omega)]
      omega
    have hfraction : x.word % 2 ^ 52 = 0 := hnum hfield
    omega
  exact not_lt.mp htop

/-! ## Sums, products and quotients -/

section
variable {w w' : ℕ} (hw : w < top) (hw' : w' < top)
include hw hw'

/-- **A product of finite magnitudes** is what the exact product is rounded to. -/
theorem ofWord_mul :
    ∃ v, Rounds (steps w * steps w' / grain) v ∧ ofWord w * ofWord w' = ofWord v := by
  obtain ⟨v, hv, heq⟩ := nearestScaled_eq ((ofWord w).mantissa * (ofWord w').mantissa)
    ((ofWord w).exponent + (ofWord w').exponent) one_pos
  refine ⟨v, ?_, ?_⟩
  · convert hv using 1
    have hx := mantissa_mul_ofWord hw.le
    have hy := mantissa_mul_ofWord hw'.le
    have hgrain := grain_pos.ne'
    rw [zpow_add₀ two_ne_zero]
    push_cast
    calc
      (steps w : ℚ) * steps w' / grain = (steps w / grain) * (steps w' / grain) * grain := by
        field_simp
      _ = _ := by
        rw [← hx, ← hy]
        ring
  · show mul _ _ = _
    simp only [mul, isNegative_ofWord hw.le, isNegative_ofWord hw'.le, isNaN_ofWord hw.le,
      isNaN_ofWord hw'.le, isInfinite_ofWord hw.le, isInfinite_ofWord hw'.le, hw.ne, hw'.ne]
    exact heq

/-- **A sum of finite magnitudes** is what the exact sum is rounded to. -/
theorem ofWord_add : ∃ v, Rounds (steps w + steps w' : ℚ) v ∧ ofWord w + ofWord w' = ofWord v := by
  obtain ⟨m, hm, hx⟩ := units_ofWord hw.le (min_le_left (ofWord w).exponent (ofWord w').exponent)
  obtain ⟨n, hn, hy⟩ := units_ofWord hw'.le (min_le_right (ofWord w).exponent (ofWord w').exponent)
  obtain ⟨v, hv, heq⟩ :=
    nearestScaled_eq (m + n) (min (ofWord w).exponent (ofWord w').exponent) one_pos
  refine ⟨v, ?_, ?_⟩
  · convert hv using 1
    have hgrain := grain_pos.ne'
    push_cast
    calc (steps w : ℚ) + steps w' = (steps w / grain + steps w' / grain) * grain := by field_simp
      _ = _ := by
        rw [← hx, ← hy]
        ring
  · show add _ _ = _
    simp only [add, isNegative_ofWord hw.le, isNegative_ofWord hw'.le, isNaN_ofWord hw.le,
      isNaN_ofWord hw'.le, isInfinite_ofWord hw.le, isInfinite_ofWord hw'.le, hw.ne, hw'.ne, hm, hn,
      ← Nat.cast_add, decide_false, Bool.or_self, Bool.false_eq_true, if_false]
    rcases Nat.eq_zero_or_pos (m + n) with hnone | hsome
    · rw [if_pos (by rw [hnone, Nat.cast_zero]), ← heq, hnone, nearestScaled, Nat.zero_shiftLeft,
        nearest, if_pos rfl, Bool.and_self]
    · rw [if_neg (by omega), Int.natAbs_natCast, decide_eq_false (by omega)]
      exact heq

/-- **A quotient of finite magnitudes** is what the exact quotient is rounded to. -/
theorem ofWord_div (hpos : 0 < w') :
    ∃ v, Rounds (steps w / steps w' * grain) v ∧ ofWord w / ofWord w' = ofWord v := by
  have hx := mantissa_mul_ofWord hw.le
  have hy := mantissa_mul_ofWord hw'.le
  have hsteps : (0 : ℚ) < steps w' := by exact_mod_cast steps_pos hpos
  have hmantissa : 0 < (ofWord w').mantissa := by
    refine Nat.pos_of_ne_zero fun h => ?_
    rw [h, Nat.cast_zero, zero_mul] at hy
    exact (div_pos hsteps grain_pos).ne hy
  obtain ⟨v, hv, heq⟩ :=
    nearestScaled_eq (ofWord w).mantissa ((ofWord w).exponent - (ofWord w').exponent) hmantissa
  refine ⟨v, ?_, ?_⟩
  · convert hv using 1
    have hgrain := grain_pos.ne'
    rw [zpow_sub₀ two_ne_zero]
    calc
      (steps w : ℚ) / steps w' * grain = (steps w / grain) / (steps w' / grain) * grain := by
        field_simp
      _ = _ := by
        rw [← hx, ← hy]
        field_simp
  · show div _ _ = _
    simp only [div, isNegative_ofWord hw.le, isNegative_ofWord hw'.le, isNaN_ofWord hw.le,
      isNaN_ofWord hw'.le, isInfinite_ofWord hw.le, isInfinite_ofWord hw'.le, isZero_ofWord hw'.le,
      hw.ne, hw'.ne, hpos.ne']
    exact heq

/-- A product that need not be rounded. -/
theorem ofWord_mul_of_eq {v : ℕ} (h : (steps w * steps w' : ℚ) = steps v * grain) :
    ofWord w * ofWord w' = ofWord v := by
  obtain ⟨v', hv', heq⟩ := ofWord_mul hw hw'
  rw [h, mul_div_cancel_right₀ _ grain_pos.ne'] at hv'
  rw [heq, hv'.eq (rounds_steps v)]

end

/-- A product with an infinity is infinite, unless it is one with zero. -/
theorem ofWord_mul_top {w w' : ℕ} (hw : w ≤ top) (hw' : w' ≤ top) (htop : w = top ∨ w' = top) :
    ofWord w * ofWord w' = if w = 0 ∨ w' = 0 then nan else ofWord top := by
  show mul _ _ = _
  simp only [mul, isNegative_ofWord hw, isNegative_ofWord hw', isNaN_ofWord hw, isNaN_ofWord hw',
    isInfinite_ofWord hw, isInfinite_ofWord hw', isZero_ofWord hw, isZero_ofWord hw',
    Bool.or_eq_true, decide_eq_true_iff, if_pos htop, ofWord_of_top_le le_rfl, Bool.or_self,
    Bool.false_eq_true, if_false, bne_self_eq_false]

/-! ## Magnitudes -/

theorem IsMagnitude.isNaN {x : Binary64} (hx : x.IsMagnitude) : x.isNaN = false := by
  obtain ⟨a, ha, rfl⟩ := hx.exists_word
  exact isNaN_ofWord ha

theorem isNaN_of_isFinite {x : Binary64} (hx : x.isFinite = true) : x.isNaN = false := by
  rw [isFinite, bne_iff_ne] at hx
  rw [isNaN, Bool.and_eq_false_imp, beq_iff_eq]
  exact fun h => absurd h hx

theorem IsMagnitude.lt_top {x : Binary64} (hx : x.IsMagnitude) (hfinite : x.isFinite = true) :
    x.word < top := by
  obtain ⟨a, ha, rfl⟩ := hx.exists_word
  rw [isFinite_ofWord ha, decide_eq_true_iff] at hfinite
  rwa [word_ofWord_of_le ha]

/-- Magnitudes stand for numbers in the order of their words. -/
theorem value_le_value {x y : Binary64} (hy : y.IsMagnitude) (hle : x.word ≤ y.word) :
    x.value ≤ y.value := by
  have hx : x.IsMagnitude := hle.trans hy
  obtain ⟨a, ha, rfl⟩ := hx.exists_word
  obtain ⟨b, hb, rfl⟩ := hy.exists_word
  rw [word_ofWord_of_le ha, word_ofWord_of_le hb] at hle
  rw [value_ofWord ha, value_ofWord hb]
  exact div_le_div_of_nonneg_right (by exact_mod_cast steps_strictMono.monotone hle) grain_pos.le

/-- Sums of magnitudes are magnitudes. -/
theorem IsMagnitude.add {x y : Binary64} (hx : x.IsMagnitude) (hy : y.IsMagnitude) :
    (x + y).IsMagnitude := by
  obtain ⟨a, ha, rfl⟩ := hx.exists_word
  obtain ⟨b, hb, rfl⟩ := hy.exists_word
  by_cases hfinite : a < top ∧ b < top
  · obtain ⟨v, -, hv⟩ := ofWord_add hfinite.1 hfinite.2
    rw [hv]
    exact isMagnitude_ofWord v
  · show Binary64.IsMagnitude (Binary64.add _ _)
    simp only [Binary64.add, isNaN_ofWord ha, isNaN_ofWord hb, isInfinite_ofWord ha,
      isInfinite_ofWord hb, isNegative_ofWord ha, isNegative_ofWord hb, Bool.or_self,
      Bool.false_eq_true, if_false, bne_self_eq_false, Bool.and_false, decide_eq_true_iff]
    by_cases htop : a = top
    · rw [if_pos htop]
      exact hx
    · rw [if_neg htop, if_pos (by omega)]
      exact hy

/-- Products of magnitudes that are not zero are magnitudes. -/
theorem IsMagnitude.mul {x y : Binary64} (hx : x.IsMagnitude) (hy : y.IsMagnitude)
    (hx0 : x.word ≠ 0) (hy0 : y.word ≠ 0) : (x * y).IsMagnitude := by
  obtain ⟨a, ha, rfl⟩ := hx.exists_word
  obtain ⟨b, hb, rfl⟩ := hy.exists_word
  rw [word_ofWord_of_le ha] at hx0
  rw [word_ofWord_of_le hb] at hy0
  by_cases hinf : a = top ∨ b = top
  · rw [ofWord_mul_top ha hb hinf, if_neg (by omega)]
    exact isMagnitude_ofWord _
  · obtain ⟨v, -, hv⟩ := ofWord_mul (by omega : a < top) (by omega : b < top)
    rw [hv]
    exact isMagnitude_ofWord v

theorem isMagnitude_ofNat (n : ℕ) : (ofNat n).IsMagnitude := by
  obtain ⟨v, -, hv⟩ := nearest_eq n one_pos
  rw [ofNat, hv]
  exact isMagnitude_ofWord v

/-! ## The order of products -/

/-- **Products keep the order**, as long as they are no NaNs. -/
theorem mul_mono {x x' y y' : Binary64} (hx' : x'.IsMagnitude) (hy' : y'.IsMagnitude)
    (hx : x.word ≤ x'.word) (hy : y.word ≤ y'.word) (hnum : (x * y).isNaN = false)
    (hnum' : (x' * y').isNaN = false) : (x * y).word ≤ (x' * y').word ∧ (x' * y').IsMagnitude := by
  have hx₀ : x.IsMagnitude := hx.trans hx'
  have hy₀ : y.IsMagnitude := hy.trans hy'
  obtain ⟨a, ha, rfl⟩ := hx₀.exists_word
  obtain ⟨b, hb, rfl⟩ := hy₀.exists_word
  obtain ⟨a', ha', rfl⟩ := hx'.exists_word
  obtain ⟨b', hb', rfl⟩ := hy'.exists_word
  rw [word_ofWord_of_le ha, word_ofWord_of_le ha'] at hx
  rw [word_ofWord_of_le hb, word_ofWord_of_le hb'] at hy
  have hnan : nan.isNaN = true := by decide
  by_cases hinf' : a' = top ∨ b' = top
  · rw [ofWord_mul_top ha' hb' hinf'] at hnum' ⊢
    split at hnum'
    · rw [hnan] at hnum'
      cases hnum'
    · rename_i hnonzero
      rw [if_neg hnonzero]
      refine ⟨?_, isMagnitude_ofWord _⟩
      rw [word_ofWord_of_le le_rfl]
      by_cases hinf : a = top ∨ b = top
      · rw [ofWord_mul_top ha hb hinf] at hnum ⊢
        split at hnum
        · rw [hnan] at hnum
          cases hnum
        · rename_i hnonzero'
          rw [if_neg hnonzero', word_ofWord_of_le le_rfl]
      · obtain ⟨v, -, hv⟩ := ofWord_mul (by omega : a < top) (by omega : b < top)
        rw [hv]
        exact isMagnitude_ofWord v
  · obtain ⟨v, hv, heq⟩ := ofWord_mul (by omega : a < top) (by omega : b < top)
    obtain ⟨v', hv', heq'⟩ := ofWord_mul (by omega : a' < top) (by omega : b' < top)
    rw [heq, heq']
    refine ⟨word_ofWord_mono (hv.mono hv' ?_), isMagnitude_ofWord v'⟩
    have hsteps : steps a * steps b ≤ steps a' * steps b' :=
      Nat.mul_le_mul (steps_strictMono.monotone hx) (steps_strictMono.monotone hy)
    exact div_le_div_of_nonneg_right (by exact_mod_cast hsteps) grain_pos.le

end Binary64
end Cutover
