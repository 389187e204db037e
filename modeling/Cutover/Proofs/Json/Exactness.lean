import Cutover.Proofs.Binary64.Power
import Cutover.Proofs.Json.Numeral

/-! # Where the reader is exact

A reader of numbers rounds twice, the digits first and what they are scaled to then.  As long as the
digits are a number below `2 ^ 53` and the power of ten is a double itself, only the scaling is
rounded, and it makes the nearest double (`Numeral.double?_eq_nearest`).  This is so of every double
whose shortest decimal is short enough (`Binary64.isReadExactly_of_short`).
-/

namespace Cutover
namespace Binary64

/-! ## Signs -/

theorem neg_signed {m : ℕ} (hm : m ≤ top) : -(signed false m) = signed true m := by
  have hlt : m < 2 ^ 63 := lt_of_le_of_lt hm (by decide)
  have hword : (signed false m).bits.toNat = m := by
    show (UInt64.ofNat m).toNat = m
    rw [UInt64.toNat_ofNat', Nat.mod_eq_of_lt (by omega)]
  have hnegative : (signed false m).isNegative = false := by
    rw [isNegative, hword]
    exact decide_eq_false (by omega)
  show neg _ = _
  rw [neg, hnegative, if_neg Bool.false_ne_true]
  have hsign : (0x8000000000000000 : UInt64).toNat = 1 <<< 63 := by decide
  have hbits : (signed false m).bits + (0x8000000000000000 : UInt64) =
      UInt64.ofNat (m + 1 <<< 63) := by
    rw [← UInt64.toNat_inj, UInt64.toNat_add, hword, hsign, UInt64.toNat_ofNat']
  rw [hbits, signed, if_pos rfl]

/-- Rounding does not depend on the sign. -/
theorem nearest_true (n d : ℕ) : nearest true n d = -(nearest false n d) := by
  unfold nearest
  split
  · exact (neg_signed (Nat.zero_le _)).symm
  · exact (neg_signed (Nat.min_le_left ..)).symm

/-! ## Scaling -/

section
variable {s k : ℕ} (hs : s < 2 ^ 53) (hk : k ≤ 22)
include hs hk

theorem div_ten_pow : ofNat s / ofNat (10 ^ k) = nearest false s (10 ^ k) := by
  obtain ⟨w, hw, hx, hsteps⟩ := ofNat_exact hs
  obtain ⟨w', hw', hy, hsteps'⟩ := ofNat_ten_pow hk
  have hgrain := grain_pos
  have hpos : 0 < w' := by
    refine Nat.pos_of_ne_zero fun h => ?_
    have hten : (0 : ℚ) < (10 ^ k : ℕ) := by positivity
    rw [← hsteps', h, steps, if_pos (by decide), Nat.cast_zero, zero_div] at hten
    exact lt_irrefl _ hten
  obtain ⟨v, hv, hdiv⟩ := ofWord_div hw hw' hpos
  obtain ⟨v', hv', hnearest⟩ := nearest_eq s (Nat.pow_pos (n := k) (by decide : 0 < 10))
  have hratio : (steps w / steps w' : ℚ) = s / (10 ^ k : ℕ) := by
    rw [← hsteps, ← hsteps']
    field_simp
  rw [hratio] at hv
  rw [hx, hy, hdiv, hnearest, hv.eq hv']

theorem mul_ten_pow :
    ofNat s * ofNat (10 ^ k) = nearest false (s * 10 ^ k) 1 ∧
    (ofNat s * ofNat (10 ^ k)).isInfinite = false := by
  obtain ⟨w, hw, hx, hsteps⟩ := ofNat_exact hs
  obtain ⟨w', hw', hy, hsteps'⟩ := ofNat_ten_pow hk
  have hgrain := grain_pos
  obtain ⟨v, hv, hmul⟩ := ofWord_mul hw hw'
  obtain ⟨v', hv', hnearest⟩ := nearest_eq (s * 10 ^ k) one_pos
  have hproduct : (steps w * steps w' / grain : ℚ) = (s * 10 ^ k : ℕ) / (1 : ℕ) * grain := by
    rw [Nat.cast_mul, ← hsteps, ← hsteps', Nat.cast_one]
    field_simp
  rw [hproduct] at hv
  refine ⟨by rw [hx, hy, hmul, hnearest, hv.eq hv'], ?_⟩
  -- the product is far below the largest double
  have hbound : s * 10 ^ k ≤ 2 ^ 141 :=
    calc s * 10 ^ k ≤ 2 ^ 53 * 10 ^ 22 := Nat.mul_le_mul hs.le (Nat.pow_le_pow_right (by decide) hk)
      _ ≤ 2 ^ 141 := by decide
  have hle : v ≤ (1023 + 141) * 2 ^ 52 := by
    refine hv.mono (rounds_steps _) ?_
    rw [steps_powTwo, Nat.cast_one, div_one]
    gcongr
    exact_mod_cast hbound
  have hlt : v < top := lt_of_le_of_lt hle (by decide)
  rw [hx, hy, hmul, isInfinite_ofWord hlt.le]
  exact decide_eq_false hlt.ne

end
end Binary64

namespace Json

/-- **A significand below `2 ^ 53` is scaled exactly**, up to the one rounding of the result. -/
theorem scale_ofNat {s : ℕ} (hs : s < 2 ^ 53) {e : ℤ} (hlow : -22 ≤ e) (hhigh : e ≤ 22) :
    scale (Binary64.ofNat s) e =
      some (Binary64.nearest false (s * 10 ^ e.toNat) (10 ^ (-e).toNat)) := by
  have hten : Nat.pow 10 e.natAbs = 10 ^ e.natAbs := rfl
  rw [scale, if_neg (by omega), hten]
  rcases lt_or_ge e 0 with hneg | hpos
  · rw [if_pos hneg, Binary64.div_ten_pow hs (by omega)]
    have habs : e.natAbs = (-e).toNat := by omega
    have hnone : e.toNat = 0 := by omega
    rw [habs, hnone, Nat.pow_zero, Nat.mul_one]
  · obtain ⟨hmul, hfinite⟩ := Binary64.mul_ten_pow hs (by omega : e.natAbs ≤ 22)
    have habs : e.natAbs = e.toNat := by omega
    have hnone : (-e).toNat = 0 := by omega
    rw [if_neg (by omega), if_pos (by omega)]
    dsimp only
    rw [hfinite, if_neg Bool.false_ne_true, hmul, habs, hnone, Nat.pow_zero]

theorem floatOf_eq_nearest (negative : Bool) {s : ℕ} (hs : s < 2 ^ 53) {e : ℤ} (hlow : -22 ≤ e)
    (hhigh : e ≤ 22) : floatOf negative s e =
      some (Binary64.nearest negative (s * 10 ^ e.toNat) (10 ^ (-e).toNat)) := by
  rw [floatOf, scale_ofNat hs hlow hhigh]
  cases negative with
  | false => rfl
  | true => exact congrArg some (Binary64.nearest_true _ _).symm

namespace Numeral

open Text (spelled spelled_append)

variable {n : Numeral}

/-- Digits that are one number below `2 ^ 53` are gathered completely. -/
theorem gather_digits (h : n.significand < 2 ^ 53) :
    gather 0 n.whole = (spelled n.whole, 0) ∧
      gather (spelled n.whole) n.fraction = (n.significand, 0) := by
  have hlimit : n.significand < UInt64.size := Nat.lt_trans h (by decide)
  have hfold : n.fraction.foldl (fun n d => 10 * n + d) (spelled n.whole) = n.significand :=
    List.foldl_append.symm
  have hwhole : spelled n.whole ≤ n.significand := by
    rw [significand, spelled_append]
    exact (Nat.le_mul_of_pos_right _ (Nat.pow_pos (by decide))).trans (Nat.le_add_right _ _)
  refine ⟨Reader.gather_eq (Nat.lt_of_le_of_lt hwhole hlimit), ?_⟩
  rw [Reader.gather_eq (by rwa [hfold]), hfold]

/-- An exponent of 31 bits is added to the one of the digits. -/
theorem floatParts_eq {negative : Bool} {s : ℕ} {e : ℤ} {exponent : Option (Bool × List ℕ)}
    (hexponent : ∀ p ∈ exponent, spelled p.2 < 1 <<< 31)
    (hlow : -2 ^ 31 ≤ e + exponentValue exponent) (hhigh : e + exponentValue exponent < 2 ^ 31) :
    Reader.floatParts negative s e exponent = floatOf negative s (e + exponentValue exponent) := by
  cases exponent with
  | none => exact congrArg (floatOf negative s) (add_zero e).symm
  | some p =>
    obtain ⟨down, ds⟩ := p
    have hlimits : Int32.minValue.toInt = -2 ^ 31 ∧ Int32.maxValue.toInt = 2 ^ 31 - 1 := by decide
    have hparts : Reader.floatParts negative s e (some (down, ds)) = floatOf negative s
        (if down then max Int32.minValue.toInt (e - spelled ds)
          else min Int32.maxValue.toInt (e + spelled ds)) :=
      if_neg (Nat.not_le.mpr (hexponent _ rfl))
    rw [hparts, hlimits.1, hlimits.2]
    refine congrArg (floatOf negative s) ?_
    cases down with
    | true =>
      simp only [exponentValue, if_true] at hlow ⊢
      omega
    | false =>
      simp only [exponentValue, Bool.false_eq_true, if_false] at hhigh ⊢
      omega

/-- **Of few digits and a small power of ten the nearest double is made.** -/
theorem double?_eq_nearest (h : n.significand < 2 ^ 53) (hlow : -22 ≤ n.power)
    (hhigh : n.power ≤ 22) (hexponent : ∀ e ∈ n.exponent, spelled e.2 < 1 <<< 31) :
    n.double? = some n.nearest := by
  obtain ⟨hwhole, hfraction⟩ := gather_digits h
  unfold double? nearest
  rw [hwhole]
  dsimp only
  rw [hfraction]
  dsimp only
  have hpower : ((0 : ℕ) : ℤ) - (n.fraction.length - 0 : ℕ) + exponentValue n.exponent =
      n.power := by
    unfold power
    omega
  rw [floatParts_eq hexponent (by omega) (by omega), hpower,
    floatOf_eq_nearest n.negative h hlow hhigh]

end Numeral
end Json

/-- **The reader is exact on every double with a short decimal**: its digits, up to the first one
behind the point at least, are a number below `2 ^ 53`, and none of them stands further behind the
point than the twenty-second. -/
theorem Binary64.isReadExactly_of_short {x : Binary64} (hx : x.isFinite = true)
    (hdigits : (x.shortest .toEven).digits * 10 ^ ((x.shortest .toEven).exponent + 1).toNat <
      2 ^ 53)
    (hexponent : -22 ≤ (x.shortest .toEven).exponent) : x.IsReadExactly := by
  obtain ⟨n, body, hn, htext⟩ := Json.exists_numeral hx
  have hfew : (x.shortest .toEven).digits < 2 ^ 53 :=
    Nat.lt_of_le_of_lt (Nat.le_mul_of_pos_right _ (Nat.pow_pos (by decide))) hdigits
  have hhigh : (x.shortest .toEven).exponent ≤ 22 := by
    by_cases hzero : (x.shortest .toEven).digits = 0
    · rw [x.shortest_of_isZero (x.isZero_of_shortest hzero)]
      decide
    · -- already one digit before so many zeros would be too much
      by_contra hbeyond
      have hpower : 10 ^ 16 ≤ 10 ^ ((x.shortest .toEven).exponent + 1).toNat :=
        Nat.pow_le_pow_right (by decide) (by omega)
      have hmany : 10 ^ 16 ≤
          (x.shortest .toEven).digits * 10 ^ ((x.shortest .toEven).exponent + 1).toNat :=
        hpower.trans (Nat.le_mul_of_pos_left _ (Nat.pos_of_ne_zero hzero))
      omega
  have hlength : (Nat.toDigits 10 (x.shortest .toEven).digits).length ≤ 16 :=
    (Nat.length_toDigits_le_iff (by decide) (by decide)).mpr (Nat.lt_trans hfew (by decide))
  intro n' hn'
  obtain ⟨rfl, -⟩ := (Json.reads_numeral_write hn htext).unique hn'
  suffices hnearest : n.double? = some n.nearest from
    (hn'.number_iff hn.isBroken).mpr ⟨rfl, congrArg (Option.map Json.Number.float) hnearest⟩
  apply Json.Numeral.double?_eq_nearest
  · rcases hn.parts_eq with ⟨hsignificand, -⟩ | ⟨k, hk, hsignificand, -⟩
    · rwa [hsignificand]
    · have hzeros : ((x.shortest .toEven).exponent + 1).toNat = k + 1 := by omega
      rwa [hsignificand, ← hzeros]
  · rcases hn.parts_eq with ⟨-, hpower⟩ | ⟨k, -, -, hpower⟩ <;> omega
  · rcases hn.parts_eq with ⟨-, hpower⟩ | ⟨k, -, -, hpower⟩ <;> omega
  · intro e he
    have hle := hn.exponent_le e he
    have hlimit : (1 <<< 31 : ℕ) = 2 ^ 31 := rfl
    omega

end Cutover
