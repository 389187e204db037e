import Mathlib.Algebra.Order.Field.Power
import Mathlib.Data.Rat.Cast.Order
import Mathlib.Tactic.FieldSimp
import Mathlib.Tactic.Linarith
import Mathlib.Tactic.Positivity
import Mathlib.Tactic.Ring
import Cutover.Binary64

/-! # Rounding to doubles

The doubles that are not negative lie in the order of their words.  Between two powers of two they
are equally spaced, so a rational is rounded by counting it in the spacing of its place and taking
the nearest whole number, of two the even one (`IsNearest`); a carry leads over to the next power by
itself.  `Rounds` says so of rationals in units of the least positive double, and goes on beyond the
largest one, where `nearest` stops at an infinity (`nearest_eq_signed`).

Two things are all that is used of it: rounding keeps the order (`Rounds.mono`), and what a word
stands for is rounded to this word (`rounds_steps`).  A rounded rational is also off by no more than
a share of `2 ^ -53` (`Rounds.close`).
-/

namespace Cutover
namespace Binary64

/-! ## Whole numbers -/

/-- A whole number is nearest to a rational; if there are two, it is the even one. -/
structure IsNearest (q : ℚ) (m : ℕ) : Prop where
  close : |q - m| ≤ 1 / 2
  even : |q - m| = 1 / 2 → m % 2 = 0

theorem isNearest_natCast (m : ℕ) : IsNearest m m where
  close := by simp
  even h := by simp at h

/-- **Rounding keeps the order.** -/
theorem IsNearest.mono {q q' : ℚ} {m m' : ℕ} (h : IsNearest q m) (h' : IsNearest q' m')
    (hle : q ≤ q') : m ≤ m' := by
  by_contra hlt
  have hstep : (m' : ℚ) + 1 ≤ m := by exact_mod_cast not_le.mp hlt
  have hlow := (abs_le.mp h.close).1
  have hhigh := (abs_le.mp h'.close).2
  -- both are in the middle between the two
  have hq : q - m = -(1 / 2) := by linarith
  have hq' : q' - m' = 1 / 2 := by linarith
  have hm : (m : ℚ) = m' + 1 := by linarith
  have heven := h.even (by rw [hq]; norm_num)
  have heven' := h'.even (by rw [hq']; norm_num)
  have : m = m' + 1 := by exact_mod_cast hm
  omega

theorem IsNearest.eq {q : ℚ} {m m' : ℕ} (h : IsNearest q m) (h' : IsNearest q m') : m = m' :=
  le_antisymm (h.mono h' le_rfl) (h'.mono h le_rfl)

theorem isNearest_roundHalfEven (n : ℕ) {d : ℕ} (hd : 0 < d) :
    IsNearest (n / d) (roundHalfEven n d) := by
  have hd' : (0 : ℚ) < d := by exact_mod_cast hd
  -- the remainder decides
  obtain ⟨r, hr, hlt, hq⟩ : ∃ r : ℕ, n % d = r ∧ r < d ∧ (n : ℚ) / d = (n / d : ℕ) + r / d := by
    refine ⟨n % d, rfl, Nat.mod_lt n hd, ?_⟩
    have hn : ((d * (n / d) + n % d : ℕ) : ℚ) = n := by rw [Nat.div_add_mod]
    push_cast at hn
    field_simp
    linarith
  have hfrac : (0 : ℚ) ≤ r / d := by positivity
  have hlow : ((n / d : ℕ) + r / d : ℚ) - (n / d : ℕ) = r / d := by ring
  have hhigh : ((n / d : ℕ) + r / d : ℚ) - (n / d + 1 : ℕ) = r / d - 1 := by
    push_cast
    ring
  rw [roundHalfEven, hr, hq]
  rcases lt_trichotomy (2 * r) d with hless | heq | hmore
  · have hhalf : (r : ℚ) / d < 1 / 2 := by
      rw [div_lt_div_iff₀ hd' two_pos]
      exact_mod_cast (by omega : r * 2 < 1 * d)
    simp only [if_pos hless]
    constructor <;> rw [hlow, abs_of_nonneg hfrac]
    · exact hhalf.le
    · exact fun h => absurd h hhalf.ne
  · have hhalf : (r : ℚ) / d = 1 / 2 := by
      rw [div_eq_div_iff hd'.ne' two_ne_zero]
      exact_mod_cast (by omega : r * 2 = 1 * d)
    simp only [if_neg (by omega : ¬ 2 * r < d), if_neg (by omega : ¬ d < 2 * r)]
    -- in the middle the even one is taken
    rcases Nat.mod_two_eq_zero_or_one (n / d) with h | h <;> rw [h] <;> constructor
    · rw [Nat.add_zero, hlow, hhalf]
      norm_num
    · exact fun _ => by omega
    · rw [hhigh, hhalf]
      norm_num
    · exact fun _ => by omega
  · have hhalf : 1 / 2 < (r : ℚ) / d := by
      rw [div_lt_div_iff₀ two_pos hd']
      exact_mod_cast (by omega : 1 * d < r * 2)
    have hone : (r : ℚ) / d < 1 := (div_lt_one hd').mpr (by exact_mod_cast hlt)
    simp only [if_neg (by omega : ¬ 2 * r < d), if_pos hmore]
    constructor <;> rw [hhigh, abs_of_nonpos (by linarith)]
    · linarith
    · exact fun h => absurd h (by linarith)

/-! ## Words -/

/-- How many of the least positive double make one. -/
@[irreducible]
def grain : ℚ := 2 ^ (1074 : ℤ)

theorem grain_pos : 0 < grain := by
  unfold grain
  positivity

theorem two_pow_le_grain {k : ℕ} (hk : k ≤ 1074) : 2 ^ k ≤ grain := by
  rw [grain, ← zpow_natCast]
  exact zpow_le_zpow_right₀ one_le_two (by omega)

/-- What a word without a sign stands for, in units of the least positive double; the exponents go
on where those of the doubles end. -/
def steps (w : ℕ) : ℕ := if w < 2 ^ 52 then w else (2 ^ 52 + w % 2 ^ 52) * 2 ^ (w / 2 ^ 52 - 1)

/-- The word that a rational is rounded to, which is told in units of the least positive double: it
is counted in the spacing of its place. -/
def Rounds (s : ℚ) (w : ℕ) : Prop :=
  ∃ e m, w = e * 2 ^ 52 + m ∧ s < 2 ^ (e + 53) ∧ (e = 0 ∨ 2 ^ (e + 52) ≤ s) ∧
    IsNearest (s / 2 ^ e) m

/-- A carry does not lead beyond the next power of two. -/
theorem IsNearest.le_of_lt {s : ℚ} {e m : ℕ} (h : IsNearest (s / 2 ^ e) m) (hs : s < 2 ^ (e + 53)) :
    m ≤ 2 ^ 53 := by
  refine h.mono (isNearest_natCast (2 ^ 53)) ((div_le_iff₀ (by positivity)).mpr ?_)
  calc s ≤ 2 ^ (e + 53) := hs.le
    _ = ((2 ^ 53 : ℕ) : ℚ) * 2 ^ e := by push_cast; ring

theorem IsNearest.ge_of_ge {s : ℚ} {e m : ℕ} (h : IsNearest (s / 2 ^ e) m) (hs : 2 ^ (e + 52) ≤ s) :
    2 ^ 52 ≤ m := by
  refine (isNearest_natCast (2 ^ 52)).mono h ((le_div_iff₀ (by positivity)).mpr ?_)
  calc ((2 ^ 52 : ℕ) : ℚ) * 2 ^ e = 2 ^ (e + 52) := by push_cast; ring
    _ ≤ s := hs

/-- **Rounding to doubles keeps the order.** -/
theorem Rounds.mono {s s' : ℚ} {w w' : ℕ} (h : Rounds s w) (h' : Rounds s' w') (hle : s ≤ s') :
    w ≤ w' := by
  obtain ⟨e, m, rfl, hlt, hge, hm⟩ := h
  obtain ⟨e', m', rfl, hlt', hge', hm'⟩ := h'
  rcases lt_trichotomy e e' with he | rfl | he
  · -- the carry of the lower one does not reach beyond the place of the other
    have hhigh := hm.le_of_lt hlt
    have hlow := hm'.ge_of_ge (hge'.resolve_left (by omega))
    omega
  · have := hm.mono hm' (by gcongr)
    omega
  · have hge := hge.resolve_left (by omega)
    have hpow : (2 : ℚ) ^ (e' + 53) ≤ 2 ^ (e + 52) := pow_le_pow_right₀ one_le_two (by omega)
    exact absurd (hge.trans (hle.trans hlt'.le)) (by linarith)

theorem Rounds.eq {s : ℚ} {w w' : ℕ} (h : Rounds s w) (h' : Rounds s w') : w = w' :=
  le_antisymm (h.mono h' le_rfl) (h'.mono h le_rfl)

/-- What is counted in the spacing of a place, up to the carry. -/
theorem steps_scaled {e m : ℕ} (hge : e = 0 ∨ 2 ^ 52 ≤ m) (hle : m ≤ 2 ^ 53) :
    steps (e * 2 ^ 52 + m) = m * 2 ^ e := by
  unfold steps
  by_cases hsmall : m < 2 ^ 52
  · obtain rfl : e = 0 := by omega
    rw [if_pos (by omega), Nat.zero_mul, Nat.zero_add, Nat.pow_zero, Nat.mul_one]
  · rw [if_neg (by omega)]
    by_cases hcarry : m = 2 ^ 53
    · have hdiv : (e * 2 ^ 52 + m) / 2 ^ 52 - 1 = e + 1 := by omega
      have hmod : (e * 2 ^ 52 + m) % 2 ^ 52 = 0 := by omega
      rw [hdiv, hmod, hcarry]
      ring
    · have hdiv : (e * 2 ^ 52 + m) / 2 ^ 52 - 1 = e := by omega
      have hmod : 2 ^ 52 + (e * 2 ^ 52 + m) % 2 ^ 52 = m := by omega
      rw [hdiv, hmod]

/-- Every word counts in the spacing of some place. -/
theorem exists_scaled (w : ℕ) : ∃ e m, w = e * 2 ^ 52 + m ∧ m < 2 ^ 53 ∧ (e = 0 ∨ 2 ^ 52 ≤ m) := by
  by_cases hsmall : w < 2 ^ 52
  · exact ⟨0, w, by omega, by omega, .inl rfl⟩
  · exact ⟨w / 2 ^ 52 - 1, 2 ^ 52 + w % 2 ^ 52, by omega, by omega, .inr (by omega)⟩

/-- **What a word stands for is rounded to this word.** -/
theorem rounds_steps (w : ℕ) : Rounds (steps w) w := by
  obtain ⟨e, m, rfl, hlt, hge⟩ := exists_scaled w
  rw [steps_scaled hge hlt.le]
  refine ⟨e, m, rfl, ?_, hge.imp_right fun h => ?_, ?_⟩
  · have : m * 2 ^ e < 2 ^ 53 * 2 ^ e := by gcongr
    rw [add_comm, pow_add]
    exact_mod_cast this
  · have : 2 ^ 52 * 2 ^ e ≤ m * 2 ^ e := by gcongr
    rw [add_comm, pow_add]
    exact_mod_cast this
  · push_cast
    rw [mul_div_cancel_right₀ _ (by positivity)]
    exact isNearest_natCast m

/-- Words lie in the order of what they stand for. -/
theorem le_of_steps_le {w w' : ℕ} (h : steps w ≤ steps w') : w ≤ w' :=
  (rounds_steps w).mono (rounds_steps w') (by exact_mod_cast h)

theorem steps_strictMono : StrictMono steps := fun _ _ h =>
  not_le.mp fun hle => absurd (le_of_steps_le hle) (not_le.mpr h)

theorem steps_pos {w : ℕ} (h : 0 < w) : 0 < steps w := (Nat.zero_le _).trans_lt (steps_strictMono h)

/-- A whole number below `2 ^ 53` in the spacing of any place is what some word stands for. -/
theorem exists_steps_eq {m : ℕ} (hm : m < 2 ^ 53) (e : ℕ) : ∃ w, steps w = m * 2 ^ e := by
  induction e generalizing m with
  | zero => exact ⟨0 * 2 ^ 52 + m, steps_scaled (.inl rfl) hm.le⟩
  | succ e ih =>
    by_cases hsmall : m < 2 ^ 52
    · obtain ⟨w, hw⟩ := ih (m := 2 * m) (by omega)
      exact ⟨w, by rw [hw]; ring⟩
    · exact ⟨(e + 1) * 2 ^ 52 + m, steps_scaled (.inr (by omega)) hm.le⟩

/-- **Rounding is off by little.** -/
theorem Rounds.close {s : ℚ} {w : ℕ} (h : Rounds s w) (hs : 2 ^ 52 ≤ s) :
    |(steps w : ℚ) - s| ≤ s / 2 ^ 53 := by
  obtain ⟨e, m, rfl, hlt, hge, hm⟩ := h
  have hplace : (2 : ℚ) ^ (e + 52) ≤ s := hge.elim (fun he => by simpa [he] using hs) id
  rw [steps_scaled (.inr (hm.ge_of_ge hplace)) (hm.le_of_lt hlt)]
  have hcount : ((m * 2 ^ e : ℕ) : ℚ) - s = -((s / 2 ^ e - m) * 2 ^ e) := by
    push_cast
    field_simp
    ring
  rw [hcount, abs_neg, abs_mul, abs_of_pos (by positivity : (0 : ℚ) < 2 ^ e)]
  calc |s / 2 ^ e - m| * 2 ^ e ≤ 1 / 2 * 2 ^ e := by
        gcongr
        exact hm.close
    _ = 2 ^ (e + 52) / 2 ^ 53 := by ring
    _ ≤ s / 2 ^ 53 := by gcongr

/-- The same for a number that is not too small. -/
theorem Rounds.near {q : ℚ} {w : ℕ} (h : Rounds (q * grain) w) (hq : q = 0 ∨ 2 ^ 52 ≤ q * grain) :
    |steps w / grain - q| ≤ q / 2 ^ 53 := by
  have hgrain := grain_pos
  rcases hq with rfl | hq
  · rw [zero_mul] at h
    have hzero : w = 0 := h.eq (by simpa [steps] using rounds_steps 0)
    simp [hzero, steps]
  · have hoff : (steps w / grain - q : ℚ) = (steps w - q * grain) / grain := by field_simp
    rw [hoff, abs_div, abs_of_pos hgrain, div_le_iff₀ hgrain, div_mul_eq_mul_div]
    exact h.close hq

/-! ## Ratios -/

theorem shiftLeft_pos {d : ℕ} (hd : 0 < d) (k : ℕ) : 0 < d <<< k := by
  rw [Nat.shiftLeft_eq]
  positivity

/-- Shifting both parts of a ratio multiplies it by a power of two. -/
theorem shifted_ratio (n d : ℕ) (k : ℤ) :
    ((n <<< k.toNat : ℕ) : ℚ) / (d <<< (-k).toNat : ℕ) = n / d * 2 ^ k := by
  rw [Nat.shiftLeft_eq, Nat.shiftLeft_eq]
  push_cast
  rcases le_total 0 k with hk | hk
  · obtain ⟨j, rfl⟩ := Int.eq_ofNat_of_zero_le hk
    simp only [Int.toNat_natCast, Int.toNat_neg_natCast, pow_zero, mul_one, zpow_natCast]
    ring
  · obtain ⟨j, hj⟩ := Int.eq_ofNat_of_zero_le (neg_nonneg.mpr hk)
    obtain rfl : k = -j := by omega
    simp only [Int.toNat_natCast, Int.toNat_neg_natCast, neg_neg, pow_zero, mul_one, zpow_neg,
      zpow_natCast]
    rw [div_mul_eq_div_div, div_eq_mul_inv]

theorem zpow_log2_le {n : ℕ} (hn : 0 < n) : (2 : ℚ) ^ (n.log2 : ℤ) ≤ n := by
  exact_mod_cast Nat.log2_self_le hn.ne'

theorem lt_zpow_log2 (n : ℕ) : (n : ℚ) < 2 ^ (n.log2 + 1 : ℤ) := by
  exact_mod_cast Nat.lt_log2_self

/-- A ratio lies between the power of two that is found for it and the next one. -/
theorem log2Ratio_spec {n d : ℕ} (hn : 0 < n) (hd : 0 < d) :
    (2 : ℚ) ^ log2Ratio n d ≤ n / d ∧ (n : ℚ) / d < 2 ^ (log2Ratio n d + 1) := by
  have hd' : (0 : ℚ) < d := by exact_mod_cast hd
  unfold log2Ratio
  extract_lets l
  have hcompare : n <<< (-l).toNat < d <<< l.toNat ↔ (n : ℚ) / d < 2 ^ l := by
    have hpos : (0 : ℚ) < (d <<< l.toNat : ℕ) := by
      rw [Nat.shiftLeft_eq]
      positivity
    have hratio := shifted_ratio n d (-l)
    rw [neg_neg] at hratio
    rw [← Nat.cast_lt (α := ℚ), ← div_lt_one hpos, hratio, zpow_neg, ← div_eq_mul_inv,
      div_lt_one (by positivity)]
  split
  · rename_i hless
    refine ⟨?_, by simpa using hcompare.mp hless⟩
    calc (2 : ℚ) ^ (l - 1) = 2 ^ (n.log2 : ℤ) / 2 ^ (d.log2 + 1 : ℤ) := by
          rw [← zpow_sub₀ two_ne_zero]
          congr 1
          omega
      _ ≤ n / d := by
          gcongr
          · exact zpow_log2_le hn
          · exact (lt_zpow_log2 d).le
  · rename_i hmore
    refine ⟨not_lt.mp fun h => hmore (hcompare.mpr h), ?_⟩
    calc (n : ℚ) / d < 2 ^ (n.log2 + 1 : ℤ) / 2 ^ (d.log2 : ℤ) := by
          have hlow := zpow_log2_le hd
          rw [div_lt_div_iff₀ hd' (by positivity)]
          calc (n : ℚ) * 2 ^ (d.log2 : ℤ) ≤ n * d := by gcongr
            _ < 2 ^ (n.log2 + 1 : ℤ) * d := by
              gcongr
              exact lt_zpow_log2 n
      _ = 2 ^ (l + 1) := by
          rw [← zpow_sub₀ two_ne_zero]
          congr 1
          omega

/-- The word of a magnitude, of which an infinity is the last one. -/
def ofWord (w : ℕ) : Binary64 := signed false (min (2047 <<< 52) w)

/-- **The nearest double** of either sign has the word that the ratio is rounded to, or is
infinite. -/
theorem nearest_eq_signed (negative : Bool) (n : ℕ) {d : ℕ} (hd : 0 < d) :
    ∃ w, Rounds (n / d * grain) w ∧
    nearest negative n d = signed negative (min (2047 <<< 52) w) := by
  rcases Nat.eq_zero_or_pos n with rfl | hn
  · refine ⟨0, ?_, rfl⟩
    simpa [steps] using rounds_steps 0
  · obtain ⟨hlow, hhigh⟩ := log2Ratio_spec hn hd
    rw [nearest, if_neg hn.ne']
    extract_lets e m
    obtain ⟨j, hj⟩ : ∃ j : ℕ, e = j - 1074 := ⟨(e + 1074).toNat, by omega⟩
    -- the ratio in units of the least double, counted in the spacing of its place
    have hscale : ∀ k : ℕ, (2 : ℚ) ^ (j + k) = 2 ^ (e + k) * grain := by
      intro k
      rw [grain, ← zpow_add₀ two_ne_zero, hj, ← zpow_natCast]
      congr 1
      push_cast
      ring
    have hcount : (n : ℚ) / d * grain / 2 ^ j = n / d * 2 ^ (-e) := by
      have hgrain := hscale 0
      rw [Nat.cast_zero, Nat.add_zero, add_zero] at hgrain
      rw [hgrain, mul_div_mul_right _ _ grain_pos.ne', zpow_neg, ← div_eq_mul_inv]
    refine ⟨j * 2 ^ 52 + m, ⟨j, m, rfl, ?_, ?_, ?_⟩, ?_⟩
    · rw [hscale]
      refine mul_lt_mul_of_pos_right (hhigh.trans_le ?_) grain_pos
      exact zpow_le_zpow_right₀ one_le_two (by omega)
    · by_cases hleast : log2Ratio n d - 52 ≤ -1074
      · exact .inl (by omega)
      · refine .inr ?_
        rw [hscale]
        refine mul_le_mul_of_nonneg_right (le_trans (le_of_eq ?_) hlow) grain_pos.le
        congr 1
        omega
    · rw [hcount, ← shifted_ratio, neg_neg]
      exact isNearest_roundHalfEven _ (shiftLeft_pos hd _)
    · have hword : ((e + 1074).toNat <<< 52) + m = j * 2 ^ 52 + m := by
        rw [Nat.shiftLeft_eq, hj, sub_add_cancel, Int.toNat_natCast]
      exact congrArg (fun w => signed negative (min (2047 <<< 52) w)) hword

theorem nearest_eq (n : ℕ) {d : ℕ} (hd : 0 < d) :
    ∃ w, Rounds (n / d * grain) w ∧ nearest false n d = ofWord w :=
  nearest_eq_signed false n hd

/-- The same for a number with an exponent. -/
theorem nearestScaled_eq (m : ℕ) (e : ℤ) {d : ℕ} (hd : 0 < d) :
    ∃ w, Rounds (m / d * 2 ^ e * grain) w ∧ nearestScaled false m e d = ofWord w := by
  rw [← shifted_ratio]
  exact nearest_eq _ (shiftLeft_pos hd _)

end Binary64
end Cutover
