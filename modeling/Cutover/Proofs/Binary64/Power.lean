import Mathlib.Algebra.Group.PUnit
import Mathlib.Algebra.Group.TypeTags.Basic
import Cutover.Proofs.Binary64.Arithmetic

/-! # Powers of doubles

A power is computed by repeated squaring, each product being rounded.  What products keep between
doubles and the numbers that they are to represent, powers keep as well (`pow_represents`): powers
of two are exact (`pow_two`), and so are whole powers up to `2 ^ 53`, beyond which they do not fall
short of it (`Saturates`).

Powers with growing exponents differ in more than one product, but they still grow if the base is at
least one (`pow_mono`).  An exponent and the next one differ in a carry: where the one has taken a
factor at each of its lowest places, the other takes a single one at the place after, and this is
not less.
-/

namespace Cutover
namespace Binary64

/-! ## Repeated squaring -/

/-- Induction on a number by its binary digits. -/
@[elab_as_elim]
theorem halving {P : ℕ → Prop} (zero : P 0) (one : P 1) (even : ∀ i, 0 < i → P i → P (2 * i))
    (odd : ∀ i, 0 < i → P i → P (2 * i + 1)) (n : ℕ) : P n := by
  induction n using Nat.strong_induction_on with
  | _ n ih =>
    by_cases hsmall : n / 2 = 0
    · obtain rfl | rfl : n = 0 ∨ n = 1 := by omega
      · exact zero
      · exact one
    · have hhalf := ih (n / 2) (by omega)
      rcases Nat.mod_two_eq_zero_or_one n with hn | hn
      · have heven := even (n / 2) (by omega) hhalf
        rwa [show 2 * (n / 2) = n by omega] at heven
      · have hodd := odd (n / 2) (by omega) hhalf
        rwa [show 2 * (n / 2) + 1 = n by omega] at hodd

section
variable (a r : Binary64)

theorem go_zero : pow.go a r 0 = r := by
  rw [pow.go]
  rfl

theorem go_one : pow.go a r 1 = r * a := by
  rw [pow.go]
  rfl

theorem go_even {i : ℕ} (hi : 0 < i) : pow.go a r (2 * i) = pow.go (a * a) r i := by
  rw [pow.go]
  have hbit : ¬ 2 * i % 2 = 1 := by omega
  have hhalf : 2 * i / 2 = i := by omega
  simp only [if_neg hbit, hhalf, dif_neg hi.ne']

theorem go_odd {i : ℕ} (hi : 0 < i) : pow.go a r (2 * i + 1) = pow.go (a * a) (r * a) i := by
  rw [pow.go]
  have hbit : (2 * i + 1) % 2 = 1 := by omega
  have hhalf : (2 * i + 1) / 2 = i := by omega
  simp only [if_pos hbit, hhalf, dif_neg hi.ne']

end

theorem pow_natCast (x : Binary64) (k : ℕ) : x.pow k = pow.go x (ofNat 1) k := by
  have hsign : ¬ (k : ℤ) < 0 := by omega
  rw [pow, Int.natAbs_natCast, if_neg hsign]

/-- **What products keep between doubles and what they represent, powers keep.** -/
theorem pow_represents {M : Type} [CommMonoid M] {R : M → Binary64 → Prop}
    (hmul : ∀ A B a b, R A a → R B b → R (A * B) (a * b)) (hone : R 1 (ofNat 1)) {A : M}
    {x : Binary64} (hx : R A x) (k : ℕ) : R (A ^ k) (x.pow k) := by
  have hgo : ∀ A B a r, R A a → R B r → R (B * A ^ k) (pow.go a r k) := by
    induction k using halving with
    | zero =>
      intro A B a r _ hr
      rwa [go_zero, pow_zero, mul_one]
    | one =>
      intro A B a r ha hr
      rw [go_one, pow_one]
      exact hmul B A r a hr ha
    | even i hi ih =>
      intro A B a r ha hr
      rw [go_even a r hi, pow_mul, sq]
      exact ih _ _ _ _ (hmul A A a a ha ha) hr
    | odd i hi ih =>
      intro A B a r ha hr
      rw [go_odd a r hi, pow_succ', pow_mul, sq, ← mul_assoc]
      exact ih _ _ _ _ (hmul A A a a ha ha) (hmul B A r a hr ha)
  have := hgo A 1 x (ofNat 1) hx hone
  rwa [one_mul, ← pow_natCast] at this

/-! ## Powers of two -/

/-- A power of two, or the infinity if it is beyond the largest double. -/
def powTwo (k : ℕ) : Binary64 := ofWord ((1023 + k) * 2 ^ 52)

theorem steps_powTwo (k : ℕ) : (steps ((1023 + k) * 2 ^ 52) : ℚ) = 2 ^ k * grain := by
  have hword : (1023 + k) * 2 ^ 52 = (1022 + k) * 2 ^ 52 + 2 ^ 52 := by omega
  have hexponent : (k : ℤ) + 1074 = ((52 + (1022 + k) : ℕ) : ℤ) := by omega
  rw [hword, steps_scaled (.inr le_rfl) (by decide), ← pow_add, Nat.cast_pow, grain,
    ← zpow_natCast (2 : ℚ) k, ← zpow_add₀ two_ne_zero, hexponent, zpow_natCast, Nat.cast_ofNat]

/-- Where the doubles end. -/
theorem steps_top : (steps top : ℚ) = 2 ^ 1024 * grain := steps_powTwo 1024

/-- Below `2 ^ 1024` words stand for finite doubles. -/
theorem lt_top_of_lt {w : ℕ} (h : (steps w / grain : ℚ) < 2 ^ 1024) : w < top := by
  rw [div_lt_iff₀ grain_pos, ← steps_top] at h
  exact steps_strictMono.lt_iff_lt.mp (by exact_mod_cast h)

/-- A double times a power of two is exact. -/
theorem exists_steps_mul_two_pow (w k : ℕ) : ∃ v, steps v = steps w * 2 ^ k := by
  obtain ⟨e, m, rfl, hlt, hge⟩ := exists_scaled w
  obtain ⟨v, hv⟩ := exists_steps_eq hlt (e + k)
  exact ⟨v, by rw [hv, steps_scaled hge hlt.le, pow_add, mul_assoc]⟩

/-- Whole numbers below `2 ^ 53` are doubles. -/
theorem exists_steps_natCast {m : ℕ} (hm : m < 2 ^ 53) : ∃ w, (steps w : ℚ) = m * grain := by
  obtain ⟨w, hw⟩ := exists_steps_eq hm 1074
  refine ⟨w, ?_⟩
  rw [hw, grain, Nat.cast_mul, Nat.cast_pow, Nat.cast_ofNat]
  exact congrArg _ (zpow_natCast (2 : ℚ) 1074).symm

/-- A natural number that is not too great is a finite double, off by little. -/
theorem ofNat_near {n : ℕ} (hn : n < 2 ^ 64) :
    ∃ w < top, ofNat n = ofWord w ∧ |(steps w / grain : ℚ) - n| ≤ n / 2 ^ 53 := by
  obtain ⟨w, hw, heq⟩ := nearest_eq n one_pos
  rw [Nat.cast_one, div_one] at hw
  have hnear :=
    hw.near <| (Nat.eq_zero_or_pos n).imp (fun h => by rw [h, Nat.cast_zero]) fun h => by
    have hone : (1 : ℚ) ≤ n := by exact_mod_cast h
    exact (two_pow_le_grain (by decide)).trans (le_mul_of_one_le_left grain_pos.le hone)
  refine ⟨w, lt_top_of_lt ?_, heq, hnear⟩
  have hlt : (n : ℚ) < 2 ^ 64 := by exact_mod_cast hn
  have hnonneg : (0 : ℚ) ≤ n := n.cast_nonneg
  have habove := (abs_le.mp hnear).2
  have hbelow : (steps w / grain : ℚ) < 2 ^ 65 := by linarith
  exact hbelow.trans_le (pow_le_pow_right₀ one_le_two (by decide))

/-- A natural number below `2 ^ 53` times a power of two is exact. -/
theorem ofNat_mul_two_pow {m : ℕ} (hm : m < 2 ^ 53) {k : ℕ} (hk : k ≤ 971) :
    ∃ w < top, ofNat (m * 2 ^ k) = ofWord w ∧ (steps w / grain : ℚ) = (m * 2 ^ k : ℕ) := by
  obtain ⟨u, hu⟩ := exists_steps_natCast hm
  obtain ⟨v, hv⟩ := exists_steps_mul_two_pow u k
  have hsteps : (steps v : ℚ) = (m * 2 ^ k : ℕ) * grain := by
    rw [hv]
    push_cast
    rw [hu]
    ring
  obtain ⟨w, hw, heq⟩ := nearest_eq (m * 2 ^ k) one_pos
  rw [Nat.cast_one, div_one, ← hsteps] at hw
  obtain rfl := hw.eq (rounds_steps v)
  have hvalue : (steps w / grain : ℚ) = (m * 2 ^ k : ℕ) := by
    rw [hsteps, mul_div_cancel_right₀ _ grain_pos.ne']
  refine ⟨w, lt_top_of_lt ?_, heq, hvalue⟩
  rw [hvalue]
  have hlt : (m : ℚ) < 2 ^ 53 := by exact_mod_cast hm
  calc ((m * 2 ^ k : ℕ) : ℚ) = m * 2 ^ k := by push_cast; rfl
    _ < 2 ^ 53 * 2 ^ k := by gcongr
    _ = 2 ^ (53 + k) := (pow_add 2 53 k).symm
    _ ≤ 2 ^ 1024 := pow_le_pow_right₀ one_le_two (by omega)

/-- A natural number below `2 ^ 53` is exact. -/
theorem ofNat_exact {m : ℕ} (hm : m < 2 ^ 53) :
    ∃ w < top, ofNat m = ofWord w ∧ (steps w / grain : ℚ) = m := by
  simpa using ofNat_mul_two_pow hm (Nat.zero_le 971)

/-- The powers of ten up to the twenty-second are exact, since those of five are below `2 ^ 53`. -/
theorem ofNat_ten_pow {k : ℕ} (hk : k ≤ 22) :
    ∃ w < top, ofNat (10 ^ k) = ofWord w ∧ (steps w / grain : ℚ) = (10 ^ k : ℕ) := by
  have hfive : 5 ^ k < 2 ^ 53 :=
    Nat.lt_of_le_of_lt (Nat.pow_le_pow_right (by decide) hk) (by decide)
  have hten : 10 ^ k = 5 ^ k * 2 ^ k := by rw [← Nat.mul_pow]
  rw [hten]
  exact ofNat_mul_two_pow hfive (by omega)

theorem ofNat_one : ofNat 1 = powTwo 0 := by decide +kernel

theorem ofNat_two : ofNat 2 = powTwo 1 := by decide +kernel

/-- Beyond the largest double there is but the infinity. -/
theorem powTwo_of_le {k : ℕ} (hk : 1024 ≤ k) : powTwo k = ofWord top := by
  have htop : top = 2047 * 2 ^ 52 := rfl
  rw [powTwo, ofWord_of_top_le (by omega), ofWord_of_top_le le_rfl]

theorem exists_word_powTwo (k : ℕ) : ∃ w ≤ top, w ≠ 0 ∧ powTwo k = ofWord w := by
  have htop : top = 2047 * 2 ^ 52 := rfl
  by_cases hk : k < 1024
  · exact ⟨(1023 + k) * 2 ^ 52, by omega, by omega, rfl⟩
  · exact ⟨top, le_rfl, by omega, powTwo_of_le (by omega)⟩

/-- **A product with a power of two is exact.** -/
theorem ofWord_mul_powTwo {w k : ℕ} (hw : w ≤ top) (hk : k < 1024) :
    ∃ v, steps v = steps w * 2 ^ k ∧ ofWord w * powTwo k = ofWord v := by
  have htop : top = 2047 * 2 ^ 52 := rfl
  obtain ⟨v, hv⟩ := exists_steps_mul_two_pow w k
  refine ⟨v, hv, ?_⟩
  by_cases hinf : w = top
  · have hle : top ≤ v := by
      rw [← hinf]
      exact le_of_steps_le (hv ▸ Nat.le_mul_of_pos_right _ (by positivity))
    rw [powTwo, ofWord_mul_top hw (by omega) (.inl hinf), if_neg (by omega),
      ofWord_of_top_le le_rfl, ofWord_of_top_le hle]
  · refine ofWord_mul_of_eq (by omega) (by omega) ?_
    rw [steps_powTwo, hv]
    push_cast
    ring

/-- **Products of powers of two are exact.** -/
theorem powTwo_mul (i j : ℕ) : powTwo i * powTwo j = powTwo (i + j) := by
  have htop : top = 2047 * 2 ^ 52 := rfl
  by_cases hfinite : i < 1024 ∧ j < 1024
  · refine ofWord_mul_of_eq (by omega) (by omega) ?_
    rw [steps_powTwo, steps_powTwo, steps_powTwo, pow_add]
    ring
  · obtain ⟨a, ha, ha0, hi⟩ := exists_word_powTwo i
    obtain ⟨b, hb, hb0, hj⟩ := exists_word_powTwo j
    have hinf : a = top ∨ b = top := by
      rcases not_and_or.mp hfinite with h | h
      · refine .inl ?_
        have hword := congrArg word (hi.symm.trans (powTwo_of_le (by omega)))
        rwa [word_ofWord_of_le ha, word_ofWord_of_le le_rfl] at hword
      · refine .inr ?_
        have hword := congrArg word (hj.symm.trans (powTwo_of_le (by omega)))
        rwa [word_ofWord_of_le hb, word_ofWord_of_le le_rfl] at hword
    rw [hi, hj, ofWord_mul_top ha hb hinf, if_neg (by omega), powTwo_of_le (by omega)]

/-- **Powers of two are exact.** -/
theorem pow_two (k : ℕ) : (ofNat 2).pow k = powTwo k := by
  have hmul : ∀ (A B : Multiplicative ℕ) (a b : Binary64), a = powTwo A.toAdd → b = powTwo B.toAdd →
      a * b = powTwo (A * B).toAdd := by
    rintro A B _ _ rfl rfl
    exact powTwo_mul _ _
  have hpow := pow_represents hmul ofNat_one (A := .ofAdd 1) ofNat_two k
  simpa using hpow

/-! ## Growth -/

/-- At least one. -/
def IsGrowth (x : Binary64) : Prop := (ofNat 1).word ≤ x.word ∧ x.IsMagnitude

/-- One is neutral. -/
theorem one_mul_of_isMagnitude {x : Binary64} (hx : x.IsMagnitude) : ofNat 1 * x = x := by
  have htop : top = 2047 * 2 ^ 52 := rfl
  obtain ⟨a, ha, rfl⟩ := hx.exists_word
  rw [ofNat_one, powTwo]
  by_cases hinf : a = top
  · rw [ofWord_mul_top (by omega) ha (.inr hinf), if_neg (by omega), hinf]
  · refine ofWord_mul_of_eq (by omega) (by omega) ?_
    rw [steps_powTwo]
    ring

section
variable {x x' y y' : Binary64}

theorem isGrowth_powTwo (k : ℕ) : (powTwo k).IsGrowth := by
  have hle : (1023 + 0) * 2 ^ 52 ≤ (1023 + k) * 2 ^ 52 := Nat.mul_le_mul_right _ (by omega)
  refine ⟨?_, isMagnitude_ofWord _⟩
  rw [ofNat_one]
  exact word_ofWord_mono hle

theorem isGrowth_one : (ofNat 1).IsGrowth := ofNat_one ▸ isGrowth_powTwo 0

theorem isGrowth_of_one_le (hnum : x.isNaN = false) (hone : 1 ≤ x.value) : x.IsGrowth := by
  have hx := isMagnitude_of_one_le hnum hone
  refine ⟨?_, hx⟩
  obtain ⟨a, ha, rfl⟩ := hx.exists_word
  have hpow := steps_powTwo 0
  rw [pow_zero, one_mul] at hpow
  rw [value_ofWord ha, le_div_iff₀ grain_pos, one_mul, ← hpow] at hone
  rw [ofNat_one]
  exact word_ofWord_mono (le_of_steps_le (by exact_mod_cast hone))

theorem IsGrowth.ne_zero (hx : x.IsGrowth) : x.word ≠ 0 := by
  have hone : 0 < (ofNat 1).word := by decide +kernel
  exact (hone.trans_le hx.1).ne'

theorem IsGrowth.isMagnitude_mul (hx : x.IsGrowth) (hy : y.IsGrowth) : (x * y).IsMagnitude :=
  hx.2.mul hy.2 hx.ne_zero hy.ne_zero

/-- **Products of what is at least one keep the order.** -/
theorem IsGrowth.mul_le_mul (hx : x.IsGrowth) (hy : y.IsGrowth) (hx' : x'.IsGrowth)
    (hy' : y'.IsGrowth) (hle : x.word ≤ x'.word) (hle' : y.word ≤ y'.word) :
    (x * y).word ≤ (x' * y').word :=
  (mul_mono hx'.2 hy'.2 hle hle' (hx.isMagnitude_mul hy).isNaN (hx'.isMagnitude_mul hy').isNaN).1

theorem IsGrowth.mul (hx : x.IsGrowth) (hy : y.IsGrowth) : (x * y).IsGrowth := by
  refine ⟨?_, hx.isMagnitude_mul hy⟩
  have := isGrowth_one.mul_le_mul isGrowth_one hx hy hx.1 hy.1
  rwa [one_mul_of_isMagnitude isGrowth_one.2] at this

theorem isGrowth_pow (hx : x.IsGrowth) (k : ℕ) : (x.pow k).IsGrowth :=
  pow_represents (M := Unit) (R := fun _ x => x.IsGrowth) (fun _ _ _ _ => IsGrowth.mul) isGrowth_one
    (A := ()) hx k

end

/-! ## Whole powers -/

/-- A double represents a positive whole number exactly if it is below `2 ^ 53`, and else is not
below that. -/
structure Saturates (A : ℕ) (x : Binary64) : Prop where
  pos : 0 < A
  growth : x.IsGrowth
  exact : A < 2 ^ 53 → x.value = A
  great : 2 ^ 53 ≤ A → (powTwo 53).word ≤ x.word

/-- What is rounded to a double is represented by it. -/
theorem saturates_of_rounds {A v : ℕ} (hA : 0 < A) (hv : Rounds (A * grain) v) :
    Saturates A (ofWord v) where
  pos := hA
  growth := by
    refine ⟨?_, isMagnitude_ofWord v⟩
    rw [ofNat_one]
    refine word_ofWord_mono ((rounds_steps _).mono hv ?_)
    rw [steps_powTwo, pow_zero]
    exact mul_le_mul_of_nonneg_right (by exact_mod_cast hA) grain_pos.le
  exact h := by
    obtain ⟨w, hw⟩ := exists_steps_natCast h
    have hlt : (A : ℚ) < 2 ^ 1024 := by
      have hlt : (A : ℚ) < 2 ^ 53 := by exact_mod_cast h
      exact hlt.trans_le (pow_le_pow_right₀ one_le_two (by decide))
    rw [← hw] at hv
    obtain rfl := hv.eq (rounds_steps w)
    have hvalue : (steps v / grain : ℚ) = A := by rw [hw, mul_div_cancel_right₀ _ grain_pos.ne']
    rw [value_ofWord (lt_top_of_lt (hvalue ▸ hlt)).le, hvalue]
  great h := by
    refine word_ofWord_mono ((rounds_steps _).mono hv ?_)
    rw [steps_powTwo]
    exact mul_le_mul_of_nonneg_right (by exact_mod_cast h) grain_pos.le

theorem saturates_ofNat {m : ℕ} (hm : 0 < m) : Saturates m (ofNat m) := by
  obtain ⟨v, hv, heq⟩ := nearest_eq m one_pos
  rw [Nat.cast_one, div_one] at hv
  rw [ofNat, heq]
  exact saturates_of_rounds hm hv

/-- The word of a number that is represented exactly. -/
theorem Saturates.exists_word {A : ℕ} {x : Binary64} (h : Saturates A x) (hA : A < 2 ^ 53) :
    ∃ w < top, x = ofWord w ∧ (steps w / grain : ℚ) = A := by
  obtain ⟨w, hw, rfl⟩ := h.growth.2.exists_word
  have hvalue := h.exact hA
  rw [value_ofWord hw] at hvalue
  refine ⟨w, lt_top_of_lt ?_, rfl, hvalue⟩
  have hlt : (A : ℚ) < 2 ^ 53 := by exact_mod_cast hA
  rw [hvalue]
  exact hlt.trans_le (pow_le_pow_right₀ one_le_two (by decide))

/-- **Products represent products.** -/
theorem Saturates.mul {A B : ℕ} {a b : Binary64} (ha : Saturates A a) (hb : Saturates B b) :
    Saturates (A * B) (a * b) := by
  by_cases hsmall : A < 2 ^ 53 ∧ B < 2 ^ 53
  · obtain ⟨w, hw, rfl, hA⟩ := ha.exists_word hsmall.1
    obtain ⟨w', hw', rfl, hB⟩ := hb.exists_word hsmall.2
    obtain ⟨v, hv, heq⟩ := ofWord_mul hw hw'
    have hgrain := grain_pos
    have hproduct : (steps w * steps w' / grain : ℚ) = (A * B : ℕ) * grain := by
      rw [Nat.cast_mul, ← hA, ← hB]
      field_simp
    rw [heq]
    exact saturates_of_rounds (Nat.mul_pos ha.pos hb.pos) (hproduct ▸ hv)
  · have hgreat : 2 ^ 53 ≤ A * B := by
      rcases not_and_or.mp hsmall with h | h
      · exact (not_lt.mp h).trans (Nat.le_mul_of_pos_right A hb.pos)
      · exact (not_lt.mp h).trans (Nat.le_mul_of_pos_left B ha.pos)
    refine ⟨Nat.mul_pos ha.pos hb.pos, ha.growth.mul hb.growth, fun h =>
      absurd hgreat (not_le.mpr h), fun _ => ?_⟩
    have hpower := isGrowth_powTwo 53
    rcases not_and_or.mp hsmall with h | h
    · have :=
        hpower.mul_le_mul isGrowth_one ha.growth hb.growth (ha.great (not_lt.mp h)) hb.growth.1
      rwa [ofNat_one, powTwo_mul] at this
    · have :=
        isGrowth_one.mul_le_mul hpower ha.growth hb.growth ha.growth.1 (hb.great (not_lt.mp h))
      rwa [one_mul_of_isMagnitude hpower.2] at this

/-- **Powers represent powers.** -/
theorem saturates_pow {m : ℕ} (hm : 0 < m) (k : ℕ) : Saturates (m ^ k) ((ofNat m).pow k) :=
  pow_represents (fun _ _ _ _ => Saturates.mul) (saturates_ofNat one_pos) (saturates_ofNat hm) k

/-! ## The next exponent -/

section
variable {a a' r r' : Binary64} (ha : a.IsGrowth) (hr : r.IsGrowth)
include ha hr

/-- Squaring goes on with more if it begins with more. -/
theorem go_mono (ha' : a'.IsGrowth) (hr' : r'.IsGrowth) (hle : a.word ≤ a'.word)
    (hle' : r.word ≤ r'.word) (n : ℕ) : (pow.go a r n).word ≤ (pow.go a' r' n).word := by
  induction n using halving generalizing a a' r r' with
  | zero => rwa [go_zero, go_zero]
  | one =>
    rw [go_one, go_one]
    exact hr.mul_le_mul ha hr' ha' hle' hle
  | even i hi ih =>
    rw [go_even _ _ hi, go_even _ _ hi]
    exact ih (ha.mul ha) hr (ha'.mul ha') hr' (ha.mul_le_mul ha ha' ha' hle hle) hle'
  | odd i hi ih =>
    rw [go_odd _ _ hi, go_odd _ _ hi]
    exact ih (ha.mul ha) (hr.mul ha) (ha'.mul ha') (hr'.mul ha') (ha.mul_le_mul ha ha' ha' hle hle)
      (hr.mul_le_mul ha hr' ha' hle' hle)

/-- **A carry does not make less.**  What has been taken at the places before is at most the factor
of this one. -/
theorem go_le_go_succ (hle : r.word ≤ a.word) (n : ℕ) :
    (pow.go a r n).word ≤ (pow.go a (ofNat 1) (n + 1)).word := by
  induction n using halving generalizing a r with
  | zero => rwa [go_zero, go_one, one_mul_of_isMagnitude ha.2]
  | one =>
    -- the factor is taken once more, or squared
    have hcarry : 1 + 1 = 2 * 1 := rfl
    rw [go_one, hcarry, go_even a (ofNat 1) one_pos, go_one, one_mul_of_isMagnitude (ha.mul ha).2]
    exact hr.mul_le_mul ha ha ha hle le_rfl
  | even i hi ih =>
    rw [go_even _ _ hi, go_odd _ _ hi, one_mul_of_isMagnitude ha.2]
    exact go_mono (ha.mul ha) hr (ha.mul ha) ha le_rfl hle i
  | odd i hi ih =>
    have hcarry : 2 * i + 1 + 1 = 2 * (i + 1) := by ring
    rw [go_odd _ _ hi, hcarry, go_even _ _ i.succ_pos]
    exact ih (ha.mul ha) (hr.mul ha) (hr.mul_le_mul ha ha ha hle le_rfl)

end

/-- **Powers of what is at least one grow with the exponent.** -/
theorem pow_mono {x : Binary64} (hx : x.IsGrowth) {j k : ℕ} (hjk : j ≤ k) :
    (x.pow j).word ≤ (x.pow k).word := by
  induction k, hjk using Nat.le_induction with
  | base => exact le_rfl
  | succ k _ ih =>
    refine ih.trans ?_
    rw [pow_natCast, pow_natCast]
    exact go_le_go_succ hx isGrowth_one hx.1 k

end Binary64
end Cutover
