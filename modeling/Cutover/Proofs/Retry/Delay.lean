import Cutover.Retry
import Cutover.Proofs.Binary64.Power

/-! # Waits between attempts

The wait after an attempt is computed with doubles: the base in seconds times a power of the
multiplier, rounded to whole nanoseconds and cut at the cap.  It does not exist where the product is
no span of time, however small the cap is.  If the wait doubles, the product is exact, so this can
be said in terms of the base (`delay?_eq_none_iff`).  As long as the multiplier is at least one
waits grow (`delay?_mono`), and with a whole multiplier and a moderate cap nothing is lost by the
doubles (`delay?_exact`).
-/

namespace Cutover

open Binary64

namespace Duration

/-- **Which numbers of seconds are spans**: finite ones that are not negative, below `2 ^ 64`.  The
span has the nearest whole number of nanoseconds. -/
theorem ofSeconds?_cases (x : Binary64) :
    ofSeconds? x = none ∧ (x.isFinite = false ∨ x.isNegative = true ∧ x.isZero = false ∨
      2 ^ 64 ≤ x.value) ∨ ∃ d, ofSeconds? x = some d ∧ x.isFinite = true ∧ x.value < 2 ^ 64 ∧
        IsNearest (x.value * 10 ^ 9) d.nanoseconds := by
  unfold ofSeconds?
  split
  · rename_i h
    refine .inl ⟨rfl, ?_⟩
    rw [Bool.or_eq_true, Bool.and_eq_true, Bool.not_eq_true', Bool.not_eq_true'] at h
    exact h.imp_right .inl
  · rename_i h
    rw [Bool.or_eq_true, Bool.and_eq_true, Bool.not_eq_true', Bool.not_eq_true', not_or, not_and,
      Bool.not_eq_false, Bool.not_eq_false] at h
    have hvalue : x.value = x.mantissa * 2 ^ x.exponent := by
      unfold value
      split
      · rename_i hneg
        have hzero := h.2 hneg
        rw [Binary64.isZero, Bool.and_eq_true, beq_iff_eq, beq_iff_eq] at hzero
        rw [mantissa, if_pos hzero.1, hzero.2]
        simp
      · rw [one_mul]
    have hsize : (0 : ℚ) < (UInt64.size <<< (-x.exponent).toNat : ℕ) := by
      exact_mod_cast shiftLeft_pos (by decide) _
    have hbound : UInt64.size <<< (-x.exponent).toNat ≤ x.mantissa <<< x.exponent.toNat ↔
        2 ^ 64 ≤ x.value := by
      have hratio := shifted_ratio x.mantissa UInt64.size x.exponent
      rw [div_mul_eq_mul_div, ← hvalue] at hratio
      rw [← Nat.cast_le (α := ℚ), ← one_le_div hsize, hratio,
        one_le_div (by norm_num [UInt64.size])]
      norm_num [UInt64.size]
    split
    · rename_i hgreat
      exact .inl ⟨rfl, .inr (.inr (hbound.mp hgreat))⟩
    · rename_i hgreat
      refine .inr ⟨_, rfl, h.1, not_le.mp fun hle => hgreat (hbound.mpr hle), ?_⟩
      have hnanos : x.value * 10 ^ 9 =
          (x.mantissa * 1000000000 : ℕ) / (1 : ℕ) * 2 ^ x.exponent := by
        rw [hvalue]
        push_cast
        ring
      rw [hnanos, ← shifted_ratio]
      exact isNearest_roundHalfEven _ (shiftLeft_pos one_pos _)

/-- A magnitude of seconds is a span if it is below `2 ^ 64`. -/
theorem ofSeconds?_ofWord_eq_none_iff (w : ℕ) :
    ofSeconds? (ofWord w) = none ↔ (2 : ℚ) ^ 64 ≤ steps w / grain := by
  by_cases hw : w < top
  · rw [← value_ofWord hw.le]
    rcases ofSeconds?_cases (ofWord w) with ⟨hnone, h⟩ | ⟨d, hsome, -, hlt, -⟩
    · refine iff_of_true hnone ?_
      rw [isFinite_ofWord hw.le, isNegative_ofWord hw.le, decide_eq_true hw] at h
      simpa using h
    · exact iff_of_false (by simp [hsome]) (not_le.mpr hlt)
  · have htop : top ≤ w := not_lt.mp hw
    refine iff_of_true ?_ ?_
    · rw [ofWord_of_top_le htop, ← ofWord_of_top_le le_rfl, ofSeconds?, isFinite_ofWord le_rfl,
        decide_eq_false (lt_irrefl top), Bool.not_false, Bool.true_or, if_pos rfl]
    · rw [le_div_iff₀ grain_pos]
      calc (2 : ℚ) ^ 64 * grain ≤ 2 ^ 1024 * grain :=
            mul_le_mul_of_nonneg_right (pow_le_pow_right₀ one_le_two (by decide)) grain_pos.le
        _ = steps top := steps_top.symm
        _ ≤ steps w := by exact_mod_cast steps_strictMono.monotone htop

/-- The part of a span below a second is off by little. -/
theorem fraction_near (d : Duration) :
    ∃ w < top, ofNat (d.nanoseconds % 1000000000) / ofNat 1000000000 = ofWord w ∧
      |(steps w / grain : ℚ) - (d.nanoseconds % 1000000000 : ℕ) / 10 ^ 9| ≤
        ((d.nanoseconds % 1000000000 : ℕ) : ℚ) / 10 ^ 9 / 2 ^ 53 := by
  have hlt : d.nanoseconds % 1000000000 < 1000000000 := Nat.mod_lt _ (by decide)
  generalize d.nanoseconds % 1000000000 = n at *
  have hgrain := grain_pos
  obtain ⟨a, ha, hofa, hstepsa⟩ := ofNat_exact (m := n) (by omega)
  obtain ⟨b, hb, hofb, hstepsb⟩ := ofNat_exact (m := 1000000000) (by decide)
  have hpos : 0 < b := by
    refine Nat.pos_of_ne_zero ?_
    rintro rfl
    norm_num [steps] at hstepsb
  obtain ⟨w, hw, heq⟩ := ofWord_div ha hb hpos
  have hquotient : (steps a / steps b : ℚ) = n / 10 ^ 9 := by
    have hcancel : (steps a / steps b : ℚ) = (steps a / grain) / (steps b / grain) := by field_simp
    rw [hcancel, hstepsa, hstepsb]
    norm_num
  rw [hquotient] at hw
  have hnear := hw.near <| (Nat.eq_zero_or_pos n).imp (fun h => by simp [h]) fun h => by
    have hone : (1 : ℚ) ≤ n := by exact_mod_cast h
    have hgreat := two_pow_le_grain (k := 82) (by decide)
    rw [div_mul_eq_mul_div, le_div_iff₀ (by norm_num)]
    calc (2 : ℚ) ^ 52 * 10 ^ 9 ≤ 2 ^ 82 := by norm_num
      _ ≤ grain := hgreat
      _ ≤ n * grain := le_mul_of_one_le_left hgrain.le hone
  refine ⟨w, lt_top_of_lt ?_, by rw [hofa, hofb, heq], hnear⟩
  have hsmall : (n / 10 ^ 9 : ℚ) < 1 := by
    rw [div_lt_one (by norm_num)]
    exact_mod_cast hlt
  have habove := (abs_le.mp hnear).2
  have hbelow : (steps w / grain : ℚ) < 2 ^ 1 := by linarith
  exact hbelow.trans_le (pow_le_pow_right₀ one_le_two (by decide))

/-- The seconds of a span are a magnitude. -/
theorem isMagnitude_seconds (d : Duration) : d.seconds.IsMagnitude := by
  obtain ⟨w, -, heq, -⟩ := d.fraction_near
  rw [seconds, heq]
  exact (isMagnitude_ofNat _).add (isMagnitude_ofWord w)

/-- **The seconds of a span are off by little.** -/
theorem seconds_near {d : Duration} (hd : d.nanoseconds < 2 ^ 64 * 10 ^ 9) :
    ∃ w < top, d.seconds = ofWord w ∧
      |(steps w / grain : ℚ) - d.nanoseconds / 10 ^ 9| ≤ (d.nanoseconds : ℚ) / 10 ^ 9 / 2 ^ 51 := by
  obtain ⟨a, ha, hofa, hneara⟩ := ofNat_near (n := d.nanoseconds / 1000000000) (by omega)
  obtain ⟨b, hb, hofb, hnearb⟩ := d.fraction_near
  obtain ⟨w, hw, heq⟩ := ofWord_add ha hb
  have hgrain := grain_pos
  have hsplit : (d.nanoseconds : ℚ) / 10 ^ 9 =
      (d.nanoseconds / 1000000000 : ℕ) + (d.nanoseconds % 1000000000 : ℕ) / 10 ^ 9 := by
    have hparts :
      ((1000000000 * (d.nanoseconds / 1000000000) + d.nanoseconds % 1000000000 : ℕ) : ℚ) =
        d.nanoseconds := by rw [Nat.div_add_mod]
    rw [← hparts]
    push_cast
    ring
  have hlt : (d.nanoseconds : ℚ) / 10 ^ 9 < 2 ^ 64 := by
    rw [div_lt_iff₀ (by norm_num)]
    exact_mod_cast hd
  rw [hsplit] at hlt ⊢
  have hwhole : (0 : ℚ) ≤ (d.nanoseconds / 1000000000 : ℕ) := Nat.cast_nonneg _
  have hrest : (0 : ℚ) ≤ ((d.nanoseconds % 1000000000 : ℕ) : ℚ) / 10 ^ 9 := by positivity
  have hsmall :
    (d.nanoseconds / 1000000000 : ℕ) + ((d.nanoseconds % 1000000000 : ℕ) : ℚ) / 10 ^ 9 = 0 ∨
      (1 : ℚ) / 10 ^ 9 ≤
        (d.nanoseconds / 1000000000 : ℕ) + ((d.nanoseconds % 1000000000 : ℕ) : ℚ) / 10 ^ 9 := by
    rw [← hsplit]
    refine (Nat.eq_zero_or_pos d.nanoseconds).imp (fun h => by simp [h]) fun h => ?_
    have hone : (1 : ℚ) ≤ d.nanoseconds := by exact_mod_cast h
    gcongr
  generalize ((d.nanoseconds / 1000000000 : ℕ) : ℚ) = q at *
  generalize ((d.nanoseconds % 1000000000 : ℕ) : ℚ) / 10 ^ 9 = f at *
  have hsum : (steps a + steps b : ℚ) = (steps a / grain + steps b / grain) * grain := by field_simp
  rw [hsum] at hw
  generalize (steps a / grain : ℚ) = x at *
  generalize (steps b / grain : ℚ) = y at *
  obtain ⟨hlowx, hhighx⟩ := abs_le.mp hneara
  obtain ⟨hlowy, hhighy⟩ := abs_le.mp hnearb
  have hnear := hw.near <| hsmall.imp (fun h => by linarith) fun h => by
    have hgreat := two_pow_le_grain (k := 84) (by decide)
    calc (2 : ℚ) ^ 52 ≤ 1 / 10 ^ 9 / 2 * 2 ^ 84 := by norm_num
      _ ≤ (x + y) * grain := mul_le_mul (by linarith) hgreat (by positivity) (by linarith)
  obtain ⟨hlow, hhigh⟩ := abs_le.mp hnear
  refine ⟨w, lt_top_of_lt ?_, by rw [seconds, hofa, hofb, heq],
    abs_le.mpr ⟨by linarith, by linarith⟩⟩
  have hbelow : (steps w / grain : ℚ) < 2 ^ 66 := by linarith
  exact hbelow.trans_le (pow_le_pow_right₀ one_le_two (by decide))

end Duration

namespace Retry

variable {r : Retry} {k : ℕ} {d : Duration}

theorem exponent_of_lt (hk : k < 2 ^ 31) : Retry.exponent k = k := by
  show Int.bmod k 4294967296 = k
  exact Int.bmod_eq_of_le (by omega) (by omega)

/-- **The wait after an attempt** is the product in doubles, in whole nanoseconds, and at most the
cap. -/
theorem delay?_eq_some (hk : k < 2 ^ 31) (h : r.delay? k = some d) :
    (r.base.seconds * r.multiplier.pow k).isFinite = true ∧
      ∃ n, IsNearest ((r.base.seconds * r.multiplier.pow k).value * 10 ^ 9) n ∧
        d.nanoseconds = min r.cap.nanoseconds n := by
  rw [delay?, exponent_of_lt hk] at h
  rcases Duration.ofSeconds?_cases (r.base.seconds * r.multiplier.pow k) with
    ⟨hnone, -⟩ | ⟨d', hsome, hfinite, -, hnearest⟩
  · rw [hnone] at h
    cases h
  · rw [hsome] at h
    cases h
    exact ⟨hfinite, d'.nanoseconds, hnearest, rfl⟩

/-- No wait is longer than the cap. -/
theorem delay?_le_cap (h : r.delay? k = some d) : d.nanoseconds ≤ r.cap.nanoseconds := by
  rw [delay?, Option.map_eq_some_iff] at h
  obtain ⟨d', -, rfl⟩ := h
  exact min_le_left ..

/-! ## Doubling -/

/-- Doubled that often, a base leads neither beyond the largest double nor to `2 ^ 64` seconds. -/
def Expressible (base : Duration) (k : ℕ) : Prop := k < 1024 ∧ base.seconds.value * 2 ^ k < 2 ^ 64

/-- **When a doubled wait exists.** -/
theorem delay?_eq_none_iff (hr : r.multiplier = ofNat 2) (hk : k < 2 ^ 31) :
    r.delay? k = none ↔ ¬ Expressible r.base k := by
  obtain ⟨w, hw, hbase⟩ := r.base.isMagnitude_seconds.exists_word
  rw [delay?, exponent_of_lt hk, Option.map_eq_none_iff, hr, pow_two, Expressible, hbase,
    value_ofWord hw]
  by_cases hsmall : k < 1024
  · obtain ⟨v, hv, hproduct⟩ := ofWord_mul_powTwo hw hsmall
    have hvalue : (steps v / grain : ℚ) = steps w / grain * 2 ^ k := by
      rw [hv]
      push_cast
      ring
    rw [hproduct, Duration.ofSeconds?_ofWord_eq_none_iff, hvalue, ← not_lt]
    exact not_congr (and_iff_right hsmall).symm
  · -- the power is infinite, and so is the product, or else it is no number
    refine iff_of_true ?_ fun h => hsmall h.1
    rw [powTwo_of_le (not_lt.mp hsmall), ofWord_mul_top hw le_rfl (.inr rfl)]
    split
    · decide
    · rw [Duration.ofSeconds?_ofWord_eq_none_iff, steps_top, mul_div_cancel_right₀ _ grain_pos.ne']
      exact pow_le_pow_right₀ one_le_two (by decide)

/-! ## Growth -/

/-- **Waits grow** if the multiplier is at least one. -/
theorem delay?_mono (hnum : r.multiplier.isNaN = false) (hone : 1 ≤ r.multiplier.value) {j : ℕ}
    {d' : Duration} (hjk : j ≤ k) (hk : k < 2 ^ 31) (h : r.delay? j = some d)
    (h' : r.delay? k = some d') : d.nanoseconds ≤ d'.nanoseconds := by
  obtain ⟨hfinite, n, hn, heq⟩ := delay?_eq_some (hjk.trans_lt hk) h
  obtain ⟨hfinite', n', hn', heq'⟩ := delay?_eq_some hk h'
  have hgrowth : r.multiplier.IsGrowth := isGrowth_of_one_le hnum hone
  obtain ⟨hword, hmagnitude⟩ :=
    mul_mono r.base.isMagnitude_seconds (isGrowth_pow hgrowth k).2 le_rfl
    (pow_mono hgrowth hjk) (isNaN_of_isFinite hfinite) (isNaN_of_isFinite hfinite')
  have hvalue : (r.base.seconds * r.multiplier.pow j).value ≤
      (r.base.seconds * r.multiplier.pow k).value :=
    value_le_value hmagnitude hword
  rw [heq, heq']
  exact min_le_min_left _ (hn.mono hn' (by linarith))

/-! ## Whole multipliers -/

section
variable {base : Duration} {A : ℕ} {x : Binary64} (hx : Saturates A x)
    (hfinite : (base.seconds * x).isFinite = true)
include hx hfinite

/-- A product with nothing is nothing. -/
theorem product_zero (hzero : base.nanoseconds = 0) : (base.seconds * x).value = 0 := by
  obtain ⟨w, hw, heq, hnear⟩ := base.seconds_near (by omega)
  have hsteps : (steps w / grain : ℚ) = 0 := by simpa [hzero] using hnear
  obtain ⟨p, hp, rfl⟩ := hx.growth.2.exists_word
  rw [heq] at hfinite ⊢
  by_cases htop : p = top
  · have hnone : w = 0 := by
      by_contra hne
      have hpos : (0 : ℚ) < steps w := by exact_mod_cast steps_pos (Nat.pos_of_ne_zero hne)
      exact (div_pos hpos grain_pos).ne' hsteps
    rw [ofWord_mul_top hw.le hp (.inr htop), if_pos (.inl hnone)] at hfinite
    cases hfinite
  · obtain ⟨v, hv, hmul⟩ := ofWord_mul hw (lt_of_le_of_ne hp htop)
    have hnone : (steps w : ℚ) = 0 := (div_eq_zero_iff.mp hsteps).resolve_right grain_pos.ne'
    rw [hnone, zero_mul, zero_div] at hv
    have hzero : v = 0 := hv.eq (by simpa [steps] using rounds_steps 0)
    rw [hmul, hzero, value_ofWord (Nat.zero_le _)]
    simp [steps]

variable (hbase : base.nanoseconds < 2 ^ 64 * 10 ^ 9) (hpos : 0 < base.nanoseconds)
include hbase hpos

/-- A product with an exact power is off by little. -/
theorem product_near (hA : A < 2 ^ 53) :
    |(base.seconds * x).value * 10 ^ 9 - (base.nanoseconds * A : ℕ)| ≤
      ((base.nanoseconds * A : ℕ) : ℚ) * (3 / 2 ^ 52) := by
  obtain ⟨w, hw, heq, hbasenear⟩ := base.seconds_near hbase
  obtain ⟨p, hp, rfl, hpower⟩ := hx.exists_word hA
  obtain ⟨v, hv, hmul⟩ := ofWord_mul hw hp
  rw [heq, hmul] at hfinite ⊢
  have hgrain := grain_pos
  have hsum : (steps w * steps p / grain : ℚ) = (steps w / grain * A) * grain := by
    rw [← hpower]
    field_simp
  rw [hsum] at hv
  have hone : (1 : ℚ) ≤ A := by exact_mod_cast hx.pos
  have hone' : (1 : ℚ) ≤ base.nanoseconds := by exact_mod_cast hpos
  have hvalue : (ofWord v).value = steps v / grain := by
    refine value_ofWord (not_lt.mp fun htop => ?_)
    rw [ofWord_of_top_le htop.le] at hfinite
    cases hfinite
  rw [hvalue]
  push_cast
  generalize (steps w / grain : ℚ) = s at *
  generalize (base.nanoseconds : ℚ) = b at *
  obtain ⟨hlow, hhigh⟩ := abs_le.mp hbasenear
  have hfrom : (b / 10 ^ 9 - b / 10 ^ 9 / 2 ^ 51) * A ≤ s * A := by
    gcongr
    linarith
  have hto : s * A ≤ (b / 10 ^ 9 + b / 10 ^ 9 / 2 ^ 51) * A := by
    gcongr
    linarith
  have hproduct : 1 ≤ b * A := one_le_mul_of_one_le_of_one_le hone' hone
  have hnear := hv.near <| .inr <| by
    have hgreat := two_pow_le_grain (k := 84) (by decide)
    calc (2 : ℚ) ^ 52 ≤ 1 / 10 ^ 9 / 2 * 2 ^ 84 := by norm_num
      _ ≤ s * A * grain := mul_le_mul (by linarith) hgreat (by positivity) (by linarith)
  obtain ⟨hbelow, habove⟩ := abs_le.mp hnear
  exact abs_le.mpr ⟨by linarith, by linarith⟩

/-- A product with a power that is too great to be exact is great. -/
theorem product_great (hA : 2 ^ 53 ≤ A) : 2 ^ 49 ≤ (base.seconds * x).value * 10 ^ 9 := by
  obtain ⟨w, hw, heq, hbasenear⟩ := base.seconds_near hbase
  obtain ⟨v, hv, hmul⟩ := ofWord_mul_powTwo hw.le (k := 53) (by decide)
  rw [heq] at hfinite ⊢
  obtain ⟨hword, hmagnitude⟩ := mul_mono (isMagnitude_ofWord w) hx.growth.2 le_rfl (hx.great hA)
    (hmul ▸ (isMagnitude_ofWord v).isNaN) (isNaN_of_isFinite hfinite)
  have hle := value_le_value hmagnitude hword
  have hvtop : v ≤ top := by
    have hlt := hword.trans_lt (hmagnitude.lt_top hfinite)
    rw [hmul, word_ofWord] at hlt
    omega
  have hone : (1 : ℚ) ≤ base.nanoseconds := by exact_mod_cast hpos
  have hvalue : (steps v / grain : ℚ) = steps w / grain * 2 ^ 53 := by
    rw [hv]
    push_cast
    ring
  rw [hmul, value_ofWord hvtop, hvalue] at hle
  obtain ⟨hlow, -⟩ := abs_le.mp hbasenear
  linarith

end

/-- **Nothing is lost** if the multiplier is a whole number and the cap is moderate. -/
theorem delay?_exact {m : ℕ} (hr : r.multiplier = ofNat m) (hm : 0 < m)
    (hbase : r.base.nanoseconds < 2 ^ 64 * 10 ^ 9) (hcap : r.cap.nanoseconds ≤ 2 ^ 49)
    (hk : k < 2 ^ 31) (h : r.delay? k = some d) :
    d.nanoseconds = min r.cap.nanoseconds (r.base.nanoseconds * m ^ k) := by
  obtain ⟨hfinite, n, hn, heq⟩ := delay?_eq_some hk h
  have hpower : Saturates (m ^ k) (r.multiplier.pow k) := hr ▸ saturates_pow hm k
  have hcapped : 2 ^ 49 ≤ n → 2 ^ 49 ≤ r.base.nanoseconds * m ^ k →
      min r.cap.nanoseconds n = min r.cap.nanoseconds (r.base.nanoseconds * m ^ k) := by
    intro hn hq
    rw [min_eq_left (hcap.trans hn), min_eq_left (hcap.trans hq)]
  rw [heq]
  rcases Nat.eq_zero_or_pos r.base.nanoseconds with hzero | hpos
  · rw [product_zero hpower hfinite hzero, zero_mul] at hn
    rw [hn.eq (isNearest_natCast 0), hzero, zero_mul]
  · rcases lt_or_ge (m ^ k) (2 ^ 53) with hexact | hgreat
    · have hnear := product_near hpower hfinite hbase hpos hexact
      rcases le_or_gt (r.base.nanoseconds * m ^ k) (2 ^ 49) with hsmall | hlarge
      · have hsmall : ((r.base.nanoseconds * m ^ k : ℕ) : ℚ) ≤ 2 ^ 49 := by exact_mod_cast hsmall
        have hhalf := hnear.trans_lt (by linarith : _ < (1 / 2 : ℚ))
        rw [hn.eq ⟨hhalf.le, fun h => absurd h hhalf.ne⟩]
      · have hlarge' : (2 : ℚ) ^ 49 + 1 ≤ (r.base.nanoseconds * m ^ k : ℕ) := by
          exact_mod_cast hlarge
        have hlow := (abs_le.mp hnear).1
        refine hcapped ((isNearest_natCast (2 ^ 49)).mono hn ?_) hlarge.le
        push_cast at hlarge' hlow ⊢
        linarith
    · have hgreat' := product_great hpower hfinite hbase hpos hgreat
      refine hcapped ((isNearest_natCast (2 ^ 49)).mono hn (by exact_mod_cast hgreat')) ?_
      exact ((Nat.pow_le_pow_right two_pos (by decide)).trans hgreat).trans
        (Nat.le_mul_of_pos_left _ hpos)

end Retry
end Cutover
