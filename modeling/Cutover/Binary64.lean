/-! # Double-precision numbers

A floating-point cell of a table, and the arithmetic of waiting times, are IEEE 754 doubles.  This
module keeps a double as its 64-bit word and computes on the exact rational the word stands for:
a product, quotient or sum is first exact and then rounded once, to the nearest double, a tie going
to the even word.  Nothing here uses the floating-point unit, so every result is also a statement
about words.
-/

namespace Cutover

/-- A double, as its word: sign, eleven bits of exponent, fifty-two of fraction. -/
structure Binary64 where
  bits : UInt64
  deriving DecidableEq, Inhabited

namespace Binary64

/-! ## Fields of the word -/

/-- The sign bit. -/
def isNegative (x : Binary64) : Bool := 1 <<< 63 ≤ x.bits.toNat

/-- The exponent field. -/
def exponentField (x : Binary64) : Nat := (x.bits.toNat >>> 52) % (1 <<< 11)

/-- The fraction field. -/
def fraction (x : Binary64) : Nat := x.bits.toNat % (1 <<< 52)

/-- Not a number: a full exponent with a fraction. -/
def isNaN (x : Binary64) : Bool := x.exponentField == 2047 && x.fraction != 0

/-- An infinity: a full exponent without a fraction. -/
def isInfinite (x : Binary64) : Bool := x.exponentField == 2047 && x.fraction == 0

/-- A finite double. -/
def isFinite (x : Binary64) : Bool := x.exponentField != 2047

/-- A zero of either sign. -/
def isZero (x : Binary64) : Bool := x.exponentField == 0 && x.fraction == 0

/-- The integer `m` of a finite double `± m · 2 ^ e`. -/
def mantissa (x : Binary64) : Nat :=
  if x.exponentField = 0 then x.fraction else x.fraction + (1 <<< 52)

/-- The exponent `e` of a finite double `± m · 2 ^ e`. -/
def exponent (x : Binary64) : Int :=
  if x.exponentField = 0 then -1074 else (x.exponentField : Int) - 1075

/-- The word of a magnitude with a sign. -/
def signed (negative : Bool) (magnitude : Nat) : Binary64 :=
  ⟨UInt64.ofNat (if negative then magnitude + (1 <<< 63) else magnitude)⟩

/-- The one NaN that arithmetic produces. -/
def nan : Binary64 := ⟨0x7FF8000000000000⟩

/-- An infinity. -/
def infinity (negative : Bool) : Binary64 := signed negative (2047 <<< 52)

/-- A zero. -/
def zero (negative : Bool) : Binary64 := signed negative 0

/-! ## Comparison -/

/-- Equality as IEEE 754 has it: a NaN equals nothing, the two zeros are equal. -/
def equals (x y : Binary64) : Bool :=
  !x.isNaN && !y.isNaN && (x == y || (x.isZero && y.isZero))

theorem equals_self_iff {x : Binary64} : x.equals x = true ↔ x.isNaN = false := by
  simp [equals]

theorem equals_comm (x y : Binary64) : x.equals y = y.equals x := by
  have h : (x == y) = (y == x) := by
    rw [Bool.eq_iff_iff, beq_iff_eq, beq_iff_eq]
    exact eq_comm
  simp only [equals, h, Bool.and_comm x.isZero, Bool.and_comm (!x.isNaN)]

/-! ## Rounding -/

/-- `n / d` rounded to a whole number, a half going to the even neighbour. -/
def roundHalfEven (n d : Nat) : Nat :=
  let q := n / d
  let r := 2 * (n % d)
  if r < d then q else if d < r then q + 1 else q + q % 2

/-- `⌊log₂ (n / d)⌋` for positive `n` and `d`. -/
def log2Ratio (n d : Nat) : Int :=
  let l : Int := (n.log2 : Int) - d.log2
  if n <<< (-l).toNat < d <<< l.toNat then l - 1 else l

/-- The double nearest to `n / d`, with the given sign; what lies beyond the largest double becomes
an infinity. -/
def nearest (negative : Bool) (n d : Nat) : Binary64 :=
  if n = 0 then zero negative
  else
    let e : Int := max (log2Ratio n d - 52) (-1074)
    let m := roundHalfEven (n <<< (-e).toNat) (d <<< e.toNat)
    signed negative (min (2047 <<< 52) (((e + 1074).toNat <<< 52) + m))

/-- The double nearest to `m · 2 ^ e / d`, with the given sign. -/
def nearestScaled (negative : Bool) (m : Nat) (e : Int) (d : Nat) : Binary64 :=
  nearest negative (m <<< e.toNat) (d <<< (-e).toNat)

/-- The double nearest to a natural number. -/
def ofNat (n : Nat) : Binary64 := nearest false n 1

/-! ## Arithmetic -/

/-- The number with its sign turned. -/
def neg (x : Binary64) : Binary64 :=
  ⟨if x.isNegative then x.bits - 0x8000000000000000 else x.bits + 0x8000000000000000⟩

/-- The product, rounded to nearest. -/
def mul (x y : Binary64) : Binary64 :=
  let s := x.isNegative != y.isNegative
  if x.isNaN || y.isNaN then nan
  else if x.isInfinite || y.isInfinite then
    if x.isZero || y.isZero then nan else infinity s
  else nearestScaled s (x.mantissa * y.mantissa) (x.exponent + y.exponent) 1

/-- The quotient, rounded to nearest. -/
def div (x y : Binary64) : Binary64 :=
  let s := x.isNegative != y.isNegative
  if x.isNaN || y.isNaN then nan
  else if x.isInfinite then if y.isInfinite then nan else infinity s
  else if y.isInfinite then zero s
  else if y.isZero then if x.isZero then nan else infinity s
  else nearestScaled s x.mantissa (x.exponent - y.exponent) y.mantissa

/-- A finite double as a whole number of units `2 ^ e`, for `e` at most its exponent. -/
def units (x : Binary64) (e : Int) : Int :=
  let n : Nat := x.mantissa <<< (x.exponent - e).toNat
  if x.isNegative then -n else n

/-- The sum, rounded to nearest. -/
def add (x y : Binary64) : Binary64 :=
  if x.isNaN || y.isNaN then nan
  else if x.isInfinite then
    if y.isInfinite && x.isNegative != y.isNegative then nan else x
  else if y.isInfinite then y
  else
    let e := min x.exponent y.exponent
    let n := x.units e + y.units e
    if n = 0 then zero (x.isNegative && y.isNegative)
    else nearestScaled (n < 0) n.natAbs e 1

instance : Mul Binary64 := ⟨mul⟩
instance : Div Binary64 := ⟨div⟩
instance : Add Binary64 := ⟨add⟩
instance : Neg Binary64 := ⟨neg⟩

/-- The power with an integer exponent, by repeated squaring; each product is rounded, and a
negative exponent takes the reciprocal of the power at the end. -/
def pow (x : Binary64) (k : Int) : Binary64 :=
  let rec go (a r : Binary64) (n : Nat) : Binary64 :=
    let r := if n % 2 = 1 then r * a else r
    if h : n / 2 = 0 then r else go (a * a) r (n / 2)
  termination_by n
  decreasing_by omega
  let r := go x (ofNat 1) k.natAbs
  if k < 0 then ofNat 1 / r else r

end Binary64
end Cutover
