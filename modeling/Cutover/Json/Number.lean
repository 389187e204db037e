import Cutover.Binary64
import Cutover.Json.Reader

/-! # Numbers of documents

A number without fraction and exponent is an integer as long as it fits into 64 bits; every other
number is a double.  The digits are gathered into an integer of 64 bits, those that no longer fit
are dropped, and the double is this integer scaled by a power of ten: one rounding for the integer,
one for the scaling.
-/

namespace Cutover.Json

/-- What a number token stands for: a natural number below `2 ^ 64`, a negative integer not below
`-2 ^ 63` (its magnitude is kept), or a double. -/
inductive Number where
  | natural (n : Nat)
  | negative (n : Nat)
  | float (x : Binary64)
  deriving DecidableEq

/-- The integer of 64 bits that a number token stands for. -/
def Number.toInt64? : Number → Option Int64
  | .natural n => if n < 1 <<< 63 then some (Int64.ofInt n) else none
  | .negative n => some (Int64.ofInt (-n))
  | .float _ => none

/-- Appends digits to a significand while it stays below `2 ^ 64`; the number of digits left over
comes second. -/
def gather : Nat → List Nat → Nat × Nat
  | s, [] => (s, 0)
  | s, d :: ds => if 10 * s + d < UInt64.size then gather (10 * s + d) ds else (s, ds.length + 1)

/-- A double scaled by a power of ten; `none` beyond the largest double.  Powers from `10 ^ 309` on
are no doubles themselves, so a strongly negative exponent is applied in parts. -/
def scale (x : Binary64) (e : Int) : Option Binary64 :=
  if e < -308 then
    if x.isZero then some x
    else scale (x / Binary64.ofNat (Nat.pow 10 308)) (e + 308)
  else if e < 0 then some (x / Binary64.ofNat (Nat.pow 10 e.natAbs))
  else if e ≤ 308 then
    let y := x * Binary64.ofNat (Nat.pow 10 e.natAbs)
    if y.isInfinite then none else some y
  else if x.isZero then some x
  else none
termination_by e.natAbs
decreasing_by omega

/-- The double of a sign, a significand and a power of ten. -/
def floatOf (negative : Bool) (significand : Nat) (e : Int) : Option Binary64 :=
  (scale (Binary64.ofNat significand) e).map fun x => if negative then -x else x

namespace Reader

/-- The integer part: a zero alone, or digits of which the first is not zero. -/
def integerDigits : Reader (List Nat) := do
  match ← digits with
  | [] => refuse .malformed
  | 0 :: _ :: _ => refuse .malformed
  | ds => return ds

/-- The digits after the decimal point, at least one; none if there is no point. -/
def fractionDigits : Reader (List Nat) := do
  if (← peek) = some 0x2E then
    drop
    match ← digits with
    | [] => refuse .malformed
    | ds => return ds
  else return []

/-- The exponent with its sign, if there is one. -/
def exponentPart : Reader (Option (Bool × List Nat)) := do
  let b ← peek
  if b = some 0x65 ∨ b = some 0x45 then
    drop
    let sign ← peek
    if sign = some 0x2B ∨ sign = some 0x2D then drop
    match ← digits with
    | [] => refuse .malformed
    | ds => return some (sign = some 0x2D, ds)
  else return none

/-- Passes over a number. -/
def skipNumber : Reader Unit := do
  if (← peek) = some 0x2D then drop
  let _ ← integerDigits
  let _ ← fractionDigits
  let _ ← exponentPart

/-- The double of the parts of a number.  An exponent beyond 31 bits makes a zero of a number that
is zero or has a negative exponent, and refuses any other. -/
def floatParts (negative : Bool) (significand : Nat) (e : Int) :
    Option (Bool × List Nat) → Option Binary64
  | none => floatOf negative significand e
  | some (down, ds) =>
    let k : Nat := ds.foldl (fun n d => 10 * n + d) 0
    if 1 <<< 31 ≤ k then
      if significand = 0 ∨ down then some (.zero negative) else none
    else
      let e := if down then max Int32.minValue.toInt (e - k) else min Int32.maxValue.toInt (e + k)
      floatOf negative significand e

/-- Reads a number. -/
def number : Reader Number := do
  let negative := (← peek) = some 0x2D
  if negative then drop
  let (whole, dropped) := gather 0 (← integerDigits)
  let fraction ← fractionDigits
  let exponent ← exponentPart
  if dropped = 0 ∧ fraction = [] ∧ exponent = none then
    if !negative then return .natural whole
    else if whole = 0 ∨ 1 <<< 63 < whole then return .float (-(Binary64.ofNat whole))
    else return .negative whole
  else
    let (significand, left) := gather whole fraction
    let e : Int := (dropped : Int) - (fraction.length - left : Nat)
    match floatParts negative significand e exponent with
    | none => refuse .malformed
    | some x => return .float x

end Reader
end Cutover.Json
