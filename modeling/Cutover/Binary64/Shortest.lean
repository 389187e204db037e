import Cutover.Binary64

/-! # The shortest decimal of a double

Every double is written with the fewest decimal digits that still read back to it, and with the
nearest of those.  The reals that round to `m · 2 ^ e` form an interval whose ends belong to it
exactly when `m` is even.  For one digit, two digits, and so on, the two neighbours of the double on
that decimal grid are tried; a grid that meets the interval at all meets it in one of them.
-/

namespace Cutover.Binary64

/-- The decimal number `digits · 10 ^ exponent`. -/
structure Decimal where
  digits : Nat
  exponent : Int
  deriving DecidableEq

/-- Which of two equally near decimals is taken. -/
inductive Tie where
  | up
  | toEven
  deriving DecidableEq

/-- Drops the zeros at the end of the digits, at most `fuel` of them. -/
def Decimal.stripZeros : Nat → Decimal → Decimal
  | 0, x => x
  | fuel + 1, x =>
    if x.digits ≠ 0 ∧ x.digits % 10 = 0 then
      stripZeros fuel ⟨x.digits / 10, x.exponent + 1⟩
    else x

/-- How often `n` is multiplied by ten until it reaches `d`, at most `fuel` times. -/
def shortfall : Nat → Nat → Nat → Nat
  | 0, _, _ => 0
  | fuel + 1, n, d => if n < d then shortfall fuel (n * 10) d + 1 else 0

/-- The `k` with `10 ^ (k - 1) ≤ n / d < 10 ^ k`. -/
def decimalPoint (n d : Nat) : Int :=
  if d ≤ n then ((Nat.toDigits 10 (n / d)).length : Int) else 1 - (shortfall 400 n d : Int)

/-- The interval of reals that round to a finite double, in units of a quarter of its last place:
lower end, the double, upper end, and whether the ends belong to it. -/
structure Interval where
  low : Nat
  mid : Nat
  high : Nat
  closed : Bool

/-- The interval of `m · 2 ^ e`; below a power of two the neighbour is half as far. -/
def interval (m : Nat) (e : Int) : Interval where
  low := if m = 1 <<< 52 ∧ -1074 < e then 4 * m - 1 else 4 * m - 2
  mid := 4 * m
  high := 4 * m + 2
  closed := m % 2 = 0

/-- Whether the point `c / d` lies in the interval, all of whose ends are multiplied by `f`. -/
def Interval.contains (i : Interval) (f d c : Nat) : Bool :=
  if i.closed then i.low * f ≤ c * d && c * d ≤ i.high * f
  else i.low * f < c * d && c * d < i.high * f

/-- The decimal of the interval on the grid of step `10 ^ t`, if the grid meets it. -/
def Interval.onGrid (i : Interval) (tie : Tie) (unit : Int) (t : Int) : Option Decimal :=
  let f := Nat.pow 10 (-t).toNat <<< unit.toNat
  let d := Nat.pow 10 t.toNat <<< (-unit).toNat
  let below := i.mid * f / d
  let r := 2 * (i.mid * f % d)
  let nearer :=
    if r < d then below else if d < r then below + 1
    else match tie with
      | .up => below + 1
      | .toEven => below + below % 2
  match i.contains f d below, i.contains f d (below + 1) with
  | true, true => some ⟨nearer, t⟩
  | true, false => some ⟨below, t⟩
  | false, true => some ⟨below + 1, t⟩
  | false, false => none

/-- The shortest decimal of the positive double `m · 2 ^ e`. -/
def shortestOf (tie : Tie) (m : Nat) (e : Int) : Decimal :=
  let i := interval m e
  let unit := e - 2
  let point := decimalPoint (i.mid <<< unit.toNat) (1 <<< (-unit).toNat)
  let found := (List.range 17).findSome? fun n : Nat => i.onGrid tie unit (point - (n + 1 : Nat))
  (found.getD ⟨0, 0⟩).stripZeros 20

/-- The shortest decimal of a finite double, its sign apart. -/
def shortest (tie : Tie) (x : Binary64) : Decimal :=
  if x.mantissa = 0 then ⟨0, 0⟩ else shortestOf tie x.mantissa x.exponent

end Cutover.Binary64
