import Cutover.Binary64.Shortest

/-! # Written forms of doubles

Two forms occur.  A statement shown to an operator writes the number in positional notation
whatever its size; a document writes the middle range in positional notation, keeps a fractional
part so that the number is not taken for an integer, and the rest in scientific notation.  Both
arrange the digits of the shortest decimal.
-/

namespace Cutover.Binary64

/-- Choices of a written form. -/
structure Layout where
  tie : Tie
  /-- Whether a whole number keeps the fractional part `.0`. -/
  keepsFraction : Bool
  /-- The places of the decimal point, counted from the first digit, that are written
  positionally; `none` for all. -/
  positional : Option (Int × Int)
  nan : String
  infinity : String
  negativeInfinity : String

/-- The form of a number inside a statement shown to an operator. -/
def Layout.shown : Layout where
  tie := .up
  keepsFraction := false
  positional := none
  nan := "NaN"
  infinity := "inf"
  negativeInfinity := "-inf"

/-- The form of a number inside a document: positional from `1e-5` up to below `1e16`; what is not
a finite number has no form and is written as the absent value. -/
def Layout.document : Layout where
  tie := .toEven
  keepsFraction := true
  positional := some (-4, 16)
  nan := "null"
  infinity := "null"
  negativeInfinity := "null"

private def zeros (n : Int) : List Char := List.replicate n.toNat '0'

/-- Positional notation of digits with the decimal point after the first `point` of them. -/
def positional (keepsFraction : Bool) (digits : List Char) (point : Int) : List Char :=
  if point ≤ 0 then '0' :: '.' :: zeros (-point) ++ digits
  else if (digits.length : Int) ≤ point then
    digits ++ zeros (point - digits.length) ++ (if keepsFraction then ['.', '0'] else [])
  else digits.take point.toNat ++ '.' :: digits.drop point.toNat

/-- Scientific notation of digits with the decimal point after the first `point` of them. -/
def scientific (digits : List Char) (point : Int) : List Char :=
  let e := point - 1
  let fraction := match digits.drop 1 with
    | [] => []
    | r => '.' :: r
  digits.take 1 ++ fraction ++ 'e' :: (if e < 0 then '-' else '+') :: Nat.toDigits 10 e.natAbs

/-- The written form of a double. -/
def write (l : Layout) (x : Binary64) : String :=
  if x.isNaN then l.nan
  else if x.isInfinite then if x.isNegative then l.negativeInfinity else l.infinity
  else
    let d := shortest l.tie x
    let digits := Nat.toDigits 10 d.digits
    let point : Int := digits.length + d.exponent
    let isPositional := match l.positional with
      | none => true
      | some (first, last) => x.isZero || (first ≤ point && point ≤ last)
    let body :=
      if isPositional then positional l.keepsFraction digits point else scientific digits point
    String.ofList (if x.isNegative then '-' :: body else body)

end Cutover.Binary64
