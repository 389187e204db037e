/-! # Decimal numerals

Whole numbers as configuration, columns and protocols write them: ASCII digits with an optional
sign and nothing else, no blanks and no separators, in a stated range.
-/

namespace Cutover.Text

/-- The value of an ASCII digit. -/
def digitValue (c : Char) : Nat := c.toNat - '0'.toNat

/-- The value of a run of digits, read after the digits whose value is `acc`. -/
def digitsValue (acc : Nat) (s : List Char) : Nat :=
  s.foldl (fun n c => 10 * n + digitValue c) acc

/-- The natural number a text spells in one or more ASCII digits. -/
def natural? (s : List Char) : Option Nat :=
  if s ≠ [] ∧ s.all Char.isDigit then some (digitsValue 0 s) else none

/-- A natural number below `bound`, which a plus sign may precede. -/
def unsigned? (bound : Nat) (s : String) : Option Nat :=
  let digits := match s.toList with
    | '+' :: r => r
    | r => r
  (natural? digits).filter (· < bound)

/-- A whole number of 64 bits, which a plus or minus sign may precede. -/
def int64? (s : String) : Option Int64 :=
  let value : Option Int := match s.toList with
    | '-' :: r => (natural? r).map fun n => -(n : Int)
    | '+' :: r => (natural? r).map Int.ofNat
    | r => (natural? r).map Int.ofNat
  (value.filter fun i => Int64.minValue.toInt ≤ i && i ≤ Int64.maxValue.toInt).map Int64.ofInt

/-- The text of a whole number of 64 bits: digits, with a minus sign before a negative one. -/
def ofInt64 (i : Int64) : String :=
  let digits (n : Nat) := String.ofList (Nat.toDigits 10 n)
  if i.toInt < 0 then "-" ++ digits i.toInt.natAbs else digits i.toInt.natAbs

/-- The decimal text of a natural number. -/
def ofNat (n : Nat) : String := String.ofList (Nat.toDigits 10 n)

end Cutover.Text
