import Cutover.Json.Number

/-! # Passing over a value

A member that is not wanted is passed over: it must be a well-formed value, but no limit is set to
its depth, and of its strings only the form of the escapes is checked.  The reader keeps the open
brackets in a list, so it is a loop over the bytes and not a recursion over the value.
-/

namespace Cutover.Json

/-- An open bracket. -/
inductive Bracket where
  | array
  | object
  deriving DecidableEq

/-- The byte that closes a bracket. -/
def Bracket.close : Bracket → UInt8
  | .array => 0x5D
  | .object => 0x7D

/-- What may come next while values are passed over. -/
inductive Place where
  /-- A value. -/
  | value
  /-- A value, or the end of the array just opened. -/
  | first
  /-- A member's name, or the end of the object just opened. -/
  | firstName
  /-- A comma or the end of the innermost bracket. -/
  | next
  deriving DecidableEq

/-- What follows a string whose opening quotation mark has been read; the string's characters are
not decoded. -/
def afterString : List UInt8 → Except Fault (List UInt8)
  | [] => .error .malformed
  | 0x5C :: 0x75 :: a :: b :: c :: d :: r =>
    if (hexByte a && hexByte b && hexByte c && hexByte d) then afterString r else .error .malformed
  | 0x5C :: x :: r => if isShortEscape x then afterString r else .error .malformed
  | x :: r =>
    if x = 0x22 then .ok r
    else if x < 0x20 ∨ x = 0x5C then .error .malformed
    else afterString r
where
  /-- A hexadecimal digit. -/
  hexByte (b : UInt8) : Bool :=
    (0x30 ≤ b && b ≤ 0x39) || (0x41 ≤ b && b ≤ 0x46) || (0x61 ≤ b && b ≤ 0x66)
  /-- The letter of an escape of two characters. -/
  isShortEscape (b : UInt8) : Bool :=
    b == 0x22 || b == 0x5C || b == 0x2F || b == 0x62 || b == 0x66 || b == 0x6E || b == 0x72 ||
      b == 0x74

namespace Reader

/-- Passes over a string whose opening quotation mark has been read. -/
def skipString : Reader Unit := do
  set (← (afterString (← get) : Except Fault _))

/-- Passes over a member's name with its colon. -/
def skipName : Reader Unit := do
  token 0x22
  skipString
  token 0x3A

/-- Passes over the start of a value: a whole scalar, or an opening bracket, which is returned. -/
def skipHead : Reader (Option Bracket) := do
  match ← peekToken with
  | none => refuse .malformed
  | some b =>
    if b = 0x5B then drop; return some .array
    else if b = 0x7B then drop; return some .object
    else if b = 0x22 then drop; skipString
    else if b = 0x2D || isDigitByte b then skipNumber
    else if b = 0x6E then exactly (ascii "null")
    else if b = 0x74 then exactly (ascii "true")
    else if b = 0x66 then exactly (ascii "false")
    else refuse .malformed
    return none

/-- Passes over what remains at a place inside the open brackets.  Every turn but the last takes a
byte, so the length of the document bounds the turns. -/
def skipFrom : Nat → List Bracket → Place → Reader Unit
  | 0, _, _ => refuse .malformed
  | fuel + 1, opened, place => do
    match place, opened with
    | .next, [] => return
    | .next, b :: outer =>
      match ← peekToken with
      | some 0x2C =>
        drop
        if b = .object then skipName
        skipFrom fuel opened .value
      | some c =>
        if c = b.close then drop; skipFrom fuel outer .next
        else refuse .malformed
      | none => refuse .malformed
    | .firstName, opened =>
      if (← peekToken) = some 0x7D then skipFrom fuel opened .next
      else skipName; skipFrom fuel opened .value
    | .first, opened =>
      if (← peekToken) = some 0x5D then skipFrom fuel opened .next
      else skipFrom fuel opened .value
    | .value, opened =>
      match ← skipHead with
      | none => skipFrom fuel opened .next
      | some .array => skipFrom fuel (.array :: opened) .first
      | some .object => skipFrom fuel (.object :: opened) .firstName

/-- Passes over one value. -/
def skipValue : Reader Unit := do
  skipFrom (4 * (← get).length + 4) [] .value

end Reader
end Cutover.Json
