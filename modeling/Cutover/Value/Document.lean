import Cutover.Json.Record
import Cutover.Value

/-! # Values in documents

A value is written without a tag: the absent value, truth values, numbers and texts as themselves, a
byte string as the array of its bytes.  Reading takes the first kind that fits, so an integer beyond
64 bits becomes a double and only an array of numbers from 0 to 255 is a byte string.
-/

namespace Cutover.Value

open Json

/-- A value as a document. -/
def toJson : Value → String
  | .null => "null"
  | .bool true => "true"
  | .bool false => "false"
  | .int i => Text.ofInt64 i
  | .float x => x.write .document
  | .text s => quote s
  | .bytes b => "[" ++ ",".intercalate (b.map fun x => Text.ofNat x.toNat) ++ "]"

/-- The value of a number token. -/
def ofNumber (n : Number) : Value :=
  match n.toInt64?, n with
  | some i, _ => .int i
  | none, .natural n => .float (Binary64.ofNat n)
  | none, .negative n => .float (-(Binary64.ofNat n))
  | none, .float x => .float x

/-- The byte of a number token. -/
def byteOf? : Number → Option UInt8
  | .natural n => if n < 256 then some (UInt8.ofNat n) else none
  | _ => none

/-- Reads the bytes of an array from the place after its opening bracket, closing bracket
included. -/
def bytesFrom : Nat → (first : Bool) → Reader (List UInt8)
  | 0, _ => Reader.refuse .malformed
  | fuel + 1, first => do
    if (← Reader.peekToken) = some 0x5D then
      Reader.drop
      return []
    if !first then
      Reader.token 0x2C
    match ← Reader.peekToken with
    | some b =>
      if b = 0x2D || isDigitByte b then
        match byteOf? (← Reader.number) with
        | some x => return x :: (← bytesFrom fuel false)
        | none => Reader.refuse .mismatched
      else Reader.refuse .mismatched
    | none => Reader.refuse .malformed

/-- Reads a value. -/
def reader : Reader Value := do
  match ← Reader.peekToken with
  | none => Reader.refuse .malformed
  | some b =>
    if b = 0x22 then
      return .text (← Reader.string)
    else if b = 0x2D || isDigitByte b then
      return ofNumber (← Reader.number)
    else if b = 0x6E then
      Reader.exactly (ascii "null")
      return .null
    else if b = 0x74 then
      Reader.exactly (ascii "true")
      return .bool true
    else if b = 0x66 then
      Reader.exactly (ascii "false")
      return .bool false
    else if b = 0x5B then
      Reader.drop
      return .bytes (← bytesFrom ((← get).length + 1) true)
    else Reader.refuseKind

/-- The value of a document. -/
def ofJson (document : List UInt8) : Except Fault Value := reader.runOn document

end Cutover.Value
