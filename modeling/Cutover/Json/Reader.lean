import Cutover.Json.Fault

/-! # Reading documents byte by byte

A reader takes bytes from the front of a document and leaves the rest.  Between tokens a document
may hold blanks: space, tab, line feed and carriage return, no others.
-/

namespace Cutover.Json

/-- A reader of a value of type `α`. -/
abbrev Reader (α : Type) := StateT (List UInt8) (Except Fault) α

/-- The bytes of an ASCII text. -/
def ascii (s : String) : List UInt8 := s.toList.map Char.toUInt8

/-- A blank between tokens. -/
def isBlankByte (b : UInt8) : Bool := b == 0x20 || b == 0x0A || b == 0x0D || b == 0x09

/-- A decimal digit. -/
def isDigitByte (b : UInt8) : Bool := 0x30 ≤ b && b ≤ 0x39

/-- The value of a decimal digit. -/
def digitOf (b : UInt8) : Nat := b.toNat - 0x30

namespace Reader

/-- Refuses the document. -/
def refuse {α : Type} (f : Fault) : Reader α := throw f

/-- The next byte, which stays. -/
def peek : Reader (Option UInt8) := do return (← get).head?

/-- Drops the next byte. -/
def drop : Reader Unit := modify List.tail

/-- Drops blanks. -/
def skipBlanks : Reader Unit := modify (List.dropWhile isBlankByte)

/-- The next byte after blanks, which stays. -/
def peekToken : Reader (Option UInt8) := do
  skipBlanks
  peek

/-- Takes the digits at the front. -/
def digits : Reader (List Nat) := do
  let s ← get
  set (s.dropWhile isDigitByte)
  return (s.takeWhile isDigitByte).map digitOf

/-- Takes exactly these bytes. -/
def exactly (bytes : List UInt8) : Reader Unit := do
  let s ← get
  if bytes.isPrefixOf s then set (s.drop bytes.length) else refuse .malformed

/-- Takes this byte, blanks before it. -/
def token (b : UInt8) : Reader Unit := do
  if (← peekToken) = some b then drop else refuse .malformed

/-- Reads a whole document: one value, blanks around it, nothing else. -/
def runOn {α : Type} (r : Reader α) (document : List UInt8) : Except Fault α := do
  let (a, rest) ← r.run document
  if (rest.dropWhile isBlankByte).isEmpty then return a else throw .malformed

end Reader
end Cutover.Json
