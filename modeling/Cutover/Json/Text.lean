import Cutover.Json.Reader

/-! # Strings of documents

A string stands between quotation marks.  Control characters must be escaped; a character beyond the
basic plane is escaped as a pair of surrogates, and a surrogate without its partner is refused, as
are bytes that are not UTF-8.
-/

namespace Cutover.Json

/-- The value of a hexadecimal digit. -/
def hexValue? (b : UInt8) : Option Nat :=
  if 0x30 ≤ b ∧ b ≤ 0x39 then some (b.toNat - 0x30)
  else if 0x41 ≤ b ∧ b ≤ 0x46 then some (b.toNat - 0x41 + 10)
  else if 0x61 ≤ b ∧ b ≤ 0x66 then some (b.toNat - 0x61 + 10)
  else none

/-- The value of four hexadecimal digits. -/
def hex4? (a b c d : UInt8) : Option Nat := do
  return (((← hexValue? a) * 16 + (← hexValue? b)) * 16 + (← hexValue? c)) * 16 + (← hexValue? d)

/-- The byte that a short escape stands for. -/
def shortEscape? (b : UInt8) : Option UInt8 :=
  if b = 0x22 ∨ b = 0x5C ∨ b = 0x2F then some b
  else if b = 0x62 then some 0x08
  else if b = 0x66 then some 0x0C
  else if b = 0x6E then some 0x0A
  else if b = 0x72 then some 0x0D
  else if b = 0x74 then some 0x09
  else none

/-- The UTF-8 bytes of a code point. -/
def utf8Bytes (n : Nat) : List UInt8 := (String.singleton (Char.ofNat n)).toUTF8.toList

/-- The bytes of a string up to its closing quotation mark, escapes resolved, and what follows. -/
def stringBytes : List UInt8 → Except Fault (List UInt8 × List UInt8)
  | [] => .error .malformed
  | 0x5C :: 0x75 :: a :: b :: c :: d :: r =>
    match hex4? a b c d with
    | none => .error .malformed
    | some n =>
      if n < 0xD800 ∨ 0xE000 ≤ n then
        (stringBytes r).map fun (s, rest) => (utf8Bytes n ++ s, rest)
      else if 0xDC00 ≤ n then .error .malformed
      else
        match r with
        | 0x5C :: 0x75 :: e :: f :: g :: h :: r =>
          match hex4? e f g h with
          | none => .error .malformed
          | some m =>
            if 0xDC00 ≤ m ∧ m < 0xE000 then
              (stringBytes r).map fun (s, rest) =>
                (utf8Bytes (0x10000 + (n - 0xD800) * 0x400 + (m - 0xDC00)) ++ s, rest)
            else .error .malformed
        | _ => .error .malformed
  | 0x5C :: x :: r =>
    match shortEscape? x with
    | none => .error .malformed
    | some y => (stringBytes r).map fun (s, rest) => (y :: s, rest)
  | x :: r =>
    if x = 0x22 then .ok ([], r)
    else if x < 0x20 ∨ x = 0x5C then .error .malformed
    else (stringBytes r).map fun (s, rest) => (x :: s, rest)

/-- Reads a string whose opening quotation mark has been read. -/
def Reader.stringBody : Reader String := do
  let (bytes, rest) ← (stringBytes (← get) : Except Fault _)
  match String.fromUTF8? ⟨bytes.toArray⟩ with
  | none => refuse .malformed
  | some s =>
    set rest
    return s

/-! ## Writing -/

private def hexDigit (n : Nat) : Char := (Nat.digitChar n)

/-- A character inside a written string. -/
def escapeChar (c : Char) : List Char :=
  match c with
  | '"' => ['\\', '"']
  | '\\' => ['\\', '\\']
  | '\x08' => ['\\', 'b']
  | '\x0C' => ['\\', 'f']
  | '\n' => ['\\', 'n']
  | '\r' => ['\\', 'r']
  | '\t' => ['\\', 't']
  | c =>
    if c.toNat < 0x20 then
      ['\\', 'u', '0', '0', hexDigit (c.toNat / 16), hexDigit (c.toNat % 16)]
    else [c]

/-- A string as written in a document: quotation marks, backslashes and control characters are
escaped, all else stands for itself. -/
def quote (s : String) : String :=
  String.ofList ('"' :: s.toList.flatMap escapeChar ++ ['"'])

end Cutover.Json
