import Cutover.Json.Skip
import Cutover.Json.Text

/-! # Typed values of documents

Readers of integers, strings, enumerations and records.  A record is an object whose unknown members
are passed over and whose known members occur at most once; it may also be an array of its fields in
order.  A value of another kind than the wanted one is a mismatch, but only if it is well formed so
far as it has to be read to know its kind.
-/

namespace Cutover.Json.Reader

/-- Refuses the value ahead, which is not of the wanted kind: a scalar is read first, so that a
broken one is told as such. -/
def refuseKind {α : Type} : Reader α := do
  match ← peekToken with
  | none => refuse .malformed
  | some b =>
    if b = 0x22 then
      drop
      let _ ← stringBody
    else if b = 0x2D || isDigitByte b then
      let _ ← number
    else if b = 0x6E then exactly (ascii "null")
    else if b = 0x74 then exactly (ascii "true")
    else if b = 0x66 then exactly (ascii "false")
    else if !(b = 0x5B || b = 0x7B) then refuse .malformed
    refuse .mismatched

/-- Reads an integer of 64 bits. -/
def int64 : Reader Int64 := do
  match ← peekToken with
  | none => refuse .malformed
  | some b =>
    if b = 0x2D || isDigitByte b then
      match (← number).toInt64? with
      | some i => return i
      | none => refuse .mismatched
    else refuseKind

/-- Reads a string. -/
def string : Reader String := do
  if (← peekToken) = some 0x22 then
    drop
    stringBody
  else refuseKind

/-- Reads the absent value. -/
def null : Reader Unit := do
  if (← peekToken) = some 0x6E then exactly (ascii "null") else refuseKind

/-- Reads one of finitely many names: the name as a string, or an object whose only member has this
name and no value. -/
def variant {α : Type} (ofName? : String → Option α) : Reader α := do
  let named (s : String) : Reader α :=
    match ofName? s with
    | some a => pure a
    | none => refuse .mismatched
  match ← peekToken with
  | some 0x22 => named (← string)
  | some 0x7B =>
    drop
    let a ← named (← string)
    token 0x3A
    null
    token 0x7D
    return a
  | _ => refuse .malformed

/-- Reads the members of an object from the place after its opening brace, up to its closing brace,
which stays.  `member` reads the value of the member with the given name.  Every turn takes a byte,
so the length of the document bounds the turns. -/
def members {σ : Type} (member : String → σ → Reader σ) : Nat → (first : Bool) → σ → Reader σ
  | 0, _, _ => refuse .malformed
  | fuel + 1, first, fields => do
    match ← peekToken with
    | some 0x7D => return fields
    | some b =>
      if !first then
        if b = 0x2C then drop else refuse .malformed
      if (← peekToken) = some 0x22 then
        drop
        let name ← stringBody
        members member fuel false (← member name fields)
      else refuse .malformed
    | none => refuse .malformed

/-- Reads the value of a member after its colon. -/
def memberValue {α : Type} (value : Reader α) : Reader α := do
  token 0x3A
  value

/-- Reads the value of a field that has not been read before. -/
def field {α : Type} (known : Option α) (value : Reader α) : Reader α :=
  if known.isSome then refuse .mismatched else memberValue value

/-- Reads the next element of an array of fields; the array may not end before it. -/
def element {α : Type} (first : Bool) (value : Reader α) : Reader α := do
  match ← peekToken with
  | some 0x5D => refuse .mismatched
  | some b =>
    if first then value
    else if b = 0x2C then
      drop
      match ← peekToken with
      | some 0x5D => refuse .malformed
      | _ => value
    else refuse .malformed
  | none => refuse .malformed

/-- Reads a record: an object by `member` and `finish`, or an array by `elements`. -/
def record {σ α : Type} (empty : σ) (member : String → σ → Reader σ) (finish : σ → Option α)
    (elements : Reader α) : Reader α := do
  match ← peekToken with
  | some 0x7B =>
    drop
    match finish (← members member ((← get).length + 1) true empty) with
    | none => refuse .mismatched
    | some a =>
      token 0x7D
      return a
  | some 0x5B =>
    drop
    let a ← elements
    token 0x5D
    return a
  | _ => refuseKind

end Cutover.Json.Reader
