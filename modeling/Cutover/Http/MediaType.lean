/-! # Media types

Whether the declared media type of a request announces JSON: the type `application` with the subtype
`json` or with the suffix `json`, whatever parameters follow, in any letter case.  A declaration
that is no media type announces nothing.
-/

namespace Cutover.Http.MediaType

/-- A character of a token. -/
def isTokenChar (c : Char) : Bool :=
  c.isAlphanum || ['!', '#', '$', '%', '&', '\x27', '*', '+', '-', '.', '^', '_', '\x60', '|',
    '~'].contains c

/-- A character of a header that can be read as text. -/
def isVisible (c : Char) : Bool := c == '\t' || (' ' ≤ c && c ≤ '~')

/-- What follows the quotation mark that closes a quoted value with at least one character before
it. -/
def afterQuoted : (empty : Bool) → List Char → Option (List Char)
  | _, [] => none
  | empty, c :: r =>
    if c = '"' ∧ !empty then some r
    else if ' ' ≤ c ∧ c ≠ '\x7F' then afterQuoted false r
    else none

/-- What follows a parameter's value; the value may be quoted, and nothing but spaces may stand
behind a closing quotation mark. -/
def afterValue (s : List Char) : Option (List Char) :=
  match s with
  | '"' :: r => do
    let r := (← afterQuoted true r).dropWhile (· == ' ')
    match r with
    | [] => some []
    | ';' :: r => some r
    | _ => none
  | s =>
    match s.dropWhile isTokenChar with
    | [] => some []
    | ';' :: r => if (s.takeWhile isTokenChar).isEmpty then none else some r
    | _ => none

/-- Whether a text is a list of parameters, each with a name and a value.  Every turn takes at least
one character, so the length bounds the turns. -/
def areParameters : Nat → List Char → Bool
  | 0, s => s.isEmpty
  | fuel + 1, s =>
    let s := s.dropWhile (· == ' ')
    if s.isEmpty then true
    else
      let name := s.takeWhile isTokenChar
      match s.dropWhile isTokenChar with
      | '=' :: r =>
        if name.isEmpty then false
        else match afterValue r with
          | some r => areParameters fuel r
          | none => false
      | _ => false

/-- A subtype with the suffix behind its last plus sign, if it has one behind its first
character. -/
def splitSuffix (subtype : List Char) : List Char × Option (List Char) :=
  match subtype with
  | [] => ([], none)
  | c :: r =>
    let suffix := (r.reverse.takeWhile (· ≠ '+')).reverse
    if suffix.length < r.length then (c :: r.take (r.length - suffix.length - 1), some suffix)
    else (subtype, none)

/-- Whether a declared media type announces JSON. -/
def isJson (declared : String) : Bool :=
  let s := declared.toList.map Char.toLower
  let kind := s.takeWhile isTokenChar
  match s.dropWhile isTokenChar with
  | '/' :: r =>
    let subtype := r.takeWhile isTokenChar
    let parameters := match r.dropWhile isTokenChar with
      | [] => true
      | ';' :: r => !subtype.isEmpty && areParameters (r.length + 1) r
      | _ => false
    let (base, suffix) := splitSuffix subtype
    declared.toList.all isVisible && parameters && kind == "application".toList &&
      (base == "json".toList || suffix == some "json".toList)
  | _ => false

end Cutover.Http.MediaType
