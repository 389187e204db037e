/-! # Identifiers

The names a statement may contain: parts joined by points, each part an ASCII letter or underscore
followed by ASCII letters, digits and underscores.  Such a name needs no quoting and cannot end a
token, so a statement may be put together from names by plain concatenation.
-/

namespace Cutover.Identifier

/-- A character that may start a part of a name. -/
def isHead (c : Char) : Bool := c.isAlpha || c == '_'

/-- A character that may continue a part of a name. -/
def isTail (c : Char) : Bool := c.isAlphanum || c == '_'

/-- Whether the rest of a name is well formed, `fresh` telling that a part has yet to start. -/
def wellFormedFrom : (fresh : Bool) → List Char → Bool
  | fresh, [] => !fresh
  | true, c :: r => isHead c && wellFormedFrom false r
  | false, c :: r => if c == '.' then wellFormedFrom true r else isTail c && wellFormedFrom false r

/-- Whether a text is a name. -/
def isValid (s : String) : Bool := wellFormedFrom true s.toList

end Cutover.Identifier
