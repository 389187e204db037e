/-! # Blank characters

The characters that carry the Unicode property White_Space, and the removal of a run of them from
both ends of a text.  The table is larger than the blank class of ASCII: a no-break space or an
ideographic space around a keyword is removed as well.
-/

namespace Cutover.Text

/-- The Unicode property White_Space. -/
def isBlank (c : Char) : Bool :=
  let n := c.toNat
  (0x09 ≤ n && n ≤ 0x0D) || n == 0x20 || n == 0x85 || n == 0xA0 || n == 0x1680 ||
    (0x2000 ≤ n && n ≤ 0x200A) || n == 0x2028 || n == 0x2029 || n == 0x202F || n == 0x205F ||
    n == 0x3000

/-- Drops the blank characters at the front. -/
def trimStart (s : List Char) : List Char := s.dropWhile isBlank

/-- Drops the blank characters at the back. -/
def trimEnd (s : List Char) : List Char := (s.reverse.dropWhile isBlank).reverse

/-- Drops the blank characters at both ends. -/
def trim (s : List Char) : List Char := trimEnd (trimStart s)

/-- A text that holds nothing but blank characters. -/
def isAllBlank (s : List Char) : Bool := s.all isBlank

end Cutover.Text
