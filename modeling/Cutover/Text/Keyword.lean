import Cutover.Text.Blank

/-! # Keywords

Operators and configuration write keywords in any letter case and with blank characters around
them.  A keyword is a short ASCII text, so of the Unicode case mappings only those matter whose
result lies in ASCII: every other character keeps, in whichever case, a form outside ASCII and can
take no part in a keyword.
-/

namespace Cutover.Text

/-- The upper-case form of a character, where that form is ASCII text; a character whose upper-case
form leaves ASCII stands for itself. -/
def upper (c : Char) : List Char :=
  if c.isLower then [c.toUpper]
  else match c with
    | 'ß' => ['S', 'S']
    | 'ı' => ['I']
    | 'ſ' => ['S']
    | 'ﬀ' => ['F', 'F']
    | 'ﬁ' => ['F', 'I']
    | 'ﬂ' => ['F', 'L']
    | 'ﬃ' => ['F', 'F', 'I']
    | 'ﬄ' => ['F', 'F', 'L']
    | 'ﬅ' => ['S', 'T']
    | 'ﬆ' => ['S', 'T']
    | c => [c]

/-- The lower-case form of a character, where that form is ASCII; the Kelvin sign is the one
character outside ASCII that has such a form. -/
def lower (c : Char) : Char :=
  if c.isUpper then c.toLower else if c = '\u212A' then 'k' else c

/-- The keyword a text spells when keywords are compared in upper case. -/
def upperKeyword (s : String) : String := String.ofList ((trim s.toList).flatMap upper)

/-- The keyword a text spells when keywords are compared in lower case. -/
def lowerKeyword (s : String) : String := String.ofList ((trim s.toList).map lower)

end Cutover.Text
