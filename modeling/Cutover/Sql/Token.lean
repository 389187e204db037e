import Cutover.Sql.Grammar

/-! # Tokens of statements

A statement falls into words, marks for arguments and punctuation; blanks only separate.  A mark
that carries no number takes the argument after the one the last such mark took.

This is no lexer for statements at large.  Names, keywords, numerals, quotes and semicolons are all
words here, for in the statements that the cutover writes a word is told by its place alone, and
none of them has a quote or a semicolon.
-/

namespace Cutover.Sql

/-- A token. -/
inductive Token where
  /-- A run of characters that is no mark: a name, a keyword or a numeral of a statement that the
  cutover writes. -/
  | word (s : String)
  /-- A mark for an argument, counted from one. -/
  | argument (n : Nat)
  | comma
  | openParen
  | closeParen
  | equals
  | greater
  | star
  deriving DecidableEq

/-- A character that separates tokens and belongs to none. -/
def isSeparator (c : Char) : Bool := c.isWhitespace

/-- The token of a character that is a token by itself. -/
def punctuation? (c : Char) : Option Token :=
  match c with
  | ',' => some .comma
  | '(' => some .openParen
  | ')' => some .closeParen
  | '=' => some .equals
  | '>' => some .greater
  | '*' => some .star
  | _ => none

/-- A character of a word or a mark: any but blanks and punctuation.  This tells the words of the
statements that the cutover writes apart; a text in quotes would be cut at its blanks. -/
def isWordChar (c : Char) : Bool := !isSeparator c && (punctuation? c).isNone

section
variable (g : Grammar)

/-- The token of a run of word characters, after `plain` marks without number; none if it is a mark
that is broken or not of the grammar.  The number of marks without number comes second. -/
def wordToken? (plain : Nat) (s : List Char) : Option (Token × Nat) :=
  match s with
  | ['?'] => if g.plainMarks then some (.argument (plain + 1), plain + 1) else none
  | '?' :: digits =>
    if g.numberedMarks then (Text.natural? digits).map fun n => (.argument n, plain) else none
  | '$' :: digits =>
    if g.dollarMarks then (Text.natural? digits).map fun n => (.argument n, plain) else none
  | s => some (.word (String.ofList s), plain)

/-- The tokens of a text whose pending word, read backwards, is `pending`. -/
def tokensFrom : (plain : Nat) → (pending : List Char) → List Char → Option (List Token)
  | plain, pending, [] =>
    if pending.isEmpty then some []
    else (wordToken? g plain pending.reverse).map fun (t, _) => [t]
  | plain, pending, c :: r =>
    if isWordChar c then tokensFrom plain (c :: pending) r
    else
      let tail (plain : Nat) : Option (List Token) :=
        match punctuation? c with
        | none => tokensFrom plain [] r
        | some t => (tokensFrom plain [] r).map (t :: ·)
      if pending.isEmpty then tail plain
      else do
        let (t, plain) ← wordToken? g plain pending.reverse
        return t :: (← tail plain)

/-- The tokens of a statement under a grammar; none if it holds a mark that is broken or not of the
grammar. -/
def tokensIn? (sql : String) : Option (List Token) := tokensFrom g 0 [] sql.toList

end

/-- The tokens of a statement, whatever the dialect of its marks. -/
def tokens? (sql : String) : Option (List Token) := tokensIn? .tolerant sql

end Cutover.Sql
