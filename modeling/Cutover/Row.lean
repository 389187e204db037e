import Cutover.Error
import Cutover.Value

/-! # Rows and statements

A row is a list of named cells, in the order in which the store returned them; that every column has
its value is part of the type.  A column is looked up by its name without regard to ASCII letter
case, and of two columns with one name the first is meant.
-/

namespace Cutover

/-- A text in lower case, as far as its ASCII letters go. -/
def caseless (s : String) : String := s.map Char.toLower

/-- Whether two names are the same but for the case of ASCII letters. -/
def sameName (s t : String) : Bool := caseless s == caseless t

/-- Named cells. -/
structure Row where
  cells : List (String × Value)
  deriving DecidableEq, Inhabited

namespace Row

/-- A row from as many columns as values. -/
def ofColumns? (columns : List String) (values : List Value) : Except StoreError Row :=
  if columns.length = values.length then .ok ⟨columns.zip values⟩
  else .error (.decode (.widthMismatch columns.length values.length))

/-- The names of the cells. -/
def columns (r : Row) : List String := r.cells.map (·.1)

/-- The contents of the cells. -/
def values (r : Row) : List Value := r.cells.map (·.2)

/-- The cell of a column. -/
def get? (r : Row) (column : String) : Option Value :=
  (r.cells.find? fun c => sameName c.1 column).map (·.2)

/-- The whole number in the cell of a column. -/
def getInt64 (r : Row) (column : String) : Except StoreError Int64 :=
  match r.get? column with
  | none => .error (.decode (.missingColumn column))
  | some v =>
    match v.toInt64? with
    | none => .error (.decode (.notInteger column))
    | some i => .ok i

/-- The text of the cell of a column: a text as it is, any other value in its shown form, the absent
value as no text. -/
def getText (r : Row) (column : String) : Except StoreError (Option String) :=
  match r.get? column with
  | none => .error (.decode (.missingColumn column))
  | some .null => .ok none
  | some (.text s) => .ok (some s)
  | some v => .ok (some v.shown)

/-- Whether two rows have the same column names in the same order, with equal values. -/
def equals (r s : Row) : Bool :=
  r.columns == s.columns && r.values.isEqv s.values Value.equals

end Row

/-- A statement with the arguments bound to its placeholders. -/
structure Statement where
  sql : String
  args : List Value := []
  deriving DecidableEq, Inhabited

namespace Statement

/-- A statement as shown to an operator: its text, then its arguments if it has any. -/
def shown (s : Statement) : String :=
  if s.args.isEmpty then s.sql
  else s.sql ++ " [" ++ ", ".intercalate (s.args.map Value.shown) ++ "]"

/-- The statement with one more argument. -/
def bind (s : Statement) (v : Value) : Statement := { s with args := s.args ++ [v] }

end Statement
end Cutover
