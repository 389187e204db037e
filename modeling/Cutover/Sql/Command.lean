import Cutover.Dialect
import Cutover.Row

/-! # Commands

The statements that the cutover sends to a store and that a store of this library understands, as
data.  A command names its arguments by number, counted from one, so what it means depends neither
on the dialect nor on the arguments; its text depends on the dialect alone.
-/

namespace Cutover.Sql

/-- A condition on a row. -/
inductive Condition where
  /-- The cell is a number greater than the argument. -/
  | above (column : String) (argument : Nat)
  /-- The cell is a number equal to the argument. -/
  | equal (column : String) (argument : Nat)
  /-- The cell holds a value. -/
  | present (column : String)
  /-- The cell is a number equal to one of the arguments. -/
  | among (column : String) (arguments : List Nat)
  | both (a b : Condition)
  | either (a b : Condition)
  deriving DecidableEq

/-- A reading of rows. -/
structure Select where
  /-- The columns in the result; `none` for the row as it is stored. -/
  columns : Option (List String)
  table : String
  /-- Conditions that must all hold. -/
  conditions : List Condition := []
  /-- The columns whose numbers order the result, the first deciding first. -/
  order : List String := []
  limit : Option Nat := none
  deriving DecidableEq

/-- What an insertion does when the table holds a row with the same key.  A clause may name the
column of the key. -/
inductive Conflict where
  | refuse
  /-- The row that is there stays as it is. -/
  | keep (key : Option String)
  /-- The listed columns of the row that is there take the new values. -/
  | overwrite (key : Option String) (columns : List String)
  deriving DecidableEq

/-- The column that a clause names as the key. -/
def Conflict.key? : Conflict → Option String
  | .refuse => none
  | .keep key | .overwrite key _ => key

/-- An insertion of one row. -/
structure Insert where
  table : String
  columns : List String
  arguments : List Nat
  conflict : Conflict
  deriving DecidableEq

/-- A statement without its arguments. -/
inductive Command where
  | select (s : Select)
  | insert (i : Insert)
  | delete (table : String) (conditions : List Condition)
  deriving DecidableEq

/-- The column that a command names as the key. -/
def Command.key? : Command → Option String
  | .insert i => i.conflict.key?
  | .select _ | .delete .. => none

/-- The columns a condition speaks of. -/
def Condition.columns : Condition → List String
  | .above c _ | .equal c _ | .present c | .among c _ => [c]
  | .both a b | .either a b => a.columns ++ b.columns

/-- The columns an insertion speaks of. -/
def Insert.mentioned (i : Insert) : List String :=
  i.columns ++ match i.conflict with
    | .overwrite _ cs => cs
    | _ => []

/-! ## Text -/

/-- Texts with a comma and a space between them. -/
def commaSeparated (xs : List String) : String := ", ".intercalate xs

/-- The text of a condition. -/
def Condition.render (d : Dialect) : Condition → String
  | .above c p => c ++ " > " ++ d.placeholder p
  | .equal c p => c ++ " = " ++ d.placeholder p
  | .present c => c ++ " IS NOT NULL"
  | .among c ps => c ++ " IN (" ++ commaSeparated (ps.map d.placeholder) ++ ")"
  | .both a b => "(" ++ a.render d ++ " AND " ++ b.render d ++ ")"
  | .either a b => "(" ++ a.render d ++ " OR " ++ b.render d ++ ")"

/-- The text of conditions that must all hold; nothing if there are none. -/
def renderWhere (d : Dialect) (cs : List Condition) : String :=
  if cs.isEmpty then "" else " WHERE " ++ " AND ".intercalate (cs.map (Condition.render d))

/-- The text of a reading. -/
def Select.render (d : Dialect) (s : Select) : String :=
  let columns := match s.columns with
    | none => "*"
    | some cs => commaSeparated cs
  let order := if s.order.isEmpty then "" else " ORDER BY " ++ commaSeparated s.order
  let limit := match s.limit with
    | none => ""
    | some n => " LIMIT " ++ Text.ofNat n
  "SELECT " ++ columns ++ " FROM " ++ s.table ++ renderWhere d s.conditions ++ order ++ limit

/-- The text of what an insertion does on a conflict. -/
def Conflict.render (d : Dialect) (c : Conflict) : String :=
  match c, d with
  | .refuse, _ => ""
  | .keep key, .mysql => " ON DUPLICATE KEY UPDATE " ++ key.getD "" ++ " = " ++ key.getD ""
  | .keep key, _ => " ON CONFLICT (" ++ key.getD "" ++ ") DO NOTHING"
  | .overwrite _ cs, .mysql =>
    " ON DUPLICATE KEY UPDATE " ++ commaSeparated (cs.map fun c => c ++ " = VALUES(" ++ c ++ ")")
  | .overwrite key cs, _ =>
    " ON CONFLICT (" ++ key.getD "" ++ ") DO UPDATE SET " ++
      commaSeparated (cs.map fun c => c ++ " = excluded." ++ c)

/-- The text of an insertion. -/
def Insert.render (d : Dialect) (i : Insert) : String :=
  "INSERT INTO " ++ i.table ++ " (" ++ commaSeparated i.columns ++ ") VALUES (" ++
    commaSeparated (i.arguments.map d.placeholder) ++ ")" ++ i.conflict.render d

/-- The text of a command. -/
def Command.render (d : Dialect) : Command → String
  | .select s => s.render d
  | .insert i => i.render d
  | .delete table cs => "DELETE FROM " ++ table ++ renderWhere d cs

/-- A command with the arguments it names. -/
structure BoundCommand where
  command : Command
  args : List Value

/-- The statement that says this to a store of the given kind. -/
def BoundCommand.statement (d : Dialect) (b : BoundCommand) : Statement :=
  ⟨b.command.render d, b.args⟩

end Cutover.Sql
