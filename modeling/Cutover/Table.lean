import Cutover.Sql.Parser

/-! # Tables

A table as the commands see it: named columns, rows in the order of their insertion, and a key
column.  A command compares cells as whole numbers; a cell that holds none satisfies no comparison
and comes first in an order.  A command that the table refuses changes nothing.
-/

namespace Cutover

open Sql

/-- A table with its content. -/
structure Table where
  name : String
  /-- The column whose numbers must differ from row to row. -/
  key : String
  columns : List String
  rows : List (List Value)
  deriving DecidableEq

/-- Arguments of a command. -/
abbrev Args := List Value

namespace Table

/-- What every refused command comes to. -/
def refused : StoreError := .database .refused

variable (t : Table)

/-! ## Cells -/

/-- The place of a column. -/
def place? (column : String) : Option Nat := t.columns.findIdx? fun c => sameName c column

/-- The place of a column that must be there. -/
def place (column : String) : Except StoreError Nat :=
  match t.place? column with
  | some i => .ok i
  | none => .error refused

/-- The cell at a place; a row that ends before it has no value there. -/
def cellAt (row : List Value) (i : Nat) : Value := row[i]?.getD .null

/-- The cell of a column. -/
def cell (row : List Value) (column : String) : Value :=
  match t.place? column with
  | some i => cellAt row i
  | none => .null

/-- The number in a cell. -/
def number? (row : List Value) (column : String) : Option Int64 := (t.cell row column).toInt64?

/-- The argument of a number, counted from one; one that is not bound is absent. -/
def argument (args : Args) (n : Nat) : Value :=
  match n with
  | 0 => .null
  | n + 1 => args[n]?.getD .null

/-- The number in an argument. -/
def argumentNumber? (args : Args) (n : Nat) : Option Int64 := (argument args n).toInt64?

/-! ## Conditions and order -/

/-- Whether two numbers are there and the first is greater. -/
def greater : Option Int64 → Option Int64 → Bool
  | some a, some b => b < a
  | _, _ => false

/-- Whether two numbers are there and equal. -/
def equalNumbers : Option Int64 → Option Int64 → Bool
  | some a, some b => a == b
  | _, _ => false

/-- Whether a row satisfies a condition. -/
def holds (args : Args) (row : List Value) : Condition → Bool
  | .above c n => greater (t.number? row c) (argumentNumber? args n)
  | .equal c n => equalNumbers (t.number? row c) (argumentNumber? args n)
  | .present c => !(t.cell row c).isNull
  | .among c ns => ns.any fun n => equalNumbers (t.number? row c) (argumentNumber? args n)
  | .both a b => holds args row a && holds args row b
  | .either a b => holds args row a || holds args row b

/-- Whether a number comes before another or in the same place; no number comes first. -/
def numberLe : Option Int64 → Option Int64 → Bool
  | none, _ => true
  | some _, none => false
  | some a, some b => a ≤ b

/-- Whether a row comes before another or in the same place in the order of the columns. -/
def rowLe : List String → List Value → List Value → Bool
  | [], _, _ => true
  | c :: cs, r, s =>
    let a := t.number? r c
    let b := t.number? s c
    if a = b then rowLe cs r s else numberLe a b

/-! ## Commands -/

/-- Refuses names that are no columns. -/
def checkColumns (columns : List String) : Except StoreError Unit :=
  if columns.all fun c => (t.place? c).isSome then .ok () else .error refused

/-- Refuses a command on another table. -/
def checkName (name : String) : Except StoreError Unit :=
  if sameName name t.name then .ok () else .error refused

/-- Refuses a clause that names another column than the key. -/
def checkKey (c : Conflict) : Except StoreError Unit :=
  if c.key?.all fun key => sameName key t.key then .ok () else .error refused

/-- Refuses a reading of columns or tables that are not there. -/
def checkSelect (s : Select) : Except StoreError Unit := do
  t.checkName s.table
  t.checkColumns (s.columns.getD [] ++ s.conditions.flatMap Condition.columns ++ s.order)

/-- The stored rows that a reading selects, in its order. -/
def selected (s : Select) (args : Args) : List (List Value) :=
  let matching := t.rows.filter fun r => s.conditions.all (t.holds args r)
  let ordered := if s.order.isEmpty then matching else matching.mergeSort (t.rowLe s.order)
  match s.limit with
  | none => ordered
  | some n => ordered.take n

/-- The names of a reading's result, in the table's own spelling. -/
def resultNames (s : Select) : List String :=
  match s.columns with
  | none => t.columns
  | some cs => cs.map fun c => ((t.place? c).bind (t.columns[·]?)).getD c

/-- The row that a reading makes of a stored row. -/
def resultRow (s : Select) (row : List Value) : Except StoreError Row :=
  match s.columns with
  | none => Row.ofColumns? t.columns row
  | some cs => .ok ⟨(t.resultNames s).zip (cs.map (t.cell row))⟩

/-- The rows that a reading finds. -/
def select (s : Select) (args : Args) : Except StoreError (List Row) := do
  t.checkSelect s
  (t.selected s args).mapM (t.resultRow s)

/-- Whether the conditions of a deletion hold of a row. -/
def holdsAll (conditions : List Condition) (args : Args) (row : List Value) : Bool :=
  conditions.all (t.holds args row)

/-- Removes the rows that satisfy the conditions; the number of them comes first. -/
def delete (name : String) (conditions : List Condition) (args : Args) :
    Except StoreError (Nat × Table) := do
  t.checkName name
  t.checkColumns (conditions.flatMap Condition.columns)
  return (t.rows.countP (t.holdsAll conditions args),
    { t with rows := t.rows.filter fun r => !t.holdsAll conditions args r })

/-- The row that an insertion makes: the arguments under their columns, nothing elsewhere. -/
def newRow (i : Insert) (args : Args) : List Value :=
  t.columns.map fun c =>
    match (i.columns.zip i.arguments).find? fun p => sameName p.1 c with
    | some p => argument args p.2
    | none => .null

/-- The row with the listed columns taken from another. -/
def overwriteCells (columns : List String) (new old : List Value) : List Value :=
  columns.foldl (fun row c =>
    match t.place? c with
    | some i => row.set i (cellAt new i)
    | none => row) old

/-- Whether a row has the key of another. -/
def sameKey (new row : List Value) : Bool :=
  equalNumbers (t.number? row t.key) (t.number? new t.key)

/-- Changes the first row that satisfies a test. -/
def changeFirst (test : List Value → Bool) (change : List Value → List Value) :
    List (List Value) → List (List Value)
  | [] => []
  | r :: rs => if test r then change r :: rs else r :: changeFirst test change rs

/-- Refuses an insertion that could not be carried out whatever the rows. -/
def checkInsert (i : Insert) : Except StoreError Unit := do
  t.checkName i.table
  t.checkColumns i.mentioned
  t.checkKey i.conflict
  if i.columns.length ≠ i.arguments.length then throw refused

/-- Adds a row, or does what the insertion says of a row with the same key; the number of rows that
were added or changed comes first. -/
def insert (i : Insert) (args : Args) : Except StoreError (Nat × Table) := do
  t.checkInsert i
  let new := t.newRow i args
  if t.rows.any (t.sameKey new) then
    match i.conflict with
    | .refuse => throw refused
    | .keep _ => return (0, t)
    | .overwrite _ cs =>
      return (1, { t with rows := changeFirst (t.sameKey new) (t.overwriteCells cs new) t.rows })
  else return (1, { t with rows := t.rows ++ [new] })

/-- What a command answers: the rows it found, and how many it changed. -/
structure Answer where
  rows : List Row := []
  affected : Nat := 0
  deriving DecidableEq

/-- Carries out a command. -/
def run (c : Command) (args : Args) : Except StoreError (Answer × Table) :=
  match c with
  | .select s => (t.select s args).map fun rows => ({ rows }, t)
  | .insert i => (t.insert i args).map fun (affected, t) => ({ affected }, t)
  | .delete name cs => (t.delete name cs args).map fun (affected, t) => ({ affected }, t)

/-- Refuses a command that could not be carried out whatever the rows. -/
def check (c : Command) : Except StoreError Unit :=
  match c with
  | .select s => t.checkSelect s
  | .insert i => t.checkInsert i
  | .delete name cs => do
    t.checkName name
    t.checkColumns (cs.flatMap Condition.columns)

/-! ## Statements -/

/-- The command that a statement's text spells under a grammar. -/
def commandIn (g : Grammar) (sql : String) : Except StoreError Command :=
  match Parser.command? g sql with
  | some c => .ok c
  | none => .error refused

/-- Carries out a statement as a grammar reads it. -/
def runStatementIn (g : Grammar) (s : Statement) : Except StoreError (Answer × Table) := do
  t.run (← commandIn g s.sql) s.args

/-- The command that a statement's text spells, whatever its dialect. -/
def commandOf (sql : String) : Except StoreError Command := commandIn .tolerant sql

/-- Carries out a statement, whatever its dialect. -/
def runStatement (s : Statement) : Except StoreError (Answer × Table) :=
  t.runStatementIn .tolerant s

/-- The column names of a statement's result. -/
def namesOf (sql : String) : Except StoreError (List String) := do
  let c ← commandOf sql
  t.check c
  match c with
  | .select s => return t.resultNames s
  | _ => return []

/-- Refuses a statement that could not be carried out whatever the rows. -/
def checkStatement (sql : String) : Except StoreError Unit := do
  t.check (← commandOf sql)

/-- All rows, in the order of the key. -/
def dump : Except StoreError (List Row) :=
  t.select { columns := none, table := t.name, order := [t.key] } []

end Table
end Cutover
