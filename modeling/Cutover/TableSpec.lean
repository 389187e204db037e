import Cutover.Identifier
import Cutover.Sql.Command

/-! # The migrated table

The table that is moved, with the two columns the cutover relies on: the identity of a row and the
time of its last change.  All names are identifiers, which is part of the type, so the statements
below are well formed whatever the configuration says.

Pages are read by keyset: a page starts behind the last row of the page before, so rows that come
and go in front of it are neither skipped nor visited twice.
-/

namespace Cutover

open Sql

/-- A name that may stand in a statement. -/
def checkIdentifier (name : String) : Except StoreError Unit :=
  if Identifier.isValid name then .ok () else .error (.invalidIdentifier name)

/-- A table and the columns the cutover relies on. -/
structure TableSpec where
  name : String
  idColumn : String
  utimeColumn : String
  name_valid : Identifier.isValid name = true
  id_valid : Identifier.isValid idColumn = true
  utime_valid : Identifier.isValid utimeColumn = true
  deriving DecidableEq

/-- The place of a row in the order of a scan. -/
structure Cursor where
  sort : Int64
  id : Int64
  deriving DecidableEq

/-- A request for one page of rows. -/
structure Page where
  /-- The column that orders the scan; the identity decides between equal values. -/
  sort : String
  /-- Only rows changed after this time are wanted; zero for all rows. -/
  utimeAfter : Int64
  /-- The place behind which the page starts. -/
  cursor : Option Cursor
  limit : Nat
  /-- Whether only the identity and the sort column are wanted. -/
  idsOnly : Bool

/-- The arguments of a page's cutoff. -/
def Page.cutoffArgs (p : Page) : List Value := if 0 < p.utimeAfter then [.int p.utimeAfter] else []

namespace TableSpec

/-- A table of items, for examples. -/
def items : TableSpec := ⟨"items", "id", "utime", by decide, by decide, by decide⟩

/-- The table of the given names, checked in this order. -/
def ofNames (name idColumn utimeColumn : String) : Except StoreError TableSpec :=
  if hn : Identifier.isValid name then
    if hi : Identifier.isValid idColumn then
      if hu : Identifier.isValid utimeColumn then .ok ⟨name, idColumn, utimeColumn, hn, hi, hu⟩
      else .error (.invalidIdentifier utimeColumn)
    else .error (.invalidIdentifier idColumn)
  else .error (.invalidIdentifier name)

variable (t : TableSpec)

/-! ## Reading -/

/-- All rows, for the names of the columns. -/
def selectAll : Command := .select { columns := none, table := t.name }

/-- The text that asks for all rows; it has no arguments, so it is the same in every dialect. -/
def selectAllText : String := t.selectAll.render .sqlite

/-- The row of one identity. -/
def byId (id : Int64) : BoundCommand :=
  ⟨.select { columns := none, table := t.name, conditions := [.equal t.idColumn 1] }, [.int id]⟩

/-- Those of the given identities that the table holds. -/
def idsIn (ids : List Int64) : BoundCommand :=
  ⟨.select {
    columns := some [t.idColumn], table := t.name,
    conditions := [.among t.idColumn (List.range' 1 ids.length)] }, ids.map .int⟩

/-- Whether a scan ordered by this column is ordered by identity alone. -/
def sortsById (sort : String) : Bool := sameName sort t.idColumn

/-- The condition for rows changed after the cutoff of a page; only a cutoff above zero asks for
one. -/
def cutoffConditions (p : Page) : List Condition :=
  if 0 < p.utimeAfter then [.above t.utimeColumn 1] else []

/-- The condition for rows behind the cursor, its arguments counted from behind the first `n`. -/
def cursorConditions (p : Page) (n : Nat) : List Condition :=
  match p.cursor with
  | none => []
  | some _ =>
    if t.sortsById p.sort then [.above t.idColumn (n + 1)]
    else [.either (.above p.sort (n + 1))
      (.both (.equal p.sort (n + 2)) (.above t.idColumn (n + 3)))]

/-- The arguments of the cursor. -/
def cursorArgs (p : Page) : List Value :=
  match p.cursor with
  | none => []
  | some c => if t.sortsById p.sort then [.int c.id] else [.int c.sort, .int c.sort, .int c.id]

/-- The page, its sort column taken as it is.  A scan by another column than the identity leaves out
rows without a value there, since no cursor could stand behind them. -/
def pageCommand (p : Page) : BoundCommand :=
  let byId := t.sortsById p.sort
  let cutoff := p.cutoffArgs
  ⟨.select {
    columns :=
      if p.idsOnly then some (if byId then [t.idColumn] else [t.idColumn, p.sort]) else none
    table := t.name
    conditions :=
      t.cutoffConditions p ++ (if byId then [] else [.present p.sort]) ++
        t.cursorConditions p cutoff.length
    order := if byId then [t.idColumn] else [p.sort, t.idColumn]
    limit := some (max p.limit 1) }, cutoff ++ t.cursorArgs p⟩

/-- The page, if its sort column is an identifier. -/
def page (p : Page) : Except StoreError BoundCommand := do
  checkIdentifier p.sort
  return t.pageCommand p

/-! ## Writing -/

/-- The cells of a row under the given names, each of which must be an identifier and a column of
the row. -/
def cellsOf (row : Row) : List String → Except StoreError (List Value)
  | [] => .ok []
  | c :: cs => do
    checkIdentifier c
    match row.get? c with
    | none => .error (.decode (.missingColumn c))
    | some v => return v :: (← cellsOf row cs)

/-- The columns that an upsert overwrites: all but the identity. -/
def overwritten (columns : List String) : List String :=
  columns.filter fun c => !sameName c t.idColumn

/-- The insertion of a row that takes the place of a row of the same identity. -/
def upsertCommand (columns : List String) : Command :=
  .insert {
    table := t.name
    columns
    arguments := List.range' 1 columns.length
    conflict :=
      if (t.overwritten columns).isEmpty then .keep (some t.idColumn)
      else .overwrite (some t.idColumn) (t.overwritten columns) }

/-- The insertion of the given columns of a row, in place of a row of the same identity. -/
def upsert (row : Row) (columns : List String) : Except StoreError BoundCommand :=
  if columns.isEmpty then .error (.other (.noColumns t.name))
  else do return ⟨t.upsertCommand columns, ← cellsOf row columns⟩

/-- The deletion of the row of one identity. -/
def deleteById (id : Int64) : BoundCommand := ⟨.delete t.name [.equal t.idColumn 1], [.int id]⟩

end TableSpec
end Cutover
