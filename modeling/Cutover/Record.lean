import Cutover.Row

/-! # Records

A record is a row of which the whole-number identity is known.  Two records are equal when the
identities are, the numbers of columns are, and every cell of the first is found, by name, with an
equal value in the second; so neither the order of the columns nor the case of their names counts.
-/

namespace Cutover

/-- A row with its identity. -/
structure Record where
  id : Int64
  row : Row

namespace Record

/-- The record in a row whose identity is in the given column. -/
def ofRow? (row : Row) (idColumn : String) : Except StoreError Record := do
  return ⟨← row.getInt64 idColumn, row⟩

/-- Whether two records hold the same. -/
def equals (a b : Record) : Bool :=
  a.id == b.id && a.row.cells.length == b.row.cells.length &&
    a.row.cells.all fun c =>
      match b.row.get? c.1 with
      | some v => v.equals c.2
      | none => false

end Record
end Cutover
