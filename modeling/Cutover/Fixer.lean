import Cutover.Pool
import Cutover.Tally
import Cutover.TableSpec

/-! # Repair

A fixer makes one row of a target store equal to the row of a base store: it writes all columns of
the base row, or deletes the row if the base has none.  It looks at the base each time and not at
what an event says, so repeated, late and mistaken events do no harm.
-/

namespace Cutover

open Pool (Endpoint)

/-- A fixer for one direction.  The columns are those the base had when the fixer was made. -/
structure Fixer where
  base : Endpoint
  target : Endpoint
  table : TableSpec
  dialect : Dialect
  columns : List String

namespace Fixer

/-- Makes a fixer: asks the base for the columns, of which there must be one. -/
def make (base target : Endpoint) (table : TableSpec) (dialect : Dialect) :
    Dialogue Work (Except CutoverError Fixer) := do
  match ← base.columns table.selectAllText with
  | .error e => return .error (.store e)
  | .ok columns =>
    if columns.isEmpty then return .error (.invalidArgument (.noColumns table.name))
    else return .ok { base, target, table, dialect, columns }

/-- Makes the row of one identity equal to the base's. -/
def fix (f : Fixer) (id : Int64) : Dialogue Work (Except CutoverError FixOutcome) := do
  match ← f.base.queryRow ((f.table.byId id).statement f.dialect) with
  | .error e => return .error (.store e)
  | .ok (some row) =>
    match f.table.upsert row f.columns with
    | .error e => return .error (.store e)
    | .ok b =>
      match ← f.target.exec (b.statement f.dialect) with
      | .error e => return .error (.store e)
      | .ok _ => return .ok .upserted
  | .ok none =>
    match ← f.target.exec ((f.table.deleteById id).statement f.dialect) with
    | .error e => return .error (.store e)
    | .ok _ => return .ok .deleted

end Fixer
end Cutover
