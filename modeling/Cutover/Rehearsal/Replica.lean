import Cutover.Rehearsal.Fault
import Cutover.Table

/-! # Stores in a rehearsal

A store that keeps its table in memory, answers after a stated time, and fails where a rule says so.
A transaction works on a copy of the table from its beginning; its end puts the copy in place of the
table.
-/

namespace Cutover.Rehearsal

/-- A store of one table. -/
structure Replica where
  table : Table
  /-- How many milliseconds a call takes. -/
  latency : Nat := 0
  rules : List Rule := []
  /-- The copies that the open transactions work on. -/
  copies : List (Nat × Table) := []
  /-- The number of the next transaction. -/
  next : Nat := 0
  deriving DecidableEq

namespace Replica

variable (r : Replica)

/-- The copy of a transaction. -/
def copy (tx : Nat) : Except StoreError Table :=
  match r.copies.lookup tx with
  | some t => .ok t
  | none => .error Table.refused

/-- Forgets a transaction. -/
def close (tx : Nat) : Replica := { r with copies := r.copies.filter (·.1 ≠ tx) }

/-- Carries out a statement on the table. -/
def run (s : Statement) : Except StoreError (Table.Answer × Replica) :=
  (r.table.runStatement s).map fun (a, table) => (a, { r with table })

/-- Carries out a statement on the copy of a transaction. -/
def runIn (tx : Nat) (s : Statement) : Except StoreError (Table.Answer × Replica) := do
  let (a, table) ← (← r.copy tx).runStatement s
  return (a, { r.close tx with copies := (tx, table) :: (r.close tx).copies })

/-- The answer of a statement, and the store after it; a statement that fails changes nothing. -/
def answered {α : Type} (f : Table.Answer → α) :
    Except StoreError (Table.Answer × Replica) → Except StoreError α × Replica
  | .ok (a, r) => (.ok (f a), r)
  | .error e => (.error e, r)

/-- Carries out a call, no rule standing in the way. -/
def work : (c : Call) → Except StoreError c.Result × Replica
  | .exec s => r.answered (·.affected) (r.run s)
  | .query s => r.answered (·.rows) (r.run s)
  | .queryRow s => r.answered (·.rows.head?) (r.run s)
  | .columns sql => (r.table.namesOf sql, r)
  | .prepare sql => (r.table.checkStatement sql, r)
  | .begin => (.ok r.next, { r with copies := (r.next, r.table) :: r.copies, next := r.next + 1 })
  | .txExec tx s => r.answered (·.affected) (r.runIn tx s)
  | .txQuery tx s => r.answered (·.rows) (r.runIn tx s)
  | .txQueryRow tx s => r.answered (·.rows.head?) (r.runIn tx s)
  | .txCommit tx =>
    match r.copy tx with
    | .ok table => (.ok (), { r.close tx with table })
    | .error e => (.error e, r)
  | .txRollback tx => (.ok (), r.close tx)

/-- A row in which a column goes by another name. -/
def renamed (column name : String) (row : Row) : Row :=
  ⟨row.cells.map fun (c, v) => (if c = column then name else c, v)⟩

/-- The result of a call that reads rows, a column going by another name. -/
def rename (column name : String) : (c : Call) → c.Result → c.Result
  | .query _, rows => rows.map (renamed column name)
  | .queryRow _, row => row.map (renamed column name)
  | .exec _, x | .columns _, x | .prepare _, x | .begin, x | .txExec .., x | .txQuery .., x
  | .txQueryRow .., x | .txCommit _, x | .txRollback _, x => x

/-- Carries out a call as the rules have it. -/
def carry (c : Call) : Except StoreError c.Result × Replica :=
  let (effect, rules) := Rule.meet c r.rules
  let r := { r with rules }
  match effect with
  | none => r.work c
  | some (.fail e) => (.error e, r)
  | some (.rename column name) =>
    let (result, r) := r.work c
    (result.map (rename column name c), r)

end Replica
end Cutover.Rehearsal
