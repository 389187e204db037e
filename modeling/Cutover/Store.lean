import Cutover.Dialogue
import Cutover.Duration
import Cutover.Phase
import Cutover.Row

/-! # Stores

What can be asked of a store, and the interface of everything that works on the two stores: calls, a
look at the phase that routes client traffic, waiting, and a draw from the clock's nanoseconds,
which serves as a source of chance.
-/

namespace Cutover

/-- A call of a store.  A transaction is known to its store by a number. -/
inductive Call where
  | exec (s : Statement)
  | query (s : Statement)
  | queryRow (s : Statement)
  | columns (sql : String)
  | prepare (sql : String)
  | begin
  | txExec (tx : Nat) (s : Statement)
  | txQuery (tx : Nat) (s : Statement)
  | txQueryRow (tx : Nat) (s : Statement)
  | txCommit (tx : Nat)
  | txRollback (tx : Nat)
  deriving DecidableEq

namespace Call

/-- What a call that succeeds returns. -/
abbrev Result : Call → Type
  | .exec _ | .txExec .. => Nat
  | .query _ | .txQuery .. => List Row
  | .queryRow _ | .txQueryRow .. => Option Row
  | .columns _ => List String
  | .begin => Nat
  | .prepare _ | .txCommit _ | .txRollback _ => Unit

/-- The name of a call. -/
def name : Call → String
  | .exec _ => "exec"
  | .query _ => "query"
  | .queryRow _ => "query_row"
  | .columns _ => "columns"
  | .prepare _ => "prepare"
  | .begin => "begin"
  | .txExec .. => "tx_exec"
  | .txQuery .. => "tx_query"
  | .txQueryRow .. => "tx_query_row"
  | .txCommit _ => "tx_commit"
  | .txRollback _ => "tx_rollback"

/-- The statement of a call that has one. -/
def statement? : Call → Option Statement
  | .exec s | .query s | .queryRow s | .txExec _ s | .txQuery _ s | .txQueryRow _ s => some s
  | .columns sql | .prepare sql => some ⟨sql, []⟩
  | .begin | .txCommit _ | .txRollback _ => none

end Call

/-- What a piece of work on the stores may ask. -/
inductive Work.Request where
  | call (on : Side) (c : Call)
  /-- The phase that routes client traffic at this moment. -/
  | phase
  | pause (d : Duration)
  /-- The nanoseconds of the current second. -/
  | chance
  deriving DecidableEq

/-- The interface of work on the stores. -/
def Work : Interface where
  Request := Work.Request
  Reply
    | .call _ c => Except StoreError c.Result
    | .phase => Phase
    | .pause _ => Unit
    | .chance => Nat

/-- Calls a store. -/
def callStore (on : Side) (c : Call) : Dialogue Work (Except StoreError c.Result) :=
  .request (I := Work) (.call on c)

/-- Waits. -/
def pause (d : Duration) : Dialogue Work Unit := .request (I := Work) (.pause d)

end Cutover
