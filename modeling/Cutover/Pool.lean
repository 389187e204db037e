import Cutover.Store

/-! # The dual-write pool

Client traffic goes through the pool.  Reads and the result of every call come from the store that
is authoritative in the phase in force when the call starts.  While a phase writes both, a write
that succeeded there is repeated on the other store; how that ends is of no consequence for the
caller.

A transaction keeps the pair of stores it began with, whatever the phase is later.
-/

namespace Cutover.Pool

/-- The phase that routes a call. -/
def phase : Dialogue Work Phase := .request (I := Work) .phase

/-- Repeats a call on the other store, if there is one, and forgets the outcome. -/
def repeatOn (secondary : Option Side) (c : Call) : Dialogue Work Unit := do
  match secondary with
  | none => return
  | some side =>
    let _ ← callStore side c
    return

/-- Carries out a write on the authoritative store and then, in a phase that writes both, on the
other one. -/
def exec (s : Statement) : Dialogue Work (Except StoreError Nat) := do
  let phase ← phase
  match ← callStore phase.authoritative (.exec s) with
  | .error e => return .error e
  | .ok n =>
    repeatOn phase.secondary? (.exec s)
    return .ok n

/-- Reads rows. -/
def query (s : Statement) : Dialogue Work (Except StoreError (List Row)) := do
  callStore (← phase).authoritative (.query s)

/-- Reads the first row. -/
def queryRow (s : Statement) : Dialogue Work (Except StoreError (Option Row)) := do
  callStore (← phase).authoritative (.queryRow s)

/-- The column names of a statement's result. -/
def columns (sql : String) : Dialogue Work (Except StoreError (List String)) := do
  callStore (← phase).authoritative (.columns sql)

/-- No statement is prepared: it would be bound to one of the two stores. -/
def prepare (sql : String) : Dialogue Work (Except StoreError Unit) :=
  .done (.error (.unsupported (.prepareOnPool sql)))

/-! ## Transactions -/

/-- A transaction of one store. -/
structure Branch where
  side : Side
  tx : Nat
  deriving DecidableEq

/-- A transaction of the pool: one branch on the store that was authoritative at its beginning and,
when both were written and the other store began one too, a second branch there. -/
structure Transaction where
  primary : Branch
  secondary : Option Branch
  deriving DecidableEq

/-- Begins a transaction. -/
def begin : Dialogue Work (Except StoreError Transaction) := do
  let phase ← phase
  match ← callStore phase.authoritative .begin with
  | .error e => return .error e
  | .ok tx =>
    let primary : Branch := ⟨phase.authoritative, tx⟩
    match phase.secondary? with
    | none => return .ok ⟨primary, none⟩
    | some side =>
      match ← callStore side .begin with
      | .error _ => return .ok ⟨primary, none⟩
      | .ok tx => return .ok ⟨primary, some ⟨side, tx⟩⟩

namespace Transaction

variable (t : Transaction)

/-- Repeats a call on the second branch, if there is one, and forgets the outcome. -/
def repeatCall (c : Nat → Call) : Dialogue Work Unit := do
  match t.secondary with
  | none => return
  | some b =>
    let _ ← callStore b.side (c b.tx)
    return

/-- Carries out a write in the transaction. -/
def exec (s : Statement) : Dialogue Work (Except StoreError Nat) := do
  match ← callStore t.primary.side (.txExec t.primary.tx s) with
  | .error e => return .error e
  | .ok n =>
    t.repeatCall (.txExec · s)
    return .ok n

/-- Reads rows in the transaction. -/
def query (s : Statement) : Dialogue Work (Except StoreError (List Row)) :=
  callStore t.primary.side (.txQuery t.primary.tx s)

/-- Reads the first row in the transaction. -/
def queryRow (s : Statement) : Dialogue Work (Except StoreError (Option Row)) :=
  callStore t.primary.side (.txQueryRow t.primary.tx s)

/-- Ends the transaction with effect.  When the authoritative branch fails, the second one is
dropped. -/
def commit : Dialogue Work (Except StoreError Unit) := do
  match ← callStore t.primary.side (.txCommit t.primary.tx) with
  | .error e => return .error e
  | .ok _ =>
    t.repeatCall .txCommit
    return .ok ()

/-- Ends the transaction without effect.  When the authoritative branch fails, the second one is
dropped. -/
def rollback : Dialogue Work (Except StoreError Unit) := do
  match ← callStore t.primary.side (.txRollback t.primary.tx) with
  | .error e => return .error e
  | .ok _ =>
    t.repeatCall .txRollback
    return .ok ()

end Transaction

/-! ## Stores and the pool alike -/

/-- Where a statement can be sent: one of the two stores, or the pool over both. -/
inductive Endpoint where
  | store (side : Side)
  | pool
  deriving DecidableEq

namespace Endpoint

/-- Carries out a write. -/
def exec : Endpoint → Statement → Dialogue Work (Except StoreError Nat)
  | .store side, s => callStore side (.exec s)
  | .pool, s => Pool.exec s

/-- Reads rows. -/
def query : Endpoint → Statement → Dialogue Work (Except StoreError (List Row))
  | .store side, s => callStore side (.query s)
  | .pool, s => Pool.query s

/-- Reads the first row. -/
def queryRow : Endpoint → Statement → Dialogue Work (Except StoreError (Option Row))
  | .store side, s => callStore side (.queryRow s)
  | .pool, s => Pool.queryRow s

/-- The column names of a statement's result. -/
def columns : Endpoint → String → Dialogue Work (Except StoreError (List String))
  | .store side, sql => callStore side (.columns sql)
  | .pool, sql => Pool.columns sql

/-- Prepares a statement. -/
def prepare : Endpoint → String → Dialogue Work (Except StoreError Unit)
  | .store side, sql => callStore side (.prepare sql)
  | .pool, sql => Pool.prepare sql

/-- Begins a transaction. -/
def begin : Endpoint → Dialogue Work (Except StoreError Transaction)
  | .store side => do
    match ← callStore side .begin with
    | .error e => return .error e
    | .ok tx => return .ok ⟨⟨side, tx⟩, none⟩
  | .pool => Pool.begin

end Endpoint
end Cutover.Pool
