import Cutover.Record
import Cutover.Store
import Cutover.TableSpec
import Cutover.Tally

/-! # Scans

A validation compares the two stores by two scans that run side by side.  The *forward* scan reads
the base page by page and looks every row up in the target: a row may be missing there or differ.
The *backward* scan reads the identities of the target page by page and asks the base which of them
it has: a row may be missing there.  Each difference is published as an event.

A full validation stops at the end of the data and at the first page it cannot read.  An incremental
one rests there and goes on behind the last row it saw, until it is cancelled.  Every call of a scan
is guarded: it yields to a cancellation, before it begins and while it takes its time.
-/

namespace Cutover

/-- What a scan may call for: an answer of a store, the acceptance of an event, or time to pass. -/
inductive Scanning.Call where
  | query (on : Side) (s : Statement)
  | queryRow (on : Side) (s : Statement)
  | publish (e : Event)
  | rest (d : Duration)
  deriving DecidableEq

/-- What a call comes to. -/
abbrev Scanning.Call.Result : Scanning.Call → Type
  | .query .. => Except StoreError (List Row)
  | .queryRow .. => Except StoreError (Option Row)
  | .publish _ => Except ChannelError Unit
  | .rest _ => Unit

/-- What a scan may ask. -/
inductive Scanning.Request where
  /-- Whether the scan has been cancelled. -/
  | cancelled
  /-- Whether the stores are under high load. -/
  | loaded
  /-- A call that yields to a cancellation. -/
  | guarded (c : Scanning.Call)
  /-- A call that is waited for to its end, whatever becomes of the scan. -/
  | awaited (c : Scanning.Call)
  deriving DecidableEq

namespace Scanning.Request

/-- A reading that yields to a cancellation. -/
@[match_pattern] abbrev query (on : Side) (s : Statement) : Request := .guarded (.query on s)

/-- A reading of one row that yields to a cancellation. -/
@[match_pattern] abbrev queryRow (on : Side) (s : Statement) : Request := .guarded (.queryRow on s)

/-- A publication that yields to a cancellation. -/
@[match_pattern] abbrev publish (e : Event) : Request := .guarded (.publish e)

/-- A rest that yields to a cancellation. -/
@[match_pattern] abbrev rest (d : Duration) : Request := .guarded (.rest d)

end Scanning.Request

/-- What a guarded call comes to; `none` when it yielded. -/
abbrev Guarded (α : Type) := Option α

/-- The interface of a scan. -/
def Scanning : Interface where
  Request := Scanning.Request
  Reply
    | .cancelled | .loaded => Bool
    | .guarded c => Guarded c.Result
    | .awaited c => c.Result

/-- What a validation is to compare, and how. -/
structure Plan where
  base : Side
  target : Side
  /-- The side that the events name as authoritative. -/
  direction : Side
  table : TableSpec
  dialect : Dialect := .sqlite
  /-- The column that orders both scans. -/
  sort : String
  /-- Only rows changed after this time are looked at; zero for all rows. -/
  utimeAfter : Int64 := 0
  /-- The greatest number of rows in a page. -/
  batch : Nat := 100
  batch_pos : 0 < batch := by decide
  /-- The rest at the end of the data; zero for a full validation. -/
  interval : Duration := ⟨0⟩
  /-- The rest before each page while the load is high, if the load is heeded. -/
  loadPause : Option Duration := none

/-- The two scans of a validation. -/
inductive Way where
  | forward
  | backward
  deriving DecidableEq, Repr

/-- How far a scan has come. -/
structure Progress where
  tally : Tally := {}
  cursor : Option Cursor := none
  deriving DecidableEq

/-- How a pass over one page ends. -/
inductive Verdict where
  | again (p : Progress)
  | finished (t : Tally)
  | failed (e : StoreError)

namespace Plan

variable (p : Plan)

/-- Whether the validation ends with the data. -/
def isFull : Bool := p.interval.isZero

/-- Asks the stores, the channel, the clock or the token. -/
def askScanning (r : Scanning.Request) : Dialogue Scanning (Scanning.Reply r) :=
  .request (I := Scanning) r

/-- Makes a call that yields to a cancellation. -/
def guarded (c : Scanning.Call) : Dialogue Scanning (Guarded c.Result) := askScanning (.guarded c)

/-- Whether the scan has been cancelled. -/
def isCancelled : Dialogue Scanning Bool := askScanning .cancelled

/-- Rests, and tells whether the rest was not cut short. -/
def rest (d : Duration) : Dialogue Scanning Bool := do
  let slept : Guarded Unit ← guarded (.rest d)
  return slept.isSome

/-- Rests before a page while the load is high; tells whether the scan may go on. -/
def throttle : Dialogue Scanning Bool := do
  match p.loadPause with
  | none => return true
  | some d =>
    let loaded : Bool ← askScanning .loaded
    if loaded then rest d else return true

/-- The place of a row in the order of the scan. -/
def cursorOf (r : Row) : Except StoreError Cursor := do
  let id ← r.getInt64 p.table.idColumn
  let sort ← r.getInt64 p.sort
  return ⟨sort, id⟩

/-- The statement for the page behind a cursor. -/
def pageStatement (cursor : Option Cursor) (idsOnly : Bool) : Except StoreError Statement := do
  let b ← p.table.page
    { sort := p.sort, utimeAfter := p.utimeAfter, cursor, limit := p.batch, idsOnly }
  return b.statement p.dialect

/-- Publishes a difference and counts it. -/
def emit (id : Int64) (kind : EventKind) (t : Tally) : Dialogue Scanning Tally := do
  let reply : Guarded (Except ChannelError Unit) ← guarded (.publish ⟨id, kind, p.direction⟩)
  match reply with
  | none => return t
  | some (.error _) => return t.fail
  | some (.ok _) => return t.report kind

/-- What becomes of a scan when a call failed: a full validation fails, an incremental one rests and
repeats the pass. -/
def onFailure (e : StoreError) (s : Progress) : Dialogue Scanning Verdict := do
  if p.isFull then return .failed e
  else if ← rest p.interval then return .again { s with tally := s.tally.fail }
  else return .finished s.tally.fail

/-- What becomes of a scan behind a page of the given length: a full page is followed by another; at
the end of the data a full validation ends and an incremental one rests. -/
def afterPage (length : Nat) (s : Progress) : Dialogue Scanning Verdict := do
  if length < p.batch then
    if p.isFull then return .finished s.tally
    else if ← rest p.interval then return .again s
    else return .finished s.tally
  else return .again s

/-! ## Forward -/

/-- What a looked-up target row says about a base row: nothing if they are equal, else the kind of
the difference; an undecodable target row is an error. -/
def difference (base : Record) : Option Row → Except StoreError (Option EventKind)
  | none => .ok (some .targetMissing)
  | some row => do
    let target ← Record.ofRow? row p.table.idColumn
    return if base.equals target then none else some .notEqual

/-- Compares a row of the base with the target's row of the same identity. -/
def compareRow (row : Row) (t : Tally) : Dialogue Scanning Tally := do
  match Record.ofRow? row p.table.idColumn with
  | .error _ => return t.fail
  | .ok base =>
    let lookup := (p.table.byId base.id).statement p.dialect
    let found : Guarded (Except StoreError (Option Row)) ← guarded (.queryRow p.target lookup)
    match found with
    | none => return t
    | some (.error _) => return t.fail
    | some (.ok target) =>
      match p.difference base target with
      | .error _ => return t.fail
      | .ok none => return t
      | .ok (some kind) => p.emit base.id kind t

/-- How the rows of a page end: cancelled, at a row without a place in the order, or at the end of
the page. -/
inductive PageEnd where
  | stopped (t : Tally)
  | failed (e : StoreError)
  | through (s : Progress)

/-- Compares the rows of a page of the base. -/
def compareRows : List Row → Progress → Dialogue Scanning PageEnd
  | [], s => return .through s
  | r :: rs, s => do
    if ← isCancelled then return .stopped s.tally
    else match p.cursorOf r with
      | .error e => return .failed e
      | .ok c => compareRows rs ⟨← p.compareRow r s.tally.scan, some c⟩

/-- Reads and compares the next page of the base. -/
def forwardPage (s : Progress) : Dialogue Scanning Verdict := do
  match p.pageStatement s.cursor false with
  | .error e => return .failed e
  | .ok statement =>
    let page : Guarded (Except StoreError (List Row)) ← guarded (.query p.base statement)
    match page with
    | none => return .finished s.tally
    | some (.error e) => p.onFailure e s
    | some (.ok rows) =>
      match ← p.compareRows rows s with
      | .stopped t => return .finished t
      | .failed e => return .failed e
      | .through s => p.afterPage rows.length s

/-! ## Backward -/

/-- Reports those of the identities of a page that the base does not have; the second component
tells whether all were looked at. -/
def reportAbsent (present : List Int64) : List Int64 → Tally → Dialogue Scanning (Tally × Bool)
  | [], t => return (t, true)
  | id :: ids, t => do
    if ← isCancelled then return (t, false)
    else if present.contains id then reportAbsent present ids t.scan
    else reportAbsent present ids (← p.emit id .baseMissing t.scan)

/-- Compares the identities of a page of the target with the base. -/
def compareIds (length : Nat) (cursors : List Cursor) (s : Progress) :
    Dialogue Scanning Verdict := do
  let ids := cursors.map (·.id)
  let lookup := (p.table.idsIn ids).statement p.dialect
  let found : Guarded (Except StoreError (List Row)) ← guarded (.query p.base lookup)
  match found with
  | none => return .finished s.tally
  | some (.error e) => p.onFailure e s
  | some (.ok rows) =>
    let present := rows.filterMap fun r => (r.getInt64 p.table.idColumn).toOption
    let (tally, complete) ← p.reportAbsent present ids s.tally
    if complete then p.afterPage length ⟨tally, cursors.getLast?⟩ else return .finished tally

/-- Reads and compares the next page of the target. -/
def backwardPage (s : Progress) : Dialogue Scanning Verdict := do
  match p.pageStatement s.cursor true with
  | .error e => return .failed e
  | .ok statement =>
    let page : Guarded (Except StoreError (List Row)) ← guarded (.query p.target statement)
    match page with
    | none => return .finished s.tally
    | some (.error e) => p.onFailure e s
    | some (.ok []) => p.afterPage 0 s
    | some (.ok rows) =>
      match rows.mapM p.cursorOf with
      | .error e => return .failed e
      | .ok cursors => p.compareIds rows.length cursors s

/-! ## Passes -/

/-- One pass of a scan: over the next page, unless the scan has been cancelled. -/
def pass (way : Way) (s : Progress) : Dialogue Scanning Verdict := do
  if ← isCancelled then return .finished s.tally
  else if ← p.throttle then
    match way with
    | .forward => p.forwardPage s
    | .backward => p.backwardPage s
  else return .finished s.tally

end Plan
end Cutover
