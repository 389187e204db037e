import Cutover.Scan

/-! # The scheduler

The operator's commands: switching the phase, and starting and stopping validations.  Of each kind
at most one validation is under way: starting another cancels the one before.  A cancelled run does
not vanish at once; it ends when it next looks.  Switching the phase does not touch the runs, which
keep the direction they started with.

A command is a function of the scheduler's state.  The runs themselves are carried out elsewhere;
here a run is what the command decided about it, and whether it has been cancelled and has ended.
-/

namespace Cutover

/-- The two kinds of validation. -/
inductive RunKind where
  | full
  | incremental
  deriving DecidableEq, Repr

/-- A validation that has been started. -/
structure Run where
  kind : RunKind
  plan : Plan
  cancelled : Bool := false
  ended : Bool := false

/-- What the scheduler works with. -/
structure Workplace where
  table : TableSpec
  dialect : Dialect := .sqlite
  batch : Nat := 100
  batch_pos : 0 < batch := by decide
  loadPause : Duration := .ofMillis 500

/-- The state of the scheduler. -/
structure Scheduler where
  workplace : Workplace
  /-- The phase as the scheduler has it. -/
  phase : Phase
  /-- The phase that routes client traffic. -/
  routing : Phase
  /-- Every run that was ever started, in the order of the starts. -/
  runs : Array Run := #[]
  /-- The full validation started last, and the incremental one. -/
  full : Option Nat := none
  incremental : Option Nat := none
  highLoad : Bool := false

/-- What the operator sees. -/
structure Status where
  phase : Phase
  fullRunning : Bool
  incrementalRunning : Bool
  deriving DecidableEq

namespace Scheduler

variable (s : Scheduler)

/-- A scheduler before its first command; it takes the phase of the pool. -/
def start (workplace : Workplace) (phase : Phase) : Scheduler :=
  { workplace, phase, routing := phase }

/-- The run of a kind that was started last. -/
def current : RunKind → Option Nat
  | .full => s.full
  | .incremental => s.incremental

/-- Sets the run of a kind. -/
def setCurrent (n : Nat) : RunKind → Scheduler
  | .full => { s with full := some n }
  | .incremental => { s with incremental := some n }

/-- Changes a run. -/
def modifyRun (n : Nat) (f : Run → Run) : Scheduler := { s with runs := s.runs.modify n f }

/-- Cancels a run. -/
def cancel (n : Nat) : Scheduler := s.modifyRun n fun r => { r with cancelled := true }

/-- Notes that a run has ended. -/
def finish (n : Nat) : Scheduler := s.modifyRun n fun r => { r with ended := true }

/-- Cancels the run of a kind that was started last, if there is one. -/
def stop (kind : RunKind) : Scheduler :=
  match s.current kind with
  | none => s
  | some n => s.cancel n

/-- Switches the phase, for the scheduler and for client traffic alike. -/
def switchPhase (p : Phase) : Scheduler := { s with phase := p, routing := p }

/-- The plan of a validation in the present phase: the authoritative store is the base. -/
def plan (sort : String) (utimeAfter : Int64) (interval : Duration) : Plan where
  base := s.phase.authoritative
  target := s.phase.authoritative.other
  direction := s.phase.authoritative
  table := s.workplace.table
  dialect := s.workplace.dialect
  sort
  utimeAfter
  batch := s.workplace.batch
  batch_pos := s.workplace.batch_pos
  interval
  loadPause := some s.workplace.loadPause

/-- Starts a run in place of the one of its kind. -/
def launch (kind : RunKind) (plan : Plan) : Scheduler :=
  let stopped := s.stop kind
  { stopped with runs := stopped.runs.push { kind, plan } }.setCurrent stopped.runs.size kind

/-- Starts a full validation, by identity. -/
def startFull : Scheduler := s.launch .full (s.plan s.workplace.table.idColumn 0 ⟨0⟩)

/-- Starts an incremental validation of the rows changed after a time, by that time.  Its interval
must not be zero. -/
def startIncremental (utimeAfter : Int64) (interval : Duration) : Except CutoverError Scheduler :=
  if interval.isZero then .error (.invalidArgument .zeroInterval)
  else .ok (s.launch .incremental (s.plan s.workplace.table.utimeColumn utimeAfter interval))

/-- Cancels both current runs. -/
def shutdown : Scheduler := (s.stop .full).stop .incremental

/-- Whether the run of a kind that was started last has yet to end. -/
def isRunning (kind : RunKind) : Bool :=
  match (s.current kind).bind (s.runs[·]?) with
  | none => false
  | some r => !r.ended

/-- What the operator sees. -/
def status : Status := ⟨s.phase, s.isRunning .full, s.isRunning .incremental⟩

end Scheduler
end Cutover
