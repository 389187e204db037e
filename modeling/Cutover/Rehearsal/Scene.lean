import Cutover.Http.Control
import Cutover.Rehearsal.Clock

/-! # Scenes

A scene is a world in which things go by names: transactions, fixers, the readers of the topic, and
the jobs that were started beside the script.  Here are the operations of a scene that start
something or carry it to its end; `Cutover.Rehearsal.Script` makes steps of them.
-/

namespace Cutover.Rehearsal

open Pool (Endpoint Transaction)

/-- Something that was started: its task, how to cancel it, and where it stood in the topic. -/
structure Started where
  task : Nat
  token : Token
  /-- How much the topic held at the start. -/
  offset : Nat := 0
  group : String := ""
  deriving DecidableEq

/-- A world with names. -/
structure Scene where
  world : World
  transactions : List (String × Transaction) := []
  fixers : List (String × Fixer) := []
  readers : List (String × Nat) := []
  started : List (String × Started) := []

/-- The pieces of a rehearsal before it begins. -/
structure Setting where
  table : TableSpec
  dialect : Dialect := .sqlite
  phase : Phase := .srcOnly
  topic : String := "migrator"
  batch : Nat := 100
  loadPause : Duration := .ofMillis 500
  src : Replica
  dst : Replica

/-- A scene before its first step. -/
def Setting.scene (s : Setting) : Scene where
  world := {
    src := s.src
    dst := s.dst
    topic := { name := s.topic }
    scheduler := .start {
      table := s.table, dialect := s.dialect, batch := max s.batch 1, batch_pos := by omega
      loadPause := s.loadPause } s.phase }

namespace Scene

variable (s : Scene)

/-- More turns than any rehearsal takes that comes to an end. -/
def turns : Nat := 1000000

/-- Carries on a conversation to its end. -/
def carryOn {α : Type} (d : Dialogue Stage α) : Option α × Scene :=
  let (a, world) := s.world.carryOn turns (.fresh d)
  (a, { s with world })

/-- Does work on the stores. -/
def work {α : Type} (d : Dialogue Work α) : Option α × Scene := s.carryOn (Stage.work d)

/-- Starts a job under a name. -/
def start (name : String) (job : Job) (token : Token) (group : String) : Scene :=
  let (task, world) := s.world.spawn job none
  { s with
    world
    started := (name, { task, token, offset := s.world.topic.size, group }) :: s.started }

/-- Whether the job of a name has ended. -/
def hasEnded (j : Started) : Bool := s.world.tasks[j.task]?.any (·.ending.isSome)

/-- Waits for the end of a job. -/
def join (j : Started) : Option Ending × Scene := s.carryOn (Stage.ask (.ending j.task))

/-! ## The scheduler -/

/-- Starts the jobs of runs that have none, from a number on. -/
def launch (first : Nat) (w : World) : World :=
  (w.scheduler.runs.toList.zipIdx.drop first).foldl (fun w (r, n) =>
    (w.spawn (.validation (.start r.plan {} (.run n))) (some n)).2) w

/-- Puts the state of the scheduler after a command in place, and starts the runs that are new. -/
def command (scheduler : Scheduler) : Scene :=
  { s with world := launch s.world.scheduler.runs.size { s.world with scheduler }.wake }

/-! ## Validation -/

/-- What a validation of the script's own compares, and how; what is left out follows from the
rest. -/
structure Inspection where
  direction : Side := .src
  base : Option Side := none
  target : Option Side := none
  table : TableSpec
  dialect : Dialect := .sqlite
  batch : Nat := 100
  utimeAfter : Int64 := 0
  interval : Duration := ⟨0⟩
  orderBy : Option String := none
  loadPause : Option Duration := none
  /-- Whether the validation is cancelled before it begins. -/
  cancelled : Bool := false
  producer : Producer := {}

/-- The plan of an inspection. -/
def Inspection.plan (q : Inspection) : Plan where
  base := q.base.getD q.direction
  target := q.target.getD q.direction.other
  direction := q.direction
  table := q.table
  dialect := q.dialect
  sort := q.orderBy.getD q.table.idColumn
  utimeAfter := q.utimeAfter
  batch := max q.batch 1
  batch_pos := by omega
  interval := q.interval
  loadPause := q.loadPause

/-- A validation that has not begun, and the scene with its token. -/
def prepareValidation (q : Inspection) : Validation × Scene :=
  let (token, world) := s.world.newToken q.cancelled
  (.start q.plan q.producer token, { s with world })

/-- Carries a validation to its end. -/
def validate (q : Inspection) : Option (Except CutoverError Tally) × Scene :=
  let (v, s) := s.prepareValidation q
  let (r, world) := s.world.carryOut turns v
  (r, { s with world })

/-- Starts a validation. -/
def startValidation (name : String) (q : Inspection) : Scene :=
  let (v, s) := s.prepareValidation q
  s.start name (.validation v) v.token ""

/-! ## Repair -/

/-- A consumer between the two stores, made by asking each for its columns. -/
def makeConsumer (table : TableSpec) (dialect : Dialect) (retry : Retry) (backoff : Duration) :
    Dialogue Work (Except CutoverError Consumer) := do
  match ← Fixer.make (.store .src) (.store .dst) table dialect with
  | .error e => return .error e
  | .ok fromSrc =>
    match ← Fixer.make (.store .dst) (.store .src) table dialect with
    | .error e => return .error e
    | .ok fromDst => return .ok { fromSrc, fromDst, retry, backoff }

/-- How a consumer's channel fails, at the beginning. -/
structure Flaws where
  polls : Nat := 0
  commits : Nat := 0
  seeks : Nat := 0
  deriving DecidableEq

/-- Connects a consumer to the topic as a member of a group. -/
def connect (c : Consumer) (group : String) (flaws : Flaws) : Consumption × Scene :=
  let (token, world) := s.world.newToken false
  let (channel, world) := world.newChannel {
    subscriber := .join world.topic group
    failingPolls := flaws.polls
    failingCommits := flaws.commits
    failingSeeks := flaws.seeks }
  (⟨c, channel, token, .fresh (Stage.turn c channel token {})⟩, { s with world })

/-- Starts a consumer. -/
def startConsumer (name : String) (c : Consumer) (group : String) (flaws : Flaws) : Scene :=
  let (job, s) := s.connect c group flaws
  s.start name (.consumption job) job.token group

/-! ## Requests of the operator -/

/-- Answers a request of the operator. -/
def respond (time : String) (r : Http.Request) : Http.Response × Scene :=
  let (response, scheduler) := Http.Application.respond ⟨s.world.scheduler, s.world.topic⟩ time r
  (response, s.command scheduler)

end Scene
end Cutover.Rehearsal
