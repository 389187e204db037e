import Cutover.Rehearsal.Scene

/-! # Scripts

A rehearsal follows a script, step by step.  A step is what a client, the operator or the director
of the rehearsal does at that point; its answer is what they see.  Some steps take time, and while
they do the jobs beside the script go on.
-/

namespace Cutover.Rehearsal

open Pool (Endpoint Transaction)

/-- Where a client sends a statement: to a store or the pool, or into a transaction. -/
inductive Destination where
  | endpoint (e : Endpoint)
  | transaction (name : String)

/-- A use of a prepared statement. -/
inductive PreparedUse where
  | exec (args : List Value)
  | query (args : List Value)

/-- How the events are shown. -/
inductive Arrangement where
  /-- Those of the forward scan, then those of the backward scan. -/
  | byWay
  | sorted
  deriving DecidableEq

/-- A step of a script. -/
inductive Step where
  | exec (on : Destination) (s : Statement)
  | query (on : Destination) (s : Statement)
  | queryRow (on : Destination) (s : Statement)
  | columns (on : Endpoint) (sql : String)
  | prepare (on : Endpoint) (sql : String) (uses : List PreparedUse)
  | begin (on : Endpoint) (name : String)
  | commit (name : String)
  | rollback (name : String)
  | drop (name : String)
  | phase
  | setPhase (p : Phase)
  | fault (on : Side) (r : Rule)
  | clearFaults (on : Side)
  | latency (on : Side) (millis : Nat)
  | dump
  | sleep (d : Duration)
  | validate (q : Scene.Inspection)
  | startValidation (name : String) (q : Scene.Inspection)
  | checkJob (name : String)
  | cancelJob (name : String)
  | joinValidation (name : String)
  | events (start : Nat) (a : Arrangement)
  | fixer (name : String) (base target : Endpoint) (table : TableSpec) (dialect : Dialect)
  | fix (fixer : String) (id : Int64)
  | publish (p : Event.Payload)
  | produce (e : Event)
  | close
  | topic (group : String)
  | subscribe (name group : String)
  | poll (name : String)
  | startPoll (name job : String)
  | checkPoll (job : String)
  | commitOffset (name : String) (offset : Nat)
  | seek (name : String) (offset : Nat)
  | handle (p : Event.Payload) (retry : Retry) (dialect : Dialect)
  | startConsumer (name group : String) (table : TableSpec) (dialect : Dialect) (retry : Retry)
      (backoff : Duration) (flaws : Scene.Flaws)
  | joinConsumer (name : String)
  | switchPhase (p : Phase)
  | startFull
  | stopFull
  | waitFull
  | startIncremental (utimeAfter : Int64) (interval : Duration)
  | stopIncremental
  | shutdown
  | status
  | highLoad (b : Bool)
  | request (time : String) (r : Http.Request)

/-- Events as they are shown. -/
inductive Shown where
  | byWay (forward backward : List Event)
  | sorted (events : List Event)

/-- The answer to a step. -/
inductive Answer where
  | done
  | failed (e : CutoverError)
  | affected (n : Nat)
  | rows (rs : List Row)
  | row (r : Option Row)
  | names (columns : List String)
  | prepared (sql : String) (uses : List Answer)
  | phase (p : Phase)
  | phases (scheduler pool : Phase)
  | tables (src dst : Except StoreError (List Row))
  | validated (isFull : Bool) (t : Tally) (events : Shown)
  | validationStarted (isFull : Bool)
  | joined (t : Tally) (events : Shown)
  | hasEnded (b : Bool)
  | events (e : Shown)
  | fixed (o : FixOutcome)
  | handled (r : Except CutoverError FixOutcome)
  | offset (n : Nat)
  | topic (name : String) (size committed lag : Nat)
  | group (name : String)
  | message (m : Message)
  | waiting
  | consumed (t : FixTally) (committed lag : Nat)
  | status (s : Status)
  | response (r : Http.Response)
  /-- The wait between two attempts was no span of time. -/
  | crashed
  /-- The script names something that is not there, or waits for something that does not happen. -/
  | stuck

namespace Answer

/-- The answer to something that may fail. -/
def ofStore {α : Type} (f : α → Answer) : Except StoreError α → Answer
  | .ok a => f a
  | .error e => .failed (.store e)

/-- The answer to something that may fail. -/
def ofChannel {α : Type} (f : α → Answer) : Except ChannelError α → Answer
  | .ok a => f a
  | .error e => .failed (.channel e)

/-- The answer to something that may fail. -/
def ofCutover {α : Type} (f : α → Answer) : Except CutoverError α → Answer
  | .ok a => f a
  | .error e => .failed e

/-- The answer to a payload that was handled. -/
def ofHandled : Retry.Outcome FixOutcome → Answer
  | .finished r => .handled r
  | .unboundedWait => .crashed

/-- The answer that a consumer's look at the topic comes to. -/
def ofReceived : Consuming.Received → Answer
  | .stopped => .waiting
  | .message m => .message m
  | .failed e => .failed (.channel e)

end Answer

/-! ## Events -/

/-- Whether an event comes before another or in the same place: by identity, then by the name of its
kind, then by the name of its direction. -/
def eventLe (a b : Event) : Bool :=
  if a.id ≠ b.id then a.id < b.id
  else if a.kind ≠ b.kind then a.kind.name < b.kind.name
  else a.direction.name ≤ b.direction.name

/-- The events of an arrangement. -/
def Arrangement.arrange : Arrangement → List Event → Shown
  | .byWay, es => .byWay (es.filter (·.kind ≠ .baseMissing)) (es.filter (·.kind = .baseMissing))
  | .sorted, es => .sorted (es.mergeSort eventLe)

namespace Scene

variable (s : Scene)

/-- Answers a step with something that has a name. -/
def withName {α : Type} (a : Option α) (f : α → Answer × Scene) : Answer × Scene :=
  match a with
  | some a => f a
  | none => (.stuck, s)

/-- Answers a step by work on the stores. -/
def byWork {α : Type} (d : Dialogue Work α) (f : α → Answer) : Answer × Scene :=
  let (a, s) := s.work d
  ((a.map f).getD .stuck, s)

/-- Changes the world at once. -/
def change (f : World → World) : Answer × Scene := (.done, { s with world := (f s.world).wake })

/-- The events from a place on, in the answer. -/
def withEvents (start : Nat) (a : Arrangement) (f : Shown → Answer) : Answer :=
  .ofChannel (fun es => f (a.arrange es)) (s.world.topic.eventsFrom start)

/-! ## Client traffic -/

/-- The work of a statement. -/
def statementWork {α : Type} (on : Destination) (endpoint : Endpoint → Dialogue Work α)
    (transaction : Transaction → Dialogue Work α) : Option (Dialogue Work α) :=
  match on with
  | .endpoint e => some (endpoint e)
  | .transaction name => (s.transactions.lookup name).map transaction

/-- Uses a prepared statement. -/
def usePrepared (side : Side) (sql : String) (u : PreparedUse) : Answer × Scene :=
  let replica := s.world.replica side
  let (args, f) : List Value × (Table.Answer → Answer) :=
    match u with
    | .exec args => (args, fun a => .affected a.affected)
    | .query args => (args, fun a => .rows a.rows)
  match replica.run ⟨sql, args⟩ with
  | .ok (a, r) => (f a, { s with world := s.world.setReplica r side })
  | .error e => (.failed (.store e), s)

/-- Uses a prepared statement several times. -/
def useAll (side : Side) (sql : String) : List PreparedUse → Scene → List Answer × Scene
  | [], s => ([], s)
  | u :: us, s =>
    let (a, s) := s.usePrepared side sql u
    let (as, s) := useAll side sql us s
    (a :: as, s)

/-- Prepares a statement and uses it. -/
def prepare (on : Endpoint) (sql : String) (uses : List PreparedUse) : Answer × Scene :=
  match s.work (on.prepare sql) with
  | (some (.ok ()), s) =>
    match on with
    | .store side =>
      let (answers, s) := useAll side sql uses s
      (.prepared sql answers, s)
    | .pool => (.prepared sql [], s)
  | (some (.error e), s) => (.failed (.store e), s)
  | (none, s) => (.stuck, s)

/-- Begins a transaction. -/
def begin (on : Endpoint) (name : String) : Answer × Scene :=
  match s.work on.begin with
  | (some (.ok t), s) => (.done, { s with transactions := (name, t) :: s.transactions })
  | (some (.error e), s) => (.failed (.store e), s)
  | (none, s) => (.stuck, s)

/-- Ends a transaction. -/
def endTransaction (name : String)
    (f : Transaction → Dialogue Work (Except StoreError Unit)) : Answer × Scene :=
  s.withName (s.transactions.lookup name) fun t =>
    { s with transactions := s.transactions.filter (·.1 ≠ name) }.byWork (f t)
      (.ofStore fun _ => .done)

/-! ## The topic -/

/-- Publishes a payload. -/
def publish (p : Event.Payload) : Answer × Scene :=
  match s.world.topic.publish p with
  | .ok (offset, topic) => (.offset offset, { s with world := { s.world with topic }.wake })
  | .error e => (.failed (.channel e), s)

/-- Publishes an event. -/
def produce (e : Event) : Answer × Scene :=
  match s.world.topic.produce e with
  | .ok topic => (.done, { s with world := { s.world with topic }.wake })
  | .error e => (.failed (.channel e), s)

/-- A reader of the topic. -/
def subscribe (name group : String) : Answer × Scene :=
  let (n, world) := s.world.newChannel { subscriber := .join s.world.topic group }
  (.group group, { s with world, readers := (name, n) :: s.readers })

/-- A look at the topic that does not wait. -/
def poll (n : Nat) : Answer × Scene :=
  if s.world.canPoll n then
    let (r, world) := s.world.poll n
    (.ofReceived r, { s with world })
  else (.waiting, s)

/-- A look at the topic that waits beside the script; it is never cancelled. -/
def startPoll (n : Nat) (job : String) : Answer × Scene :=
  let (token, world) := s.world.newToken false
  let look := Strand.fresh (Stage.ask (.poll n none))
  (.done, { s with world }.start job (.polling look) token "")

/-- What has become of a look at the topic. -/
def checkPoll (j : Started) : Answer :=
  match s.world.tasks[j.task]?.bind (·.ending) with
  | some (.polled r) => .ofReceived r
  | _ => .waiting

/-! ## Jobs -/

/-- The end of a validation. -/
def joinValidation (j : Started) : Answer × Scene :=
  match s.join j with
  | (some (.validated (.ok t)), s) => (s.withEvents j.offset .byWay (.joined t), s)
  | (some (.validated (.error e)), s) => (.failed e, s)
  | (_, s) => (.stuck, s)

/-- The end of a consumer. -/
def joinConsumer (j : Started) : Answer × Scene :=
  match s.join j with
  | (some (.consumed t), s) =>
    (.consumed t (s.world.topic.committed j.group) (s.world.topic.lag j.group), s)
  | (some .crashed, s) => (.crashed, s)
  | (_, s) => (.stuck, s)

/-- Makes a fixer. -/
def makeFixer (name : String) (base target : Endpoint) (table : TableSpec) (dialect : Dialect) :
    Answer × Scene :=
  match s.work (Fixer.make base target table dialect) with
  | (some (.ok f), s) => (.names f.columns, { s with fixers := (name, f) :: s.fixers })
  | (some (.error e), s) => (.failed e, s)
  | (none, s) => (.stuck, s)

/-- Makes a consumer and has it handle one payload. -/
def handle (p : Event.Payload) (retry : Retry) (dialect : Dialect) : Answer × Scene :=
  let table := s.world.scheduler.workplace.table
  match s.work (makeConsumer table dialect retry (.ofSeconds 1)) with
  | (some (.ok c), s) => s.byWork (c.handle p) .ofHandled
  | (some (.error e), s) => (.failed e, s)
  | (none, s) => (.stuck, s)

/-! ## Steps -/

/-- Carries out a step. -/
def perform : Step → Answer × Scene
  | .exec on st =>
    s.withName (s.statementWork on (·.exec st) (·.exec st)) (s.byWork · (.ofStore .affected))
  | .query on st =>
    s.withName (s.statementWork on (·.query st) (·.query st)) (s.byWork · (.ofStore .rows))
  | .queryRow on st =>
    s.withName (s.statementWork on (·.queryRow st) (·.queryRow st)) (s.byWork · (.ofStore .row))
  | .columns on sql => s.byWork (on.columns sql) (.ofStore .names)
  | .prepare on sql uses => s.prepare on sql uses
  | .begin on name => s.begin on name
  | .commit name => s.endTransaction name (·.commit)
  | .rollback name => s.endTransaction name (·.rollback)
  | .drop name => (.done, { s with transactions := s.transactions.filter (·.1 ≠ name) })
  | .phase => (.phase s.world.scheduler.routing, s)
  | .setPhase p => s.change fun w => { w with scheduler := { w.scheduler with routing := p } }
  | .fault on r =>
    s.change fun w =>
      w.setReplica { w.replica on with rules := (w.replica on).rules ++ [r] } on
  | .clearFaults on => s.change fun w => w.setReplica { w.replica on with rules := [] } on
  | .latency on millis => s.change fun w => w.setReplica { w.replica on with latency := millis } on
  | .dump => (.tables s.world.src.table.dump s.world.dst.table.dump, s)
  | .sleep d =>
    let (_, s) := s.carryOn (Stage.sleep d)
    (.done, s)
  | .validate q =>
    let start := s.world.topic.size
    match s.validate q with
    | (some (.ok t), s) => (s.withEvents start .byWay (.validated q.plan.isFull t), s)
    | (some (.error e), s) => (.failed e, s)
    | (none, s) => (.stuck, s)
  | .startValidation name q => (.validationStarted q.plan.isFull, s.startValidation name q)
  | .checkJob name => s.withName (s.started.lookup name) fun j => (.hasEnded (s.hasEnded j), s)
  | .cancelJob name => s.withName (s.started.lookup name) fun j => s.change (·.cancel j.token)
  | .joinValidation name => s.withName (s.started.lookup name) s.joinValidation
  | .events start a => (s.withEvents start a .events, s)
  | .fixer name base target table dialect => s.makeFixer name base target table dialect
  | .fix fixer id =>
    s.withName (s.fixers.lookup fixer) fun f => s.byWork (f.fix id) (.ofCutover .fixed)
  | .publish p => s.publish p
  | .produce e => s.produce e
  | .close => s.change fun w => { w with topic := w.topic.close }
  | .topic group =>
    let t := s.world.topic
    (.topic t.name t.size (t.committed group) (t.lag group), s)
  | .subscribe name group => s.subscribe name group
  | .poll name => s.withName (s.readers.lookup name) s.poll
  | .startPoll name job => s.withName (s.readers.lookup name) (s.startPoll · job)
  | .checkPoll job => s.withName (s.started.lookup job) fun j => (s.checkPoll j, s)
  | .commitOffset name offset =>
    s.withName (s.readers.lookup name) fun n => s.change fun w => (w.commit n ⟨offset, []⟩).2
  | .seek name offset =>
    s.withName (s.readers.lookup name) fun n => s.change fun w => (w.seek n offset).2
  | .handle p retry dialect => s.handle p retry dialect
  | .startConsumer name group table dialect retry backoff flaws =>
    match s.work (makeConsumer table dialect retry backoff) with
    | (some (.ok c), s) => (.done, s.startConsumer name c group flaws)
    | (some (.error e), s) => (.failed e, s)
    | (none, s) => (.stuck, s)
  | .joinConsumer name => s.withName (s.started.lookup name) s.joinConsumer
  | .switchPhase p =>
    let s := s.command (s.world.scheduler.switchPhase p)
    (.phases s.world.scheduler.phase s.world.scheduler.routing, s)
  | .startFull => (.done, s.command s.world.scheduler.startFull)
  | .stopFull => (.done, s.command (s.world.scheduler.stop .full))
  | .waitFull =>
    match s.world.scheduler.full with
    | none => (.done, s)
    | some n =>
      let (_, s) := s.carryOn (Stage.ask (.runEnd n))
      (.done, s)
  | .startIncremental utimeAfter interval =>
    match s.world.scheduler.startIncremental utimeAfter interval with
    | .ok scheduler => (.done, s.command scheduler)
    | .error e => (.failed e, s)
  | .stopIncremental => (.done, s.command (s.world.scheduler.stop .incremental))
  | .shutdown => (.done, s.command s.world.scheduler.shutdown)
  | .status => (.status s.world.scheduler.status, s)
  | .highLoad b => s.change fun w => { w with scheduler := { w.scheduler with highLoad := b } }
  | .request time r =>
    let (response, s) := s.respond time r
    (.response response, s)

/-- The calls since the last report, in order, and the scene after the report. -/
def report : List Entry × Scene :=
  (s.world.log.reverse, { s with world := { s.world with log := [] } })

end Scene

/-! ## The log -/

/-- A call as the log shows it: the side and the call, then the statement, blanks at the end left
out. -/
def Entry.shown (e : Entry) : String :=
  let side := match e.side with
    | .src => "src"
    | .dst => "dst"
  let statement := (e.call.statement?.map Statement.shown).getD ""
  String.ofList (Text.trimEnd (side ++ ":" ++ e.call.name ++ " " ++ statement).toList)

/-- A call as the log shows it with its time. -/
def Entry.shownWithTime (e : Entry) : String := Text.ofNat e.time ++ "ms " ++ e.shown

/-- The scan that an entry of a validation's log belongs to: only the forward scan reads whole rows
and looks up single ones. -/
def Entry.way (e : Entry) : Way :=
  let holds (part : String) := occursIn part.toList e.shown.toList
  if holds ":query SELECT * " || holds ":query_row " then .forward else .backward

end Cutover.Rehearsal
