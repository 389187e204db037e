import Cutover.Pool
import Cutover.Rehearsal.Replica
import Cutover.Rehearsal.Stage
import Cutover.Scheduler

/-! # The world of a rehearsal

Everything that the conversations on the stage share: the two stores, the scheduler, the topic, the
log of calls, and a clock that stands still while anything can be done.  `isReady` tells whether a
request can be answered now, and `answer` answers it; that a request waits is no more than that it
is not ready.
-/

namespace Cutover.Rehearsal

/-- A conversation that has come to a request which was not ready. -/
structure Strand (α : Type) where
  rest : Dialogue Stage α
  /-- When the time is over that the request waits for. -/
  due : Option Nat := none
  /-- Of strands with the same end of waiting, the one with the lesser number goes first. -/
  serial : Nat := 0

/-- A scan between two looks at it. -/
inductive Leg where
  | running (s : Strand Verdict)
  | ended (t : Tally)

/-- A validation: two scans side by side. -/
structure Validation where
  plan : Plan
  producer : Producer
  token : Token
  forward : Leg
  backward : Leg
  /-- The scan that is looked at first. -/
  first : Way := .forward

/-- A consumer at work. -/
structure Consumption where
  consumer : Consumer
  channel : Nat
  token : Token
  strand : Strand Consumer.Turn

/-- Work that goes on beside the script. -/
inductive Job where
  | validation (v : Validation)
  | consumption (c : Consumption)
  | polling (s : Strand Consuming.Received)

/-- A job with its state. -/
structure Task where
  job : Job
  /-- The run of the scheduler that the job carries out. -/
  run : Option Nat := none
  /-- Whether the job is waiting for its turn. -/
  queued : Bool := true
  ending : Option Ending := none

/-- A consumer's connection to the topic.  The first looks, commits and seeks fail, as many as
told. -/
structure Channel where
  subscriber : Subscriber
  failingPolls : Nat := 0
  failingCommits : Nat := 0
  failingSeeks : Nat := 0
  deriving DecidableEq

/-- A call in the log: when it began, on which side, and the call. -/
structure Entry where
  time : Nat
  side : Side
  call : Call
  deriving DecidableEq

/-- The state of a rehearsal. -/
structure World where
  src : Replica
  dst : Replica
  scheduler : Scheduler
  topic : Topic
  /-- The time, in milliseconds. -/
  now : Nat := 0
  /-- The calls that have not been reported yet, the last one first. -/
  log : List Entry := []
  channels : Array Channel := #[]
  /-- Which of the script's own tokens are cancelled. -/
  cancelled : Array Bool := #[]
  tasks : Array Task := #[]
  /-- The tasks whose turn comes next, in order. -/
  queue : List Nat := []
  /-- The number of the next strand that waits for a time. -/
  serial : Nat := 0

/-- The error of a channel that was told to fail. -/
def channelFault : ChannelError := .transport "injected"

namespace World

variable (w : World)

/-! ## Parts -/

/-- The store of a side. -/
def replica : Side → Replica
  | .src => w.src
  | .dst => w.dst

/-- Replaces the store of a side. -/
def setReplica (r : Replica) : Side → World
  | .src => { w with src := r }
  | .dst => { w with dst := r }

/-- Whether something has been cancelled. -/
def isCancelled : Token → Bool
  | .run n => w.scheduler.runs[n]?.any (·.cancelled)
  | .own n => w.cancelled[n]?.getD false

/-- Cancels something. -/
def cancel : Token → World
  | .run n => { w with scheduler := w.scheduler.cancel n }
  | .own n => { w with cancelled := w.cancelled.setIfInBounds n true }

/-- A token of the script's own. -/
def newToken (cancelled : Bool) : Token × World :=
  (.own w.cancelled.size, { w with cancelled := w.cancelled.push cancelled })

/-- A new channel of a group. -/
def newChannel (c : Channel) : Nat × World :=
  (w.channels.size, { w with channels := w.channels.push c })

/-! ## Channels -/

/-- What a channel finds when it looks. -/
def look (c : Channel) : Polled × Subscriber := c.subscriber.poll w.topic

/-- Whether a look at a channel has a result. -/
def canPoll (n : Nat) : Bool :=
  match w.channels[n]? with
  | none => true
  | some c => 0 < c.failingPolls || (w.look c).1 ≠ .waiting

/-- The result of a look at a channel. -/
def poll (n : Nat) : Consuming.Received × World :=
  match w.channels[n]? with
  | none => (.failed .closed, w)
  | some c =>
    if 0 < c.failingPolls then
      (.failed channelFault,
        { w with channels := w.channels.set! n { c with failingPolls := c.failingPolls - 1 } })
    else
      match w.look c with
      | (.message m, subscriber) =>
        (.message m, { w with channels := w.channels.set! n { c with subscriber } })
      | _ => (.failed .closed, w)

/-- Commits a message. -/
def commit (n : Nat) (m : Message) : Except ChannelError Unit × World :=
  match w.channels[n]? with
  | none => (.ok (), w)
  | some c =>
    if 0 < c.failingCommits then
      (.error channelFault,
        { w with channels := w.channels.set! n { c with failingCommits := c.failingCommits - 1 } })
    else (.ok (), { w with topic := w.topic.commit c.subscriber.group m.offset })

/-- Moves a channel. -/
def seek (n : Nat) (offset : Nat) : Except ChannelError Unit × World :=
  match w.channels[n]? with
  | none => (.ok (), w)
  | some c =>
    if 0 < c.failingSeeks then
      (.error channelFault,
        { w with channels := w.channels.set! n { c with failingSeeks := c.failingSeeks - 1 } })
    else
      let subscriber := c.subscriber.seek offset
      (.ok (), { w with channels := w.channels.set! n { c with subscriber } })

/-- Publishes an event. -/
def publish (p : Producer) (t : Token) (e : Event) : Except ChannelError Unit × World :=
  let w := if p.cancelsOn = some e.id then w.cancel t else w
  if p.failsAll || p.failsOn.contains e.id then (.error (.transport "broker down"), w)
  else
    match w.topic.produce e with
    | .ok topic => (.ok (), { w with topic })
    | .error e => (.error e, w)

/-! ## Requests -/

/-- When the time is over that a request made now waits for. -/
def deadline : Stage.Request → Option Nat
  | .sleep d _ => some (w.now + d.coverMillis)
  | _ => none

/-- Whether a request can be answered now. -/
def isReady (due : Option Nat) : Stage.Request → Bool
  | .sleep _ t => due.any (· ≤ w.now) || t.any w.isCancelled
  | .poll n t => t.any w.isCancelled || w.canPoll n
  | .ending n => w.tasks[n]?.all (·.ending.isSome)
  | .runEnd n => w.scheduler.runs[n]?.all (·.ended)
  | _ => true

/-- Answers a request that is ready. -/
def answer : (r : Stage.Request) → Stage.Reply r × World
  | .announce on c => (Duration.ofMillis (w.replica on).latency,
    { w with log := ⟨w.now, on, c⟩ :: w.log })
  | .carry on c =>
    let (result, r) := (w.replica on).carry c
    (result, w.setReplica r on)
  | .phase => (w.scheduler.routing, w)
  | .loaded => (w.scheduler.highLoad, w)
  | .cancelled t => (w.isCancelled t, w)
  | .publish p t e => w.publish p t e
  | .commit n m => w.commit n m
  | .seek n offset => w.seek n offset
  | .sleep _ t => (!t.any w.isCancelled, w)
  | .poll n t => if t.any w.isCancelled then (Consuming.Received.stopped, w) else w.poll n
  | .ending n => ((w.tasks[n]?.bind (·.ending)).getD .crashed, w)
  | .runEnd _ => ((), w)

end World

/-! ## Strands -/

namespace Strand

variable {α : Type}

/-- Goes on with a conversation as far as its requests are ready. -/
def run : Dialogue Stage α → World → Strand α × World
  | .done a, w => (⟨.done a, none, 0⟩, w)
  | .ask r next, w =>
    let due := w.deadline r
    if w.isReady due r then
      let (reply, w) := w.answer r
      run (next reply) w
    else (⟨.ask r next, due, w.serial⟩, { w with serial := w.serial + 1 })

/-- A conversation that has not begun. -/
def fresh (d : Dialogue Stage α) : Strand α := { rest := d }

variable (s : Strand α)

/-- Whether a strand can go on. -/
def isReady (w : World) : Bool :=
  match s.rest with
  | .done _ => true
  | .ask r _ => w.isReady s.due r

/-- Goes on with a strand.  One that has begun to wait keeps the end of its waiting. -/
def advance (w : World) : Strand α × World :=
  match s.rest, s.due with
  | .ask r next, some due =>
    if w.isReady (some due) r then
      let (reply, w) := w.answer r
      run (next reply) w
    else (s, w)
  | d, _ => run d w

end Strand
end Cutover.Rehearsal
