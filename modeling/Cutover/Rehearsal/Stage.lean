import Cutover.Consumer
import Cutover.Scan

/-! # The stage

In a rehearsal every conversation — client calls, scans, the consumer — is carried out on one stage,
in requests of two kinds.  Most are answered on the spot: the entry of a call in the log, its effect
on the store, a look at a flag.  A few wait: for an amount of time, for a message, for the end of
something.  The definitions below say how each larger request is made of these: where time passes,
and where a cancellation is noticed.
-/

namespace Cutover.Rehearsal

/-- What can be cancelled: a run of the scheduler, or something the script started itself. -/
inductive Token where
  | run (n : Nat)
  | own (n : Nat)
  deriving DecidableEq

/-- How events are published in a rehearsal: to the topic, except that publishing may fail, and that
one event may cancel the validation that publishes it. -/
structure Producer where
  failsAll : Bool := false
  failsOn : List Int64 := []
  cancelsOn : Option Int64 := none
  deriving DecidableEq

/-- How a piece of work that ran beside the script ended. -/
inductive Ending where
  | validated (r : Except CutoverError Tally)
  | consumed (t : FixTally)
  /-- The wait between two attempts was no span of time. -/
  | crashed
  | polled (r : Consuming.Received)

/-- What the stage offers. -/
inductive Stage.Request where
  /-- A call begins; the reply is how long it takes. -/
  | announce (on : Side) (c : Call)
  /-- A call takes effect. -/
  | carry (on : Side) (c : Call)
  | phase
  | loaded
  | cancelled (t : Token)
  | publish (p : Producer) (t : Token) (e : Event)
  | commit (channel : Nat) (m : Message)
  | seek (channel : Nat) (offset : Nat)
  /-- Time passes; the reply tells whether no cancellation cut it short. -/
  | sleep (d : Duration) (t : Option Token)
  /-- The next message of a channel. -/
  | poll (channel : Nat) (t : Option Token)
  /-- Something started before ends. -/
  | ending (task : Nat)
  /-- A run of the scheduler ends. -/
  | runEnd (n : Nat)

/-- The interface of the stage. -/
def Stage : Interface where
  Request := Stage.Request
  Reply
    | .announce .. => Duration
    | .carry _ c => Except StoreError c.Result
    | .phase => Phase
    | .loaded | .cancelled _ => Bool
    | .publish .. | .commit .. | .seek .. => Except ChannelError Unit
    | .sleep .. => Bool
    | .poll .. => Consuming.Received
    | .ending _ => Ending
    | .runEnd _ => Unit

namespace Stage

/-- One request. -/
def ask (r : Stage.Request) : Dialogue Stage (Stage.Reply r) := .request (I := Stage) r

/-- Lets time pass, which nothing cuts short. -/
def sleep (d : Duration) : Dialogue Stage Unit := do
  let _ ← ask (.sleep d none)

/-- Whether something has been cancelled. -/
def isCancelled (t : Token) : Dialogue Stage Bool := ask (.cancelled t)

/-! ## Work on the stores -/

/-- Calls a store. -/
def call (on : Side) (c : Call) : Dialogue Stage (Except StoreError c.Result) := do
  let latency : Duration ← ask (.announce on c)
  sleep latency
  ask (.carry on c)

/-- How a request of work is made. -/
def ofWork : (r : Work.Request) → Dialogue Stage (Work.Reply r)
  | .call on c => call on c
  | .phase => ask .phase
  | .pause d => sleep d
  | .chance => .done (0 : Nat)

/-- Work on the stores, on the stage. -/
def work {α : Type} (d : Dialogue Work α) : Dialogue Stage α := d.interpret ofWork

/-! ## Scans -/

/-- A call that yields to a cancellation, before it begins and while it takes its time. -/
def guardedCall (t : Token) (on : Side) (c : Call) :
    Dialogue Stage (Guarded (Except StoreError c.Result)) := do
  if ← isCancelled t then return none
  else
    let latency : Duration ← ask (.announce on c)
    let rested : Bool ← ask (.sleep latency (some t))
    if rested then
      let result : Except StoreError c.Result ← ask (.carry on c)
      return some result
    else return none

/-- Publishes an event, unless that has been cancelled. -/
def guardedPublish (p : Producer) (t : Token) (e : Event) :
    Dialogue Stage (Guarded (Except ChannelError Unit)) := do
  if ← isCancelled t then return none
  else
    let result : Except ChannelError Unit ← ask (.publish p t e)
    return some result

/-- Lets time pass, unless that is cancelled. -/
def guardedSleep (t : Token) (d : Duration) : Dialogue Stage (Guarded Unit) := do
  let rested : Bool ← ask (.sleep d (some t))
  return if rested then some () else none

/-- How a request of a scan is made. -/
def ofScanning (p : Producer) (t : Token) :
    (r : Scanning.Request) → Dialogue Stage (Scanning.Reply r)
  | .cancelled => isCancelled t
  | .loaded => ask .loaded
  | .query on s => guardedCall t on (.query s)
  | .queryRow on s => guardedCall t on (.queryRow s)
  | .publish e => guardedPublish p t e
  | .rest d => guardedSleep t d
  | .awaited (.query on s) => call on (.query s)
  | .awaited (.queryRow on s) => call on (.queryRow s)
  | .awaited (.publish e) => ask (.publish p t e)
  | .awaited (.rest d) => sleep d

/-- One pass of a scan, on the stage. -/
def pass (plan : Plan) (p : Producer) (t : Token) (way : Way) (s : Progress) :
    Dialogue Stage Verdict :=
  (plan.pass way s).interpret (ofScanning p t)

/-! ## The consumer -/

/-- How a request of a consumer is made. -/
def ofConsuming (channel : Nat) (t : Token) :
    (r : Consuming.Request) → Dialogue Stage (Consuming.Reply r)
  | .poll => ask (.poll channel (some t))
  | .commit m => ask (.commit channel m)
  | .seek offset => ask (.seek channel offset)
  | .rest d => ask (.sleep d (some t))
  | .work w => ofWork w

/-- One turn of a consumer, on the stage. -/
def turn (c : Consumer) (channel : Nat) (t : Token) (tally : FixTally) :
    Dialogue Stage Consumer.Turn :=
  (c.turn tally).interpret (ofConsuming channel t)

end Stage
end Cutover.Rehearsal
