import Cutover.Fixer
import Cutover.Retry
import Cutover.Topic

/-! # The consumer of inconsistencies

The consumer takes the messages of its group in order.  A message is committed once its row has been
repaired, or once it is clear that it can never be handled.  Any other failure hands the message
back: the consumer returns to its place, rests, and takes it again; no later message is handled
before.
-/

namespace Cutover

/-- What a consumer may ask. -/
inductive Consuming.Request where
  /-- The next message, waiting for it. -/
  | poll
  | commit (m : Message)
  | seek (offset : Nat)
  /-- A rest that a stop cuts short. -/
  | rest (d : Duration)
  | work (w : Work.Request)

/-- What a consumer's look for a message comes to. -/
inductive Consuming.Received where
  /-- The consumer is told to stop. -/
  | stopped
  | message (m : Message)
  | failed (e : ChannelError)
  deriving DecidableEq

/-- The interface of a consumer. -/
def Consuming : Interface where
  Request := Consuming.Request
  Reply
    | .poll => Consuming.Received
    | .commit _ | .seek _ => Except ChannelError Unit
    | .rest _ => Bool
    | .work w => Work.Reply w

/-- A consumer: the fixers of the two directions, how often a repair is tried, and the rest before a
message is taken again. -/
structure Consumer where
  fromSrc : Fixer
  fromDst : Fixer
  retry : Retry := {}
  backoff : Duration := .ofSeconds 1

namespace Consumer

/-- The rest after the channel failed. -/
def pollBackoff : Duration := .ofMillis 200

variable (c : Consumer)

/-- The fixer that copies from the given side. -/
def fixer : Side → Fixer
  | .src => c.fromSrc
  | .dst => c.fromDst

/-- Handles a payload: repairs the row it names in the direction it names. -/
def handle (p : Event.Payload) : Dialogue Work (Retry.Outcome FixOutcome) :=
  match Event.decode p with
  | .error e => .done (.finished (.error e))
  | .ok e => c.retry.work ((c.fixer e.direction).fix e.id)

/-- How a turn of the loop ends. -/
inductive Turn where
  | again (t : FixTally)
  | stopped (t : FixTally)
  /-- The next wait of a repair was no span of time; the consumer is gone. -/
  | crashed

/-- Asks the channel or the clock. -/
def askConsuming (r : Consuming.Request) : Dialogue Consuming (Consuming.Reply r) :=
  .request (I := Consuming) r

/-- Rests, then goes on unless stopped. -/
def restThen (d : Duration) (t : FixTally) : Dialogue Consuming Turn := do
  let rested : Bool ← askConsuming (.rest d)
  if rested then return .again t else return .stopped t

/-- Commits a message and goes on; that a commit fails is of no consequence, since the message will
be delivered again. -/
def commitThen (m : Message) (t : FixTally) : Dialogue Consuming Turn := do
  let _ ← askConsuming (.commit m)
  return .again t

/-- Hands a message back and rests. -/
def handBack (m : Message) (t : FixTally) : Dialogue Consuming Turn := do
  let _ ← askConsuming (.seek m.offset)
  restThen c.backoff t

/-- What becomes of a message that has been handled. -/
def settle (m : Message) (t : FixTally) : Retry.Outcome FixOutcome → Dialogue Consuming Turn
  | .unboundedWait => return .crashed
  | .finished (.ok outcome) => commitThen m (t.fix outcome)
  | .finished (.error e) =>
    if e.isPoison then commitThen m t.skip else c.handBack m t.fail

/-- One turn of the loop. -/
def turn (t : FixTally) : Dialogue Consuming Turn := do
  let received : Consuming.Received ← askConsuming .poll
  match received with
  | .stopped => return .stopped t
  | .failed .closed => return .stopped t
  | .failed _ => restThen pollBackoff t
  | .message m =>
    c.settle m t (← (c.handle m.payload).interpret fun w => askConsuming (.work w))

end Consumer
end Cutover
