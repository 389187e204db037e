import Cutover.Rehearsal.World

/-! # The passing of time

The script and the jobs beside it share one thread.  The script goes first; when it has to wait, the
jobs whose turn it is go on, one after the other, each as far as it can; and only when nothing can
go on does the clock move, to the next moment at which something is over.

A job may go round its loop as often as there is something to do, so the functions here count their
turns down from a given number.  A rehearsal that needs more turns than that is stuck.
-/

namespace Cutover.Rehearsal

/-! ## Jobs -/

namespace Leg

/-- Whether a scan can go on. -/
def isReady (w : World) : Leg → Bool
  | .running s => s.isReady w
  | .ended _ => false

/-- When the time is over that a scan waits for. -/
def due? : Leg → Option Nat
  | .running s => s.due
  | .ended _ => none

/-- The number of a scan's strand. -/
def serial : Leg → Nat
  | .running s => s.serial
  | .ended _ => 0

/-- Goes on with a scan, pass after pass. -/
def advance (pass : Progress → Dialogue Stage Verdict) :
    (turns : Nat) → Leg → World → Except StoreError Leg × World
  | _, .ended t, w => (.ok (.ended t), w)
  | 0, .running s, w => (.ok (.running s), w)
  | turns + 1, .running s, w =>
    let (s, w) := s.advance w
    match s.rest with
    | .done (.again p) => advance pass turns (.running (.fresh (pass p))) w
    | .done (.finished t) => (.ok (.ended t), w)
    | .done (.failed e) => (.error e, w)
    | .ask .. => (.ok (.running s), w)

end Leg

/-- How a look at a job ends. -/
inductive Look (J R : Type) where
  | waiting (j : J)
  | ended (r : R)

namespace Validation

variable (v : Validation)

/-- A validation before its first look. -/
def start (plan : Plan) (producer : Producer) (token : Token) : Validation where
  plan
  producer
  token
  forward := .running (.fresh (Stage.pass plan producer token .forward {}))
  backward := .running (.fresh (Stage.pass plan producer token .backward {}))

/-- The scan of one way. -/
def leg : Way → Leg
  | .forward => v.forward
  | .backward => v.backward

/-- Replaces the scan of one way. -/
def setLeg (l : Leg) : Way → Validation
  | .forward => { v with forward := l }
  | .backward => { v with backward := l }

/-- Goes on with the scan of one way. -/
def advanceLeg (turns : Nat) (way : Way) (w : World) : Except StoreError Validation × World :=
  let (leg, w) := (v.leg way).advance (Stage.pass v.plan v.producer v.token way) turns w
  (leg.map (v.setLeg · way), w)

/-- The other way. -/
def otherWay : Way → Way
  | .forward => .backward
  | .backward => .forward

/-- Goes on with both scans.  Which of them is first alternates; the first failure ends both. -/
def advance (turns : Nat) (w : World) : Look Validation (Except CutoverError Tally) × World :=
  match v.advanceLeg turns v.first w with
  | (.error e, w) => (.ended (.error (.store e)), w)
  | (.ok u, w) =>
    match u.advanceLeg turns (otherWay v.first) w with
    | (.error e, w) => (.ended (.error (.store e)), w)
    | (.ok u, w) =>
      match u.forward, u.backward with
      | .ended f, .ended b => (.ended (.ok (f + b)), w)
      | _, _ => (.waiting { u with first := otherWay v.first }, w)

/-- Whether a validation can go on. -/
def isReady (w : World) : Bool := v.forward.isReady w || v.backward.isReady w

/-- The times a validation waits for. -/
def dues : List Nat := v.forward.due?.toList ++ v.backward.due?.toList

end Validation

namespace Consumption

/-- Goes on with a consumer, turn after turn. -/
def advance : (turns : Nat) → Consumption → World → Look Consumption Ending × World
  | 0, c, w => (.waiting c, w)
  | turns + 1, c, w =>
    let (s, w) := c.strand.advance w
    match s.rest with
    | .done (.again t) =>
      advance turns { c with strand := .fresh (Stage.turn c.consumer c.channel c.token t) } w
    | .done (.stopped t) => (.ended (.consumed t), w)
    | .done .crashed => (.ended .crashed, w)
    | .ask .. => (.waiting { c with strand := s }, w)

end Consumption

namespace Job

/-- Goes on with a job. -/
def advance (turns : Nat) (w : World) : Job → Look Job Ending × World
  | .validation v =>
    match v.advance turns w with
    | (.waiting v, w) => (.waiting (.validation v), w)
    | (.ended r, w) => (.ended (.validated r), w)
  | .consumption c =>
    match c.advance turns w with
    | (.waiting c, w) => (.waiting (.consumption c), w)
    | (.ended r, w) => (.ended r, w)
  | .polling s =>
    let (s, w) := s.advance w
    match s.rest with
    | .done r => (.ended (.polled r), w)
    | .ask .. => (.waiting (.polling s), w)

/-- Whether a job can go on. -/
def isReady (w : World) : Job → Bool
  | .validation v => v.isReady w
  | .consumption c => c.strand.isReady w
  | .polling s => s.isReady w

/-- The times a job waits for. -/
def dues : Job → List Nat
  | .validation v => v.dues
  | .consumption c => c.strand.due.toList
  | .polling s => s.due.toList

/-- The number of a job's strand. -/
def serial : Job → Nat
  | .validation v => min v.forward.serial v.backward.serial
  | .consumption c => c.strand.serial
  | .polling s => s.serial

end Job

/-! ## Turns -/

namespace World

variable (w : World)

/-- Starts a job. -/
def spawn (job : Job) (run : Option Nat) : Nat × World :=
  (w.tasks.size,
    { w with tasks := w.tasks.push { job, run }, queue := w.queue ++ [w.tasks.size] })

/-- Whether a task is to be queued. -/
def wakes (t : Task) : Bool := t.ending.isNone && !t.queued && t.job.isReady w

/-- Queues the tasks that can go on. -/
def wake : World :=
  let woken := (w.tasks.toList.zipIdx.filter fun (t, _) => w.wakes t).mergeSort
    fun (t, _) (u, _) => t.job.serial ≤ u.job.serial
  { w with
    tasks := woken.foldl (fun ts (_, n) => ts.modify n fun t => { t with queued := true }) w.tasks
    queue := w.queue ++ woken.map (·.2) }

/-- Gives a task its turn. -/
def turn (turns n : Nat) : World :=
  match w.tasks[n]? with
  | none => w
  | some t =>
    match t.job.advance turns w with
    | (.waiting job, w) =>
      { w with tasks := w.tasks.modify n fun t => { t with job, queued := false } }
    | (.ended e, w) =>
      let w := { w with
        tasks := w.tasks.modify n fun t => { t with queued := false, ending := some e } }
      match t.run with
      | none => w
      | some run => { w with scheduler := w.scheduler.finish run }

/-- Gives every task in the queue its turn, and those that are woken by it. -/
def drain : (turns : Nat) → World → World
  | 0, w => w
  | turns + 1, w =>
    match w.queue with
    | [] => w
    | n :: queue => drain turns (({ w with queue }.turn turns n).wake)

/-- The times that tasks wait for. -/
def dues : List Nat :=
  w.tasks.toList.flatMap fun t => if t.ending.isNone then t.job.dues else []

/-- Moves the clock to the first of the given times; the second component tells whether there was
one. -/
def moveOn (dues : List Nat) : World × Bool :=
  match dues.min? with
  | none => (w, false)
  | some t => ({ w with now := max w.now t }.wake, true)

/-- Lets the world go on until something holds that the script waits for up to one of the given
times. -/
def await (ready : World → Bool) (dues : List Nat) : (turns : Nat) → World → World
  | 0, w => w
  | turns + 1, w =>
    let w := w.drain turns
    if ready w then w
    else
      match w.moveOn (dues ++ w.dues) with
      | (w, false) => w
      | (w, true) => if ready w then w else await ready dues turns w

/-- Carries on a conversation to its end, which is not reached within the given number of turns only
if there is none. -/
def carryOn {α : Type} : (turns : Nat) → Strand α → World → Option α × World
  | 0, _, w => (none, w)
  | turns + 1, s, w =>
    let (s, w) := s.advance w
    let w := w.wake
    match s.rest with
    | .done a => (some a, w)
    | .ask .. => carryOn turns s (w.await s.isReady s.due.toList turns)

/-- Carries on a validation to its end. -/
def carryOut : (turns : Nat) → Validation → World → Option (Except CutoverError Tally) × World
  | 0, _, w => (none, w)
  | turns + 1, v, w =>
    match v.advance turns w with
    | (.ended r, w) => (some r, w.wake)
    | (.waiting v, w) => carryOut turns v (w.wake.await v.isReady v.dues turns)

end World
end Cutover.Rehearsal
