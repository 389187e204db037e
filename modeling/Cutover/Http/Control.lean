import Cutover.Http.MediaType
import Cutover.Http.Route
import Cutover.Scheduler
import Cutover.Topic

/-! # The control interface

The operator's requests over HTTP.  Every answer is a JSON object with a code, zero for success,
five for an argument that was refused and minus one for any other failure, and a message.  A request
to start an incremental validation is checked in full before anything is cancelled or started.
-/

namespace Cutover.Http

open Json

/-- A request. -/
structure Request where
  method : String
  target : String
  mediaType : Option String
  body : List UInt8

/-- An answer. -/
structure Response where
  status : Nat
  body : String := ""
  mediaType : Option String := none
  /-- The accepted methods, told when the method was not one of them. -/
  allow : Option String := none
  deriving DecidableEq

/-- What the operator controls. -/
structure Application where
  scheduler : Scheduler
  topic : Topic

/-- The group of the consumer that repairs inconsistencies. -/
def fixerGroup : String := "fixer"

/-- An answer that carries JSON. -/
def Response.json (status : Nat) (body : String) : Response :=
  { status, body, mediaType := some "application/json" }

/-- The members of an answer: a code and a message. -/
def outcomeMembers (code : Int64) (message : String) : String :=
  "\"code\":" ++ Text.ofInt64 code ++ ",\"msg\":" ++ quote message

/-- Success. -/
def Response.ok : Response := .json 200 ("\x7b" ++ outcomeMembers 0 "OK" ++ "\x7d")

/-- An argument was refused. -/
def Response.badRequest (message : String) : Response :=
  .json 400 ("\x7b" ++ outcomeMembers 5 message ++ "\x7d")

/-- Something failed that was not for the request to avoid. -/
def Response.failed (message : String) : Response :=
  .json 500 ("\x7b" ++ outcomeMembers (-1) message ++ "\x7d")

/-- The scheduler refused a command: for its argument, or for something else. -/
def Response.refused : CutoverError → Response
  | e@(.invalidArgument _) => .badRequest e.message
  | e => .failed e.message

/-! ## Starting an incremental validation -/

/-- The members of a request to start an incremental validation, read so far. -/
structure IncrementalDraft where
  utime : Option Int64 := none
  interval : Option Int64 := none

/-- Reads the member of the given name. -/
def IncrementalDraft.member (name : String) (d : IncrementalDraft) : Reader IncrementalDraft := do
  match name with
  | "utime" => return { d with utime := some (← Reader.field d.utime Reader.int64) }
  | "interval" => return { d with interval := some (← Reader.field d.interval Reader.int64) }
  | _ =>
    Reader.memberValue Reader.skipValue
    return d

/-- Both members, once they have been read. -/
def IncrementalDraft.finish (d : IncrementalDraft) : Option (Int64 × Int64) := do
  return (← d.utime, ← d.interval)

/-- The cutoff and the interval in a request's body, both in milliseconds. -/
def incrementalBody (body : List UInt8) : Except Fault (Int64 × Int64) :=
  (Reader.record {} IncrementalDraft.member IncrementalDraft.finish do
    let utime ← Reader.element true Reader.int64
    let interval ← Reader.element false Reader.int64
    return (utime, interval)).runOn body

/-- Why a request to start an incremental validation is refused before it comes to the scheduler. -/
inductive IncrementalFault where
  | mediaType
  | tooLong
  | body (f : Fault)
  | interval (n : Int64)
  | utime (n : Int64)
  deriving DecidableEq

/-- What the operator is told. -/
def IncrementalFault.message : IncrementalFault → String
  | .mediaType => "Expected request with `Content-Type: application/json`"
  | .tooLong => "Failed to buffer the request body: length limit exceeded"
  | .body .malformed => "Failed to parse the request body as JSON: " ++ Fault.malformed.message
  | .body .mismatched =>
    "Failed to deserialize the JSON body into the target type: " ++ Fault.mismatched.message
  | .interval n => "interval은 0보다 커야 함: " ++ Text.ofInt64 n
  | .utime n => "utime은 음수일 수 없음: " ++ Text.ofInt64 n

/-- The greatest length of a request's body, in bytes. -/
def bodyLimit : Nat := 2 * 1024 * 1024

/-- The cutoff and the interval of a request. -/
def incrementalArguments (r : Request) : Except IncrementalFault (Int64 × Duration) := do
  if !(r.mediaType.any MediaType.isJson) then throw .mediaType
  if bodyLimit < r.body.length then throw .tooLong
  match incrementalBody r.body with
  | .error f => throw (.body f)
  | .ok (utime, interval) =>
    if interval ≤ 0 then throw (.interval interval)
    else if utime < 0 then throw (.utime utime)
    else return (utime, .ofMillis interval.toInt.toNat)

/-- Starts an incremental validation, or tells why not. -/
def startIncremental (s : Scheduler) (r : Request) : Except Response Scheduler :=
  match incrementalArguments r with
  | .error f => .error (.badRequest f.message)
  | .ok (utime, interval) =>
    match s.startIncremental utime interval with
    | .ok s => .ok s
    | .error e => .error (.refused e)

/-! ## Answers -/

private def truth (b : Bool) : String := if b then "true" else "false"

/-- The members of the scheduler's status. -/
def statusMembers (s : Status) : String :=
  "\"phase\":" ++ quote s.phase.name ++ ",\"full_running\":" ++ truth s.fullRunning ++
    ",\"incremental_running\":" ++ truth s.incrementalRunning

/-- The status, the number of events not yet repaired, and the given time of day. -/
def statusBody (a : Application) (time : String) : String :=
  "\x7b" ++ outcomeMembers 0 "OK" ++ ",\"data\":\x7b" ++ statusMembers a.scheduler.status ++
    ",\"pending_events\":" ++ Text.ofNat (a.topic.lag fixerGroup) ++ ",\"server_time\":" ++
    quote time ++ "\x7d\x7d"

/-- Does what a route stands for. -/
def Application.perform (a : Application) (time : String) (r : Request) :
    Route → Response × Scheduler
  | .health => (.json 200 "\x7b\"status\":\"ok\"\x7d", a.scheduler)
  | .status => (.json 200 (statusBody a time), a.scheduler)
  | .switch p => (.ok, a.scheduler.switchPhase p)
  | .fullStart => (.ok, a.scheduler.startFull)
  | .fullStop => (.ok, a.scheduler.stop .full)
  | .incrementalStop => (.ok, a.scheduler.stop .incremental)
  | .incrementalStart =>
    match startIncremental a.scheduler r with
    | .ok s => (.ok, s)
    | .error response => (response, a.scheduler)

/-- Answers a request.  An answer to `HEAD` leaves out the body. -/
def Application.respond (a : Application) (time : String) (r : Request) : Response × Scheduler :=
  match Route.ofTarget? r.target with
  | none => ({ status := 404 }, a.scheduler)
  | some route =>
    if route.methods.contains r.method then
      let (response, s) := a.perform time r route
      (if r.method = "HEAD" then { response with body := "" } else response, s)
    else ({ status := 405, allow := some (",".intercalate route.methods) }, a.scheduler)

end Cutover.Http
