import Cutover.Event.Codec

/-! # The topic

An ordered log of payloads.  A payload keeps the place at which it was published.  Consumers read in
groups: a group remembers which places it has committed, and what counts is the least place it has
not — everything in front of it is done, whatever order the commits came in.
-/

namespace Cutover

open Event (Payload)

/-- What a group has committed: everything in front of `done`, and some places behind it. -/
structure Group where
  committed : Nat := 0
  ahead : List Nat := []
  deriving DecidableEq

namespace Group

/-- Moves the front over the places committed ahead, at most `fuel` of them. -/
def advance : Nat → Group → Group
  | 0, g => g
  | fuel + 1, g =>
    if g.ahead.contains g.committed then
      advance fuel ⟨g.committed + 1, g.ahead.filter (· ≠ g.committed)⟩
    else g

/-- Commits a place.  One in front of the front has been committed before. -/
def commit (g : Group) (offset : Nat) : Group :=
  if offset < g.committed then g
  else
    let ahead := if g.ahead.contains offset then g.ahead else offset :: g.ahead
    advance ahead.length ⟨g.committed, ahead⟩

end Group

/-- A message: a payload and the place at which it was published. -/
structure Message where
  offset : Nat
  payload : Payload
  deriving DecidableEq

/-- A log with its groups. -/
structure Topic where
  name : String
  log : Array Payload := #[]
  groups : List (String × Group) := []
  closed : Bool := false
  deriving DecidableEq

namespace Topic

/-- The number of payloads. -/
def size (t : Topic) : Nat := t.log.size

/-- What a group has committed; nothing if it is not known. -/
def group (t : Topic) (name : String) : Group := (t.groups.lookup name).getD {}

/-- The least place a group has not committed. -/
def committed (t : Topic) (group : String) : Nat := (t.group group).committed

/-- The number of payloads from there on. -/
def lag (t : Topic) (group : String) : Nat := t.size - t.committed group

/-- Publishes a payload; its place comes first. -/
def publish (t : Topic) (p : Payload) : Except ChannelError (Nat × Topic) :=
  if t.closed then .error .closed else .ok (t.size, { t with log := t.log.push p })

/-- Publishes an event. -/
def produce (t : Topic) (e : Event) : Except ChannelError Topic :=
  (t.publish e.toPayload).map (·.2)

/-- Accepts nothing more. -/
def close (t : Topic) : Topic := { t with closed := true }

/-- Replaces what a group has committed. -/
def setGroup (name : String) (g : Group) : List (String × Group) → List (String × Group)
  | [] => [(name, g)]
  | (n, h) :: r => if n == name then (n, g) :: r else (n, h) :: setGroup name g r

/-- Commits a place in a group. -/
def commit (t : Topic) (group : String) (offset : Nat) : Topic :=
  { t with groups := setGroup group ((t.group group).commit offset) t.groups }

/-- The events that were published; one payload that is no event spoils them all. -/
def events (t : Topic) : Except ChannelError (List Event) :=
  t.log.toList.mapM fun p =>
    match Event.ofPayload p with
    | .ok e => .ok e
    | .error f => .error (.serialization f)

/-- The events from a place on. -/
def eventsFrom (t : Topic) (start : Nat) : Except ChannelError (List Event) :=
  t.events.map (·.drop start)

end Topic

/-- A consumer of a group, at the place it reads next. -/
structure Subscriber where
  group : String
  position : Nat
  deriving DecidableEq

/-- What a consumer finds when it looks. -/
inductive Polled where
  | message (m : Message)
  | closed
  /-- Nothing yet. -/
  | waiting
  deriving DecidableEq

namespace Subscriber

/-- Joins a group at the least place that it has not committed. -/
def join (t : Topic) (group : String) : Subscriber := ⟨group, t.committed group⟩

/-- Looks for the next message and moves on if there is one. -/
def poll (s : Subscriber) (t : Topic) : Polled × Subscriber :=
  match t.log[s.position]? with
  | some p => (.message ⟨s.position, p⟩, { s with position := s.position + 1 })
  | none => (if t.closed then .closed else .waiting, s)

/-- Moves to a place. -/
def seek (s : Subscriber) (offset : Nat) : Subscriber := { s with position := offset }

end Subscriber
end Cutover
