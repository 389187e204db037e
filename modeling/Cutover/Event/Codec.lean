import Cutover.Error
import Cutover.Event
import Cutover.Json.Record

/-! # Events on the wire

An event is sent as a JSON object with the members `id`, `type` and `direction`, in this order.  Two
readers exist.  The strict one accepts a direction only under its name; the lenient one, used by the
consumer, takes any string there and reads it as an operator's word, so that a well-formed event
with a direction nobody knows is told apart from bytes that are no event.  Both share everything but
the reader of the direction.
-/

namespace Cutover.Event

open Json

/-- The bytes that carry a payload. -/
abbrev Payload := List UInt8

/-- The text of an event on the wire. -/
def toJson (e : Event) : String :=
  "\x7b\"id\":" ++ Text.ofInt64 e.id ++ ",\"type\":\"" ++ e.kind.name ++
    "\",\"direction\":\"" ++ e.direction.name ++ "\"\x7d"

/-- The bytes of an event on the wire. -/
def toPayload (e : Event) : Payload := e.toJson.toUTF8.toList

/-- The members of an event read so far, its direction of type `δ`. -/
structure Draft (δ : Type) where
  id : Option Int64 := none
  kind : Option EventKind := none
  direction : Option δ := none

/-- The three members, once all have been read. -/
def Draft.finish {δ : Type} (d : Draft δ) : Option (Int64 × EventKind × δ) := do
  return (← d.id, ← d.kind, ← d.direction)

/-- Reads the member of the given name. -/
def Draft.member {δ : Type} (direction : Reader δ) (name : String) (d : Draft δ) :
    Reader (Draft δ) := do
  match name with
  | "id" => return { d with id := some (← Reader.field d.id Reader.int64) }
  | "type" =>
    return { d with kind := some (← Reader.field d.kind (Reader.variant EventKind.ofName?)) }
  | "direction" => return { d with direction := some (← Reader.field d.direction direction) }
  | _ =>
    Reader.memberValue Reader.skipValue
    return d

/-- Reads an event whose direction is read by `direction`. -/
def wire {δ : Type} (direction : Reader δ) : Reader (Int64 × EventKind × δ) :=
  Reader.record {} (Draft.member direction) Draft.finish do
    let id ← Reader.element true Reader.int64
    let kind ← Reader.element false (Reader.variant EventKind.ofName?)
    let direction ← Reader.element false direction
    return (id, kind, direction)

/-- The side of exactly this name. -/
def sideOfName? (s : String) : Option Side :=
  if s = "SRC" then some .src else if s = "DST" then some .dst else none

/-- Reads a payload strictly: the direction is one of the two names. -/
def ofPayload (p : Payload) : Except Fault Event := do
  let (id, kind, direction) ← (wire (Reader.variant sideOfName?)).runOn p
  return ⟨id, kind, direction⟩

/-- Reads a payload leniently: the direction is any string, read as an operator's word. -/
def decode (p : Payload) : Except CutoverError Event :=
  match (wire Reader.string).runOn p with
  | .error f => .error (.decode f)
  | .ok (id, kind, text) =>
    match Side.ofText text with
    | .error _ => .error (.unknownDirection text)
    | .ok direction => .ok ⟨id, kind, direction⟩

end Cutover.Event
