import Cutover.Phase

/-! # Routes

The paths under which the operator reaches the cutover, and the methods each accepts.  A path is
compared as it is written, without its query and fragment.
-/

namespace Cutover.Http

/-- What a path stands for. -/
inductive Route where
  | health
  | status
  | switch (p : Phase)
  | fullStart
  | fullStop
  | incrementalStart
  | incrementalStop
  deriving DecidableEq, Repr

namespace Route

/-- The path of a route. -/
def path : Route → String
  | .health => "/health"
  | .status => "/api/v1/migrator/status"
  | .switch .srcOnly => "/api/v1/migrator/src-only"
  | .switch .srcFirst => "/api/v1/migrator/src-first"
  | .switch .dstFirst => "/api/v1/migrator/dst-first"
  | .switch .dstOnly => "/api/v1/migrator/dst-only"
  | .fullStart => "/api/v1/migrator/full/start"
  | .fullStop => "/api/v1/migrator/full/stop"
  | .incrementalStart => "/api/v1/migrator/incr/start"
  | .incrementalStop => "/api/v1/migrator/incr/stop"

/-- All routes. -/
def all : List Route :=
  [.health, .status, .fullStart, .fullStop, .incrementalStart, .incrementalStop] ++
    Phase.all.map .switch

/-- The route of a request's target, its query and fragment left out. -/
def ofTarget? (target : String) : Option Route :=
  let path := String.ofList (target.toList.takeWhile fun c => c ≠ '?' && c ≠ '#')
  all.find? fun r => r.path == path

/-- Whether a route only shows something. -/
def isReading : Route → Bool
  | .health | .status => true
  | _ => false

/-- The methods a route accepts. -/
def methods (r : Route) : List String := if r.isReading then ["GET", "HEAD"] else ["POST"]

end Route
end Cutover.Http
