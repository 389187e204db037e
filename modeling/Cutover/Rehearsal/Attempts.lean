import Cutover.Retry

/-! # Rehearsed attempts

Repeated attempts at an operation whose outcomes are given in advance, in virtual time: only the
waits between attempts take time, and each ends at a whole millisecond.
-/

namespace Cutover.Rehearsal

/-- What repeated attempts ask. -/
inductive Trial.Request where
  | attempt
  | wait (d : Duration)
  | chance
  deriving DecidableEq

/-- The interface of repeated attempts at something that results in `α`. -/
def Trial (α : Type) : Interface where
  Request := Trial.Request
  Reply
    | .attempt => Except CutoverError α
    | .wait _ => Unit
    | .chance => Nat

namespace Trial

variable {α : Type}

/-- The outcomes still to come, of which the last is repeated for ever, the time, and when the
attempts were made, the last one first. -/
structure State (α : Type) where
  outcome : Except CutoverError α
  later : List (Except CutoverError α)
  now : Nat := 0
  times : List Nat := []

/-- Passes on to the next outcome. -/
def State.next (s : State α) : State α :=
  match s.later with
  | [] => s
  | o :: os => { s with outcome := o, later := os }

/-- Answers a request. -/
def answer : (r : Trial.Request) → State α → (Trial α).Reply r × State α
  | .attempt, s => (s.outcome, { s.next with times := s.now :: s.times })
  | .wait d, s => ((), { s with now := s.now + d.coverMillis })
  | .chance, s => ((0 : Nat), s)

/-- How attempts with the given outcomes end, and when each was made. -/
def attempts (r : Retry) (first : Except CutoverError α) (later : List (Except CutoverError α)) :
    Retry.Outcome α × List Nat :=
  let ask (q : Trial.Request) : Dialogue (Trial α) ((Trial α).Reply q) := .request (I := Trial α) q
  let (o, s) := (r.attempts (fun d => ask (.wait d)) (ask .chance) (ask .attempt)).runWith answer
    ⟨first, later, 0, []⟩
  (o, s.times.reverse)

/-- The waits that a policy foresees between that many attempts, before chance shortens them. -/
def plainGaps (r : Retry) (attempts : Nat) : List (Option Duration) :=
  (List.range (attempts - 1)).map r.delay?

/-- The differences of neighbours. -/
def gaps : List Nat → List Nat
  | a :: b :: r => (b - a) :: gaps (b :: r)
  | _ => []

/-- Whether a gap in milliseconds is within a quarter of a plain wait, give or take a
millisecond. -/
def isClose (gap : Nat) : Option Duration → Bool
  | none => false
  | some d =>
    let scale := 4 * 1000000
    let plain := 4 * d.nanoseconds
    plain ≤ scale * gap + d.nanoseconds + scale && scale * gap ≤ plain + d.nanoseconds + scale

/-- Whether the attempts were made within a quarter of the plain waits. -/
def areClose (r : Retry) (times : List Nat) : Bool :=
  ((gaps times).zip (plainGaps r times.length)).all fun (gap, plain) => isClose gap plain

end Trial
end Cutover.Rehearsal
