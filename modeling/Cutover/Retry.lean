import Cutover.Error
import Cutover.Store

/-! # Repeated attempts

An operation that failed for want of a connection is tried again after a wait.  Waits grow
geometrically up to a cap; the growth is computed with doubles, so a wait that no span of time can
express may come up before the cap applies, and then there is no next attempt at all.
-/

namespace Cutover

/-- How often and after which waits an operation is repeated. -/
structure Retry where
  /-- The attempts after the first one. -/
  maxRetries : Nat := 3
  base : Duration := .ofMillis 200
  cap : Duration := .ofSeconds 10
  multiplier : Binary64 := Binary64.ofNat 2
  /-- Whether waits are shortened by chance. -/
  jitter : Bool := true
  deriving DecidableEq

namespace Retry

/-- One attempt and no more. -/
def never : Retry := { maxRetries := 0 }

/-- The exponent of an attempt: its number, as a signed word of 32 bits. -/
def exponent (attempt : Nat) : Int := Int.bmod attempt UInt32.size

/-- The wait after an attempt, counted from zero: the base times a power of the multiplier, in
seconds, and at most the cap; `none` if the product is no span of time. -/
def delay? (r : Retry) (attempt : Nat) : Option Duration :=
  (Duration.ofSeconds? (r.base.seconds * r.multiplier.pow (exponent attempt))).map
    (Duration.shorter r.cap)

/-- A wait shortened by chance, in whole milliseconds.  It becomes three quarters of itself and a
half of a fraction more, the fraction being `chance`, a number of nanoseconds below a second, of the
largest word of 32 bits; as this fraction is less than a quarter, the wait only ever becomes
shorter.  The fractions are exact ones and stand for doubles. -/
def jittered (d : Duration) (chance : Nat) : Duration :=
  let full := UInt32.size - 1
  .ofMillis (d.toMillis * (3 * full + 2 * chance) / (4 * full))

/-- How a repeated operation ends: with the outcome of its last attempt, or because the next wait is
no span of time. -/
inductive Outcome (α : Type) where
  | finished (result : Except CutoverError α)
  | unboundedWait

section
variable {I : Interface} {α : Type} (r : Retry) (wait : Duration → Dialogue I Unit)
  (chance : Dialogue I Nat) (operation : Dialogue I (Except CutoverError α))

/-- The wait that is made, chance included. -/
def actualDelay (d : Duration) : Dialogue I Duration :=
  if r.jitter then do return jittered d (← chance) else return d

/-- Attempts from a number on, with `left` more allowed after it. -/
def attemptsFrom : (left attempt : Nat) → Dialogue I (Outcome α)
  | left, attempt => do
    match ← operation with
    | .ok a => return .finished (.ok a)
    | .error e =>
      if !e.isRetryable then return .finished (.error e)
      else match left with
        | 0 => return .finished (.error e)
        | left + 1 =>
          match r.delay? attempt with
          | none => return .unboundedWait
          | some d =>
            wait (← r.actualDelay chance d)
            attemptsFrom left (attempt + 1)

/-- Repeats an operation until it succeeds, fails for good, or has been tried often enough. -/
def attempts : Dialogue I (Outcome α) := attemptsFrom r wait chance operation r.maxRetries 0

end

/-- Repeats work on the stores. -/
def work {α : Type} (r : Retry) (operation : Dialogue Work (Except CutoverError α)) :
    Dialogue Work (Outcome α) :=
  r.attempts pause (.request (I := Work) .chance) operation

end Retry
end Cutover
