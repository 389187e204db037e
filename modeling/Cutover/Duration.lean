import Cutover.Binary64

/-! # Durations

A span of time in whole nanoseconds.
-/

namespace Cutover

/-- A span of time. -/
structure Duration where
  nanoseconds : Nat
  deriving DecidableEq, Inhabited

namespace Duration

def ofMillis (n : Nat) : Duration := ⟨n * 1000000⟩
def ofMicros (n : Nat) : Duration := ⟨n * 1000⟩
def ofSeconds (n : Nat) : Duration := ⟨n * 1000000000⟩

/-- The whole milliseconds in a span. -/
def toMillis (d : Duration) : Nat := d.nanoseconds / 1000000

/-- The least number of whole milliseconds that covers a span. -/
def coverMillis (d : Duration) : Nat := (d.nanoseconds + 999999) / 1000000

/-- The empty span. -/
def isZero (d : Duration) : Bool := d.nanoseconds == 0

/-- The shorter of two spans. -/
def shorter (a b : Duration) : Duration := ⟨min a.nanoseconds b.nanoseconds⟩

/-- The double nearest to the seconds of a span: whole seconds and their fraction are rounded apart
and added. -/
def seconds (d : Duration) : Binary64 :=
  Binary64.ofNat (d.nanoseconds / 1000000000) +
    Binary64.ofNat (d.nanoseconds % 1000000000) / Binary64.ofNat 1000000000

/-- The span of a number of seconds, rounded to whole nanoseconds, a half going to the even one.  A
negative number, one that is not finite and one from `2 ^ 64` on are no spans. -/
def ofSeconds? (x : Binary64) : Option Duration :=
  if !x.isFinite || (x.isNegative && !x.isZero) then none
  else if UInt64.size <<< (-x.exponent).toNat ≤ x.mantissa <<< x.exponent.toNat then none
  else some ⟨Binary64.roundHalfEven ((x.mantissa * 1000000000) <<< x.exponent.toNat)
    (1 <<< (-x.exponent).toNat)⟩

end Duration
end Cutover
