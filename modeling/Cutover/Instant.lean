import Cutover.Text.Blank

/-! # Instants

A moment of time, given in seconds since 1970 and a fraction, and its reading from a date, a time of
day and an offset from universal time:

    2024-01-01T09:00:00.5+09:00

The reading is generous about blanks, which may stand in front of every number and punctuation mark,
about the letter between date and time, and about the offset, whose colon may be left out.  It is
strict about ranges: there is no thirtieth of February and no hour 24, though a minute may have a
second 60, which is counted with the second before it.
-/

namespace Cutover

/-- A moment of time.  The fraction is counted in nanoseconds and reaches into the next second when
a minute has a second 60. -/
structure Instant where
  seconds : Int
  nanos : Nat
  deriving DecidableEq, Repr

namespace Instant

/-- The milliseconds since 1970, rounded down. -/
def toMillis (t : Instant) : Int := t.seconds * 1000 + t.nanos / 1000000

/-! ## The calendar -/

/-- Whether a year has a 29th of February. -/
def isLeap (year : Int) : Bool := year % 4 == 0 && (year % 100 != 0 || year % 400 == 0)

/-- The lengths of the months. -/
def monthLengths (year : Int) : List Nat :=
  [31, if isLeap year then 29 else 28, 31, 30, 31, 30, 31, 31, 30, 31, 30, 31]

/-- The days from the first of January of the year one to that of another year. -/
def daysBeforeYear (year : Int) : Int :=
  let y := year - 1
  365 * y + y / 4 - y / 100 + y / 400

/-- The days from 1970 to a date, months and days counted from one. -/
def daysOfDate (year : Int) (month day : Nat) : Int :=
  let before : Nat := ((monthLengths year).take (month - 1)).foldl (· + ·) 0
  daysBeforeYear year - daysBeforeYear 1970 + before + (day - 1)

/-- Whether there is such a date, among the years that are supported. -/
def isDate (year : Int) (month day : Nat) : Bool :=
  -262143 ≤ year && year ≤ 262142 && 1 ≤ month && 1 ≤ day &&
    ((monthLengths year)[month - 1]?).any (day ≤ ·)

/-- The first and the last day that are supported, counted from 1970. -/
def isSupportedDay (day : Int) : Bool :=
  daysOfDate (-262143) 1 1 ≤ day && day ≤ daysOfDate 262142 12 31

/-! ## Reading -/

/-- A reader of the front of a text. -/
abbrev Scan := StateT (List Char) Option

/-- The number in one or more digits at the front, at most `width` of them if a width is given. -/
def digits (width : Option Nat) : Scan Nat := fun s =>
  let run := (match width with | none => s | some w => s.take w).takeWhile Char.isDigit
  if run.isEmpty then none
  else some (run.foldl (fun n c => 10 * n + (c.toNat - '0'.toNat)) 0, s.drop run.length)

/-- Drops blanks at the front. -/
def blanks : Scan Unit := fun s => some ((), Text.trimStart s)

/-- Drops a character that must stand at the front. -/
def literal (c : Char) : Scan Unit := fun s =>
  match s with
  | [] => none
  | d :: r => if d = c then some ((), r) else none

/-- Two digits that may follow blanks and must not exceed `bound`. -/
def twoDigits (bound : Nat) : Scan Nat := do
  blanks
  let n ← digits (some 2)
  guard (n ≤ bound)
  return n

/-- A mark that may follow blanks. -/
def mark (c : Char) : Scan Unit := do
  blanks
  literal c

/-- A year: four digits at most, or a sign and any number of them. -/
def year : Scan Int := do
  blanks
  match (← get).head? with
  | some '-' => literal '-'; return -(← digits none : Nat)
  | some '+' => literal '+'; return (← digits none : Nat)
  | _ => return (← digits (some 4) : Nat)

/-- A date, as days from 1970. -/
def date : Scan Int := do
  let y ← year
  mark '-'
  let m ← twoDigits 12
  mark '-'
  let d ← twoDigits 31
  guard (isDate y m d)
  return daysOfDate y m d

/-- The character between date and time. -/
def dateEnd : Scan Unit := fun s =>
  match s with
  | 't' :: r | 'T' :: r | ' ' :: r => some ((), r)
  | _ => none

/-- A fraction of a second, if there is one, in nanoseconds; digits past the ninth are dropped. -/
def fraction : Scan Nat := fun s =>
  match s with
  | '.' :: r =>
    let run := r.takeWhile Char.isDigit
    if run.isEmpty then none
    else
      let kept := run.take 9
      let value := kept.foldl (fun n c => 10 * n + (c.toNat - '0'.toNat)) 0
      some (value * Nat.pow 10 (9 - kept.length), r.drop run.length)
  | _ => some (0, s)

/-- A time of day: its whole seconds and its nanoseconds. -/
def timeOfDay : Scan (Nat × Nat) := do
  let hour ← twoDigits 23
  mark ':'
  let minute ← twoDigits 59
  mark ':'
  let second ← twoDigits 60
  let nanos ← fraction
  let shown := 3600 * hour + 60 * minute
  return if second = 60 then (shown + 59, 1000000000 + nanos) else (shown + second, nanos)

/-- Exactly two digits. -/
def pair : Scan Nat := fun s =>
  match s with
  | a :: b :: r =>
    if a.isDigit && b.isDigit then
      some (10 * (a.toNat - '0'.toNat) + (b.toNat - '0'.toNat), r)
    else none
  | _ => none

/-- The sign of an offset. -/
def offsetSign : Scan Int := fun s =>
  match s with
  | '+' :: r => some (1, r)
  | '-' :: r | '\u2212' :: r => some (-1, r)
  | _ => none

/-- An offset in hours and minutes, in seconds; colons and blanks may separate the two. -/
def numericOffset : Scan Int := do
  let sign ← offsetSign
  let hours ← pair
  modify (·.dropWhile fun c => c = ':' || Text.isBlank c)
  let minutes ← pair
  guard (minutes ≤ 59)
  let seconds := 3600 * hours + 60 * minutes
  guard (seconds < 86400)
  return sign * seconds

/-- An offset from universal time, in seconds. -/
def offset : Scan Int := do
  let s ← get
  if (s.take 3).map Char.toUpper = ['U', 'T', 'C'] then
    set (s.drop 3)
    return 0
  else
    match s with
    | 'Z' :: r | 'z' :: r =>
      set r
      return 0
    | _ => numericOffset

/-- A whole moment. -/
def scan : Scan Instant := do
  let days ← date
  dateEnd
  let (seconds, nanos) ← timeOfDay
  blanks
  let shift ← offset
  blanks
  let moment := 86400 * days + seconds - shift
  guard (isSupportedDay (moment / 86400))
  return ⟨moment, nanos⟩

/-- The moment a text spells. -/
def ofText? (s : String) : Option Instant :=
  match scan.run s.toList with
  | some (t, []) => some t
  | _ => none

example : (ofText? "1970-01-01T00:00:00Z").map toMillis = some 0 := by decide +kernel
example : (ofText? "2024-02-29t23:59:60.5+09:00").map toMillis = some 1709218800500 := by
  decide +kernel
example : (ofText? "1969-12-31 23:59:59.0019utc").map toMillis = some (-999) := by decide +kernel
example : ofText? "2023-02-29T00:00:00Z" = none := by decide +kernel

end Instant
end Cutover
