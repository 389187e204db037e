import Cutover.Text.Numeral

/-! # Socket addresses

An address to listen on, in numbers: an IPv4 address of four decimal parts, or an IPv6 address in
brackets, and a port behind a colon.  Reading consumes the text from the front; each reader returns
what is left.  Of the many ways to write an IPv6 address, writing picks the one with lower-case
digits in which the longest run of zero groups is left out.
-/

namespace Cutover.Net

/-- An IPv4 address, by its four bytes. -/
structure Ipv4 where
  a : Nat
  b : Nat
  c : Nat
  d : Nat
  deriving DecidableEq, Repr

/-- An address and a port.  An IPv6 address is given by its eight groups of 16 bits and the number
of its zone, zero for none. -/
inductive SocketAddress where
  | v4 (ip : Ipv4) (port : Nat)
  | v6 (groups : List Nat) (scope port : Nat)
  deriving DecidableEq, Repr

/-- The only thing to say about a text that is no address. -/
inductive AddressFault where
  | badSyntax
  deriving DecidableEq, Repr

/-- What the operator is told. -/
def AddressFault.message : AddressFault → String
  | .badSyntax => "invalid socket address syntax"

/-! ## Reading -/

/-- The value of a digit of a base up to sixteen. -/
def digitOf? (base : Nat) (c : Char) : Option Nat :=
  let n :=
    if c.isDigit then c.toNat - '0'.toNat
    else if 'a' ≤ c ∧ c ≤ 'f' then c.toNat - 'a'.toNat + 10
    else if 'A' ≤ c ∧ c ≤ 'F' then c.toNat - 'A'.toNat + 10
    else base
  if n < base then some n else none

/-- The digits at the front. -/
def leadingDigits (base : Nat) (s : List Char) : List Char :=
  s.takeWhile fun c => (digitOf? base c).isSome

/-- A number below `bound` in the digits at the front, of which there is at least one and, if a
limit is given, no more than that; `leadingZero` tells whether it may start with a zero and go
on. -/
def number (base bound : Nat) (digits : Option Nat) (leadingZero : Bool) (s : List Char) :
    Option (Nat × List Char) :=
  let run := leadingDigits base s
  let value := run.foldl (fun n c => base * n + (digitOf? base c).getD 0) 0
  if run.isEmpty || digits.any (· < run.length) || bound ≤ value ||
      (!leadingZero && 1 < run.length && run.head? == some '0') then none
  else some (value, s.drop run.length)

/-- Drops a character that must stand at the front. -/
def expect (c : Char) : List Char → Option (List Char)
  | [] => none
  | d :: r => if d = c then some r else none

/-- One of the four parts of an IPv4 address. -/
def octet (s : List Char) : Option (Nat × List Char) := number 10 256 (some 3) false s

/-- An IPv4 address. -/
def ipv4 (s : List Char) : Option (Ipv4 × List Char) := do
  let (a, s) ← octet s
  let (b, s) ← octet (← expect '.' s)
  let (c, s) ← octet (← expect '.' s)
  let (d, s) ← octet (← expect '.' s)
  return (⟨a, b, c, d⟩, s)

/-- The groups an IPv4 address makes at the end of an IPv6 address. -/
def Ipv4.groups (ip : Ipv4) : List Nat := [256 * ip.a + ip.b, 256 * ip.c + ip.d]

/-- A colon before every group but the first. -/
def separator (first : Bool) (s : List Char) : Option (List Char) :=
  if first then some s else expect ':' s

/-- Up to `room` groups with colons between them, the last two of which may be written as an IPv4
address; the second component tells that they were. -/
def groupsFrom : (room : Nat) → (first : Bool) → List Char → List Nat × Bool × List Char
  | 0, _, s => ([], false, s)
  | room + 1, first, s =>
    match if room = 0 then none else separator first s >>= ipv4 with
    | some (ip, r) => (ip.groups, true, r)
    | none =>
      match separator first s >>= number 16 65536 (some 4) true with
      | none => ([], false, s)
      | some (g, r) =>
        let (gs, ended, r) := groupsFrom room false r
        (g :: gs, ended, r)

/-- An IPv6 address: eight groups, or fewer with a double colon for at least one group of zero. -/
def ipv6 (s : List Char) : Option (List Nat × List Char) :=
  let (front, ended, r) := groupsFrom 8 true s
  if front.length = 8 then some (front, r)
  else if ended then none
  else do
    let r ← expect ':' (← expect ':' r)
    let (back, _, r) := groupsFrom (7 - front.length) true r
    return (front ++ List.replicate (8 - front.length - back.length) 0 ++ back, r)

/-- The number of a zone, if there is one. -/
def scope (s : List Char) : Option (Nat × List Char) :=
  match s with
  | '%' :: r => number 10 UInt32.size none true r
  | _ => some (0, s)

/-- A port behind its colon. -/
def port (s : List Char) : Option (Nat × List Char) := do
  number 10 UInt16.size none true (← expect ':' s)

/-- An IPv4 address with a port. -/
def socketV4 (s : List Char) : Option (SocketAddress × List Char) := do
  let (ip, s) ← ipv4 s
  let (port, s) ← port s
  return (.v4 ip port, s)

/-- An IPv6 address in brackets with a port. -/
def socketV6 (s : List Char) : Option (SocketAddress × List Char) := do
  let (groups, s) ← ipv6 (← expect '[' s)
  let (scope, s) ← scope s
  let (port, s) ← port (← expect ']' s)
  return (.v6 groups scope port, s)

/-- The address that a whole text spells. -/
def SocketAddress.ofText (s : String) : Except AddressFault SocketAddress :=
  match socketV4 s.toList <|> socketV6 s.toList with
  | some (a, []) => .ok a
  | _ => .error .badSyntax

/-! ## Writing -/

/-- The text of an IPv4 address. -/
def Ipv4.toText (ip : Ipv4) : String :=
  ".".intercalate ([ip.a, ip.b, ip.c, ip.d].map Text.ofNat)

/-- The text of a group. -/
def groupText (n : Nat) : String := String.ofList (Nat.toDigits 16 n)

/-- The length of the run of zeros at the front. -/
def zeroRun (gs : List Nat) : Nat := (gs.takeWhile (· = 0)).length

/-- The first of the longest runs of zeros: where it starts and how long it is, `start` being the
place of the front. -/
def longestZeros (start : Nat) : List Nat → Nat × Nat
  | [] => (start, 0)
  | g :: gs =>
    let rest := longestZeros (start + 1) gs
    let here := zeroRun (g :: gs)
    if here < rest.2 then rest else (start, here)

/-- The text of groups with colons between them. -/
def groupsText (gs : List Nat) : String := ":".intercalate (gs.map groupText)

/-- The text of an IPv6 address.  One that carries an IPv4 address shows it. -/
def ipv6Text : List Nat → String
  | [0, 0, 0, 0, 0, 0xffff, g, h] =>
    "::ffff:" ++ (Ipv4.mk (g / 256) (g % 256) (h / 256) (h % 256)).toText
  | gs =>
    let (start, length) := longestZeros 0 gs
    if length < 2 then groupsText gs
    else groupsText (gs.take start) ++ "::" ++ groupsText (gs.drop (start + length))

/-- The text of an address. -/
def SocketAddress.toText : SocketAddress → String
  | .v4 ip port => ip.toText ++ ":" ++ Text.ofNat port
  | .v6 groups scope port =>
    let zone := if scope = 0 then "" else "%" ++ Text.ofNat scope
    "[" ++ ipv6Text groups ++ zone ++ "]:" ++ Text.ofNat port

end Cutover.Net
