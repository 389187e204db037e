import Cutover.Keyword
import Cutover.Text.Keyword

/-! # Sides and phases

A cutover moves one table from a source store to a destination store.  At every moment one of the
two sides is *authoritative*: it answers reads, and its rows win over the rows of the other side.
The operator walks through four phases; the phase alone decides which side is authoritative and
whether writes are repeated on the other one.
-/

namespace Cutover

/-- One of the two stores.  As the direction of an inconsistency it names the store whose content
wins. -/
inductive Side where
  | src
  | dst
  deriving DecidableEq, Repr

namespace Side

/-- The store across. -/
def other : Side → Side
  | .src => .dst
  | .dst => .src

@[simp] theorem other_other (s : Side) : s.other.other = s := by cases s <;> rfl

theorem other_ne (s : Side) : s.other ≠ s := by cases s <;> decide

/-- The name of a side. -/
def name : Side → String
  | .src => "SRC"
  | .dst => "DST"

/-- Reads a side's name in any letter case, blank characters around it. -/
def ofText (s : String) : Except KeywordError Side :=
  match Text.upperKeyword s with
  | "SRC" => .ok .src
  | "DST" => .ok .dst
  | _ => .error (.side s)

end Side

/-- The phases of a cutover, in the order in which the operator passes through them. -/
inductive Phase where
  | srcOnly
  | srcFirst
  | dstFirst
  | dstOnly
  deriving DecidableEq, Repr

namespace Phase

/-- All phases, in order. -/
def all : List Phase := [.srcOnly, .srcFirst, .dstFirst, .dstOnly]

/-- The place of a phase in the order. -/
def index : Phase → Nat
  | .srcOnly => 0
  | .srcFirst => 1
  | .dstFirst => 2
  | .dstOnly => 3

/-- The phase at a place in the order. -/
def ofIndex? (n : Nat) : Option Phase := all[n]?

/-- The side whose rows are authoritative. -/
def authoritative : Phase → Side
  | .srcOnly | .srcFirst => .src
  | .dstFirst | .dstOnly => .dst

/-- Whether a write is repeated on the other side. -/
def writesBoth : Phase → Bool
  | .srcFirst | .dstFirst => true
  | .srcOnly | .dstOnly => false

/-- The side that receives repeated writes, if any does. -/
def secondary? (p : Phase) : Option Side :=
  if p.writesBoth then some p.authoritative.other else none

/-- The name of a phase. -/
def name : Phase → String
  | .srcOnly => "SRC_ONLY"
  | .srcFirst => "SRC_FIRST"
  | .dstFirst => "DST_FIRST"
  | .dstOnly => "DST_ONLY"

/-- The phase with exactly this name. -/
def ofName? (s : String) : Option Phase := all.find? fun p => p.name == s

theorem ofName?_name (p : Phase) : ofName? p.name = some p := by cases p <;> decide

/-- Reads a phase's name in any letter case, a hyphen standing for the underscore, blank characters
around it. -/
def ofText (s : String) : Except KeywordError Phase :=
  let word := (Text.upperKeyword s).toList.map fun c => if c = '-' then '_' else c
  match ofName? (String.ofList word) with
  | some p => .ok p
  | none => .error (.phase s)

end Phase
end Cutover
