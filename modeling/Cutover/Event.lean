import Cutover.Phase
import Cutover.Text.Numeral

/-! # Inconsistencies

A validation reports each difference between the two stores as an event: which row, what is wrong
with it, and which side was authoritative when it was found.
-/

namespace Cutover

/-- What is wrong with a row: it stands in the target but not in the base, in the base but not in
the target, or in both with different cells. -/
inductive EventKind where
  | baseMissing
  | targetMissing
  | notEqual
  deriving DecidableEq, Repr

namespace EventKind

/-- All kinds. -/
def all : List EventKind := [.baseMissing, .targetMissing, .notEqual]

/-- The name of a kind. -/
def name : EventKind → String
  | .baseMissing => "base_missing"
  | .targetMissing => "target_missing"
  | .notEqual => "not_equal"

/-- The kind with exactly this name. -/
def ofName? (s : String) : Option EventKind := all.find? fun k => k.name == s

theorem ofName?_name (k : EventKind) : ofName? k.name = some k := by cases k <;> decide

end EventKind

/-- A reported difference. -/
structure Event where
  id : Int64
  kind : EventKind
  /-- The side whose row wins. -/
  direction : Side
  deriving DecidableEq

end Cutover
