import Cutover.Binary64.Layout
import Cutover.Text.Numeral

/-! # Cell values

A cell holds one of six kinds of value.  Values are compared as the stores compare them: two
doubles are equal in the sense of IEEE 754, so a NaN differs from itself, and values of different
kinds are never equal.
-/

namespace Cutover

/-- The value of a cell. -/
inductive Value where
  | null
  | bool (b : Bool)
  | int (i : Int64)
  | float (x : Binary64)
  | text (s : String)
  | bytes (b : List UInt8)
  deriving DecidableEq, Inhabited

namespace Value

/-- The absence of a value. -/
def isNull : Value → Bool
  | .null => true
  | _ => false

/-- Equality as the stores have it. -/
def equals : Value → Value → Bool
  | .null, .null => true
  | .bool a, .bool b => a == b
  | .int a, .int b => a == b
  | .float x, .float y => x.equals y
  | .text s, .text t => s == t
  | .bytes a, .bytes b => a == b
  | _, _ => false

/-- A value is equal to itself exactly when it is not a NaN. -/
theorem equals_self_iff {v : Value} :
    v.equals v = true ↔ ∀ x, v = .float x → x.isNaN = false := by
  cases v <;> simp [equals, Binary64.equals_self_iff]

theorem equals_comm (v w : Value) : v.equals w = w.equals v := by
  cases v <;> cases w <;> simp only [equals, Binary64.equals_comm, BEq.comm]

/-- The whole number in a cell: an integer, or a text that spells one. -/
def toInt64? : Value → Option Int64
  | .int i => some i
  | .text s => Text.int64? s
  | _ => none

/-- The text in a cell that holds a text. -/
def toText? : Value → Option String
  | .text s => some s
  | _ => none

/-- The form of a value in a statement shown to an operator; a text stands in quotes as it is, a
byte string is told by its length. -/
def shown : Value → String
  | .null => "NULL"
  | .bool true => "true"
  | .bool false => "false"
  | .int i => Text.ofInt64 i
  | .float x => x.write .shown
  | .text s => "'" ++ s ++ "'"
  | .bytes b => "<" ++ Text.ofNat b.length ++ " bytes>"

end Value
end Cutover
