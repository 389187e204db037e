import Cutover.Keyword
import Cutover.Text.Keyword
import Cutover.Text.Numeral

/-! # Dialects

The three kinds of database a statement may be written for.  They differ in how a statement refers
to its arguments and in how an insertion yields to a row that is already there.
-/

namespace Cutover

/-- A kind of database. -/
inductive Dialect where
  | postgres
  | mysql
  | sqlite
  deriving DecidableEq, Repr

namespace Dialect

/-- The name of a dialect. -/
def name : Dialect → String
  | .postgres => "postgres"
  | .mysql => "mysql"
  | .sqlite => "sqlite"

/-- The mark that stands for the `n`-th argument, counted from one. -/
def placeholder : Dialect → Nat → String
  | .postgres, n => "$" ++ Text.ofNat n
  | .mysql, _ => "?"
  | .sqlite, n => "?" ++ Text.ofNat n

/-- Reads a dialect's name or one of its usual short forms, in any letter case. -/
def ofText (s : String) : Except KeywordError Dialect :=
  match Text.lowerKeyword s with
  | "postgres" | "postgresql" | "pg" => .ok .postgres
  | "mysql" | "mariadb" => .ok .mysql
  | "sqlite" => .ok .sqlite
  | _ => .error (.dialect s)

/-- The dialect that a database URL's scheme announces: the part before the first colon, in any
letter case. -/
def ofUrl? (url : String) : Option Dialect :=
  match String.ofList ((url.toList.takeWhile (· ≠ ':')).map Text.lower) with
  | "postgres" | "postgresql" => some .postgres
  | "mysql" | "mariadb" => some .mysql
  | "sqlite" => some .sqlite
  | _ => none

end Dialect
end Cutover
