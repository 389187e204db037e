import Cutover.Sql.Command
import Cutover.Sql.Token

/-! # Reading statements

The command that a statement's text spells under a grammar.  Words of the grammar are recognised by
their place, so a column may bear any name; the words themselves are written in upper case.
-/

namespace Cutover.Sql.Parser

/-- What a part of a statement spells, and the tokens after it. -/
abbrev Parse (α : Type) := List Token → Option (α × List Token)

/-- Names separated by commas, at least one. -/
def names : Parse (List String)
  | .word w :: .comma :: r => (names r).map fun (ws, r) => (w :: ws, r)
  | .word w :: r => some ([w], r)
  | _ => none

/-- Marks separated by commas, at least one. -/
def arguments : Parse (List Nat)
  | .argument n :: .comma :: r => (arguments r).map fun (ns, r) => (n :: ns, r)
  | .argument n :: r => some ([n], r)
  | _ => none

section
variable (g : Grammar)

/-- The members of a list, after its opening parenthesis. -/
def members : Parse (List Nat)
  | .closeParen :: r => if g.emptyLists then some ([], r) else none
  | r => do
    match ← arguments r with
    | (ns, .closeParen :: r) => return (ns, r)
    | _ => none

/-- A condition without parts. -/
def simple : Parse Condition
  | .word c :: .greater :: .argument n :: r => some (.above c n, r)
  | .word c :: .equals :: .argument n :: r => some (.equal c n, r)
  | .word c :: .word "IS" :: .word "NOT" :: .word "NULL" :: r => some (.present c, r)
  | .word c :: .word "IN" :: .openParen :: r => (members g r).map fun (ns, r) => (.among c ns, r)
  | _ => none

mutual

/-- A condition: simple, or a disjunction in parentheses. -/
def condition : Nat → Parse Condition
  | 0, _ => none
  | fuel + 1, .openParen :: r => do
    match ← disjunction fuel r with
    | (c, .closeParen :: r) => return (c, r)
    | _ => none
  | _ + 1, r => simple g r

/-- Conjunctions joined by `OR`. -/
def disjunction : Nat → Parse Condition
  | 0, _ => none
  | fuel + 1, r => do
    match ← conjunction fuel r with
    | (a, .word "OR" :: r) =>
      let (b, r) ← disjunction fuel r
      return (.either a b, r)
    | (a, r) => return (a, r)

/-- Conditions joined by `AND`. -/
def conjunction : Nat → Parse Condition
  | 0, _ => none
  | fuel + 1, r => do
    match ← condition fuel r with
    | (a, .word "AND" :: r) =>
      let (b, r) ← conjunction fuel r
      return (.both a b, r)
    | (a, r) => return (a, r)

end

/-- Conditions that must all hold, joined by `AND`. -/
def allOf : Nat → Parse (List Condition)
  | 0, _ => none
  | fuel + 1, r => do
    match ← condition g fuel r with
    | (a, .word "AND" :: r) =>
      let (as, r) ← allOf fuel r
      return (a :: as, r)
    | (a, r) => return ([a], r)

/-- The conditions of a statement, if it has any.  Every turn of a reader takes a token or goes one
level down, of which there are three. -/
def whereClause : Parse (List Condition)
  | .word "WHERE" :: r => allOf g (3 * r.length + 3) r
  | r => some ([], r)

end

/-- The order of a reading, if it has one. -/
def orderClause : Parse (List String)
  | .word "ORDER" :: .word "BY" :: r => names r
  | r => some ([], r)

/-- The limit of a reading, if it has one. -/
def limitClause : Parse (Option Nat)
  | .word "LIMIT" :: .word n :: r => (Text.natural? n.toList).map fun n => (some n, r)
  | r => some (none, r)

/-- The columns of a reading. -/
def projection : Parse (Option (List String))
  | .star :: r => some (none, r)
  | r => (names r).map fun (cs, r) => (some cs, r)

/-- A reading, after its first word. -/
def select (g : Grammar) (ts : List Token) : Option Command := do
  match ← projection ts with
  | (columns, .word "FROM" :: .word table :: r) =>
    let (conditions, r) ← whereClause g r
    let (order, r) ← orderClause r
    let (limit, r) ← limitClause r
    if r.isEmpty then return .select { columns, table, conditions, order, limit } else none
  | _ => none

/-- Assignments `c = excluded.c`. -/
def excludedAssignments : List Token → Option (List String)
  | .word c :: .equals :: .word v :: .comma :: r =>
    if v = "excluded." ++ c then (excludedAssignments r).map (c :: ·) else none
  | [.word c, .equals, .word v] => if v = "excluded." ++ c then some [c] else none
  | _ => none

/-- Assignments `c = VALUES(c)`. -/
def valuesAssignments : List Token → Option (List String)
  | .word c :: .equals :: .word "VALUES" :: .openParen :: .word v :: .closeParen :: .comma :: r =>
    if v = c then (valuesAssignments r).map (c :: ·) else none
  | [.word c, .equals, .word "VALUES", .openParen, .word v, .closeParen] =>
    if v = c then some [c] else none
  | _ => none

section
variable (g : Grammar)

/-- What an insertion does on a conflict. -/
def conflict : List Token → Option Conflict
  | [] => some .refuse
  | .word "ON" :: .word "CONFLICT" :: .openParen :: .word key :: .closeParen :: .word "DO" :: r =>
    if g.onConflict then
      match r with
      | [.word "NOTHING"] => some (.keep (some key))
      | .word "UPDATE" :: .word "SET" :: r => (excludedAssignments r).map (.overwrite (some key))
      | _ => none
    else none
  | .word "ON" :: .word "DUPLICATE" :: .word "KEY" :: .word "UPDATE" :: r =>
    if g.onDuplicateKey then
      match r with
      | [.word c, .equals, .word v] => if v = c then some (.keep none) else none
      | r => (valuesAssignments r).map (.overwrite none)
    else none
  | _ => none

/-- An insertion, after its first two words. -/
def insert : List Token → Option Command
  | .word table :: .openParen :: r => do
    match ← names r with
    | (columns, .closeParen :: .word "VALUES" :: .openParen :: r) =>
      match ← arguments r with
      | (arguments, .closeParen :: r) =>
        return .insert { table, columns, arguments, conflict := ← conflict g r }
      | _ => none
    | _ => none
  | _ => none

/-- A deletion, after its first two words. -/
def delete : List Token → Option Command
  | .word table :: r => do
    match ← whereClause g r with
    | (conditions, []) => return .delete table conditions
    | _ => none
  | _ => none

/-- The command that a statement's text spells. -/
def command? (sql : String) : Option Command := do
  match ← tokensIn? g sql with
  | .word "SELECT" :: r => select g r
  | .word "INSERT" :: .word "INTO" :: r => insert g r
  | .word "DELETE" :: .word "FROM" :: r => delete g r
  | _ => none

end

end Cutover.Sql.Parser
