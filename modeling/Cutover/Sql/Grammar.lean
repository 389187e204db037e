import Cutover.Dialect

/-! # Grammars

The databases share most of the language of statements.  Where they differ, as far as the statements
of the cutover go, is told here: which marks stand for arguments, which clause an insertion may have
for a row that is already there, and whether a list may be empty.
-/

namespace Cutover.Sql

/-- What a reader of statements takes beyond what all of them take. -/
structure Grammar where
  /-- The mark `?`, for the argument after the one the last such mark stood for. -/
  plainMarks : Bool := false
  /-- A mark of `?` and a number. -/
  numberedMarks : Bool := false
  /-- A mark of `$` and a number. -/
  dollarMarks : Bool := false
  /-- The clause `ON CONFLICT`, which names the column of the key. -/
  onConflict : Bool := false
  /-- The clause `ON DUPLICATE KEY`, which names no key. -/
  onDuplicateKey : Bool := false
  /-- A comparison with the members of a list that has none. -/
  emptyLists : Bool := false
  deriving DecidableEq

namespace Grammar

/-- The grammar of a store that takes the statements of all dialects. -/
def tolerant : Grammar := ⟨true, true, true, true, true, true⟩

/-- The grammar of the databases of a dialect. -/
def of : Dialect → Grammar
  | .postgres => { dollarMarks := true, onConflict := true }
  | .mysql => { plainMarks := true, onDuplicateKey := true }
  | .sqlite => { plainMarks := true, numberedMarks := true, onConflict := true, emptyLists := true }

/-- A grammar has the marks and the clause that a dialect is written with. -/
def Takes (g : Grammar) : Dialect → Prop
  | .postgres => g.dollarMarks = true ∧ g.onConflict = true
  | .mysql => g.plainMarks = true ∧ g.onDuplicateKey = true
  | .sqlite => g.numberedMarks = true ∧ g.onConflict = true

theorem takes_of (d : Dialect) : (of d).Takes d := by cases d <;> exact ⟨rfl, rfl⟩

theorem takes_tolerant (d : Dialect) : tolerant.Takes d := by cases d <;> exact ⟨rfl, rfl⟩

end Grammar
end Cutover.Sql
