import Cutover.Proofs.Sql.Reading
import Cutover.Table
import Cutover.TableSpec

/-! # What the statements of the cutover do to a table

The statements of the cutover are commands that can be read back, so a table that is given the text
of one does what the command says (`runStatementIn_statement`), and every grammar that takes the
dialect reads it alike (`runStatementIn_eq`).  From here on statements are not looked at as texts
any more.
-/

namespace Cutover

open Sql

/-! ## The table reads the text -/

namespace Table

variable (t : Table) {g : Grammar} {d : Dialect} {b : BoundCommand}

/-- A command is carried out as its text is read. -/
theorem runStatementIn_asRead (hg : g.Takes d) (h : b.command.Readable g) :
    t.runStatementIn g (b.statement d) = t.run (b.command.asRead d) b.args := by
  have hread : commandIn g (b.command.render d) = .ok (b.command.asRead d) := by
    rw [commandIn, Parser.command?_render hg h]
  rw [runStatementIn, BoundCommand.statement, hread]
  rfl

/-- **A statement is the same to every reader of its dialect.** -/
theorem runStatementIn_eq (hg : g.Takes d) (h : b.command.Readable g) :
    t.runStatementIn g (b.statement d) = t.runStatement (b.statement d) := by
  rw [runStatement, t.runStatementIn_asRead hg h,
    t.runStatementIn_asRead (Grammar.takes_tolerant d) h.tolerant]

/-- A table has no use for its key in a clause that names it, so it may be left out. -/
theorem run_asRead (d : Dialect) {c : Command}
    (hkey : ∀ key, c.key? = some key → sameName key t.key = true) (args : Args) :
    t.run (c.asRead d) args = t.run c args := by
  cases c with
  | select s => rfl
  | delete name cs => rfl
  | insert i =>
    have hcheck : t.checkKey i.conflict = .ok () := by
      rw [checkKey, if_pos]
      cases hi : i.conflict.key? with
      | none => rfl
      | some key => exact hkey key hi
    obtain ⟨table, columns, arguments, conflict⟩ := i
    cases conflict with
    | refuse => cases d <;> rfl
    | keep key | overwrite key cs =>
      cases d with
      | postgres | sqlite => rfl
      | mysql =>
        simp only [run, Command.asRead, Conflict.asRead, insert, checkInsert, hcheck]
        rfl

/-- **A statement made from a readable command does what the command says.** -/
theorem runStatement_statement (d : Dialect) (h : b.command.Readable .tolerant)
    (hkey : ∀ key, b.command.key? = some key → sameName key t.key = true := by rintro _ ⟨⟩) :
    t.runStatement (b.statement d) = t.run b.command b.args := by
  rw [runStatement, t.runStatementIn_asRead (Grammar.takes_tolerant d) h, t.run_asRead d hkey]

end Table

/-! ## The statements are readable -/

namespace TableSpec

variable (t : TableSpec) {g : Grammar}

theorem readable_selectAll : t.selectAll.Readable g where
  columns := by rintro cs ⟨⟩
  table := t.name_valid
  conditions := ⟨0, .nil 0⟩
  order := by rintro c ⟨⟩

theorem readable_byId (id : Int64) : (t.byId id).command.Readable g where
  columns := by rintro cs ⟨⟩
  table := t.name_valid
  conditions := ⟨1, .singleton (.equal 0 t.id_valid)⟩
  order := by rintro c ⟨⟩

theorem readable_deleteById (id : Int64) : (t.deleteById id).command.Readable g :=
  ⟨t.name_valid, 1, .singleton (.equal 0 t.id_valid)⟩

theorem readable_idsIn {ids : List Int64} (h : ids = [] → g.emptyLists = true) :
    (t.idsIn ids).command.Readable g where
  columns := by
    rintro cs ⟨⟩
    exact ⟨List.cons_ne_nil _ _, fun c hc => List.mem_singleton.mp hc ▸ t.id_valid⟩
  table := t.name_valid
  conditions := by
    have hchain := chain_range' 0 ids.length
    have hempty : List.range' 1 ids.length = [] → g.emptyLists = true := fun he =>
      h (List.eq_nil_of_length_eq_zero (List.range'_eq_nil_iff.mp he))
    exact ⟨_, .singleton (.among t.id_valid hempty hchain)⟩
  order := by rintro c ⟨⟩

theorem readable_pageCommand {p : Page} (h : IsName p.sort) :
    (t.pageCommand p).command.Readable g where
  columns := by
    intro cs hcs
    simp only at hcs
    split at hcs
    · obtain rfl := Option.some.inj hcs
      split
      · exact ⟨List.cons_ne_nil _ _, fun c hc => List.mem_singleton.mp hc ▸ t.id_valid⟩
      · refine ⟨List.cons_ne_nil _ _, fun c hc => ?_⟩
        rcases List.mem_cons.mp hc with rfl | hc
        · exact t.id_valid
        · exact List.mem_singleton.mp hc ▸ h
    · cases hcs
  table := t.name_valid
  conditions := by
    -- the cutoff takes the first argument, if it is there; the cursor takes those behind it
    have hcutoff : Chain (Condition.InOrder g) 0 (t.cutoffConditions p) p.cutoffArgs.length := by
      unfold cutoffConditions Page.cutoffArgs
      split
      · exact .singleton (.above 0 t.utime_valid)
      · exact .nil 0
    have hpresent : Chain (Condition.InOrder g) p.cutoffArgs.length
        (if t.sortsById p.sort then [] else [.present p.sort]) p.cutoffArgs.length := by
      split
      · exact .nil _
      · exact .singleton (.present _ h)
    have hcursor : ∃ m, Chain (Condition.InOrder g) p.cutoffArgs.length
        (t.cursorConditions p p.cutoffArgs.length) m := by
      unfold cursorConditions
      split
      · exact ⟨_, .nil _⟩
      · split
        · exact ⟨_, .singleton (.above _ t.id_valid)⟩
        · exact ⟨_, .singleton (.either (.above _ h) (.both (.equal _ h) (.above _ t.id_valid)))⟩
    obtain ⟨m, hcursor⟩ := hcursor
    exact ⟨m, (hcutoff.append hpresent).append hcursor⟩
  order := by
    intro c hc
    simp only at hc
    split at hc
    · exact List.mem_singleton.mp hc ▸ t.id_valid
    · rcases List.mem_cons.mp hc with rfl | hc
      · exact h
      · exact List.mem_singleton.mp hc ▸ t.id_valid

theorem readable_upsertCommand {columns : List String} (hne : columns ≠ [])
    (h : ∀ c ∈ columns, IsName c) : (t.upsertCommand columns).Readable g where
  table := t.name_valid
  columns_ne := hne
  columns := h
  arguments_ne := by simpa [upsertCommand] using hne
  arguments := ⟨_, chain_range' 0 columns.length⟩
  keep := by
    intro key hkey
    simp only at hkey
    split at hkey
    · cases hkey
      exact ⟨t.idColumn, rfl, t.id_valid⟩
    · cases hkey
  overwrite := by
    intro key cs hcs
    simp only at hcs
    split at hcs
    · cases hcs
    · rename_i hover
      cases hcs
      refine ⟨by simpa using hover, fun c hc => ?_, t.idColumn, rfl, t.id_valid⟩
      exact h c ((List.mem_filter.mp hc).1)

/-- An upsert names the column of the identity as the key. -/
theorem key?_upsertCommand (columns : List String) :
    (t.upsertCommand columns).key? = some t.idColumn := by
  unfold upsertCommand Command.key?
  simp only
  split <;> rfl

/-- So it may be sent to a table that has this key. -/
theorem sameName_key_upsertCommand {table : Table} (hkey : sameName table.key t.idColumn = true)
    (columns : List String) :
    ∀ key, (t.upsertCommand columns).key? = some key → sameName key table.key = true := by
  intro key hnamed
  rw [t.key?_upsertCommand, Option.some.injEq] at hnamed
  rwa [← hnamed, sameName, BEq.comm]

end TableSpec
end Cutover
