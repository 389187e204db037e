import Cutover.Proofs.Scan.Page
import Cutover.Proofs.Table.Change
import Mathlib.Data.Prod.Lex

/-! # What the statements of the cutover mean

Every statement that is made from the specification of a table says the same in all dialects, and
what it says can be told without a text: a page holds the first of the rows that it wants, in the
order of its column and the identity (`page_eq`); the statements on identities speak of the rows
that have them; an upsert puts the listed cells of a row in its place (`upsert_eq`).
`answers_in_every_dialect` says so of all of them, under every grammar that takes the dialect: that
of the databases of this dialect (`Grammar.of`), and that of a store that takes all of them.

Three things are asked for (`refused_and_misplaced`).  A list of identities to look up may be empty
only where the grammar has empty lists, which of the databases SQLite alone has; the table must have
the columns that are named; and its key must be the identity, for otherwise an upsert is refused,
or, where the clause names no key, meets the row of another identity under it.
-/

namespace Cutover

open Sql

/-! ## Pages -/

namespace TableSpec

variable (s : TableSpec)

/-- What decides between places: the value of the sort column and then the identity, or the identity
alone if that is the sort column. -/
def rank (sort : String) (c : Cursor) : Int64 ×ₗ Int64 :=
  toLex (if s.sortsById sort then 0 else c.sort, c.id)

/-- The rank of a stored row. -/
def rankOf (sort : String) (t : Table) (r : List Value) : Int64 ×ₗ Int64 :=
  s.rank sort ⟨(t.number? r sort).getD 0, t.idOf s r⟩

/-- A page wants a row: it was changed after the cutoff, if there is one; it has a value to be
ordered by; and it comes behind the cursor, if there is one. -/
structure Wants (p : Page) (t : Table) (r : List Value) : Prop where
  recent : 0 < p.utimeAfter → ∃ u, t.number? r s.utimeColumn = some u ∧ p.utimeAfter < u
  present : s.sortsById p.sort = false → t.cell r p.sort ≠ .null
  behind : ∀ c, p.cursor = some c → s.rank p.sort c < s.rankOf p.sort t r

/-- The columns that a page shows of its rows. -/
def pageColumns (p : Page) : Option (List String) :=
  if p.idsOnly then some (if s.sortsById p.sort then [s.idColumn] else [s.idColumn, p.sort])
    else none

/-- The scan of which a page could be a part. -/
def planOf (p : Page) (d : Dialect) : Plan where
  base := .src
  target := .dst
  direction := .src
  table := s
  dialect := d
  sort := p.sort
  utimeAfter := p.utimeAfter
  batch := max p.limit 1
  batch_pos := Nat.lt_of_lt_of_le Nat.one_pos (Nat.le_max_right _ _)

variable {s}

theorem page_eq_ok_iff {p : Page} {b : BoundCommand} :
    s.page p = .ok b ↔ IsName p.sort ∧ b = s.pageCommand p := by
  rw [page, checkIdentifier]
  by_cases hname : Identifier.isValid p.sort = true
  · simp [IsName, hname, bind, Except.bind, pure, Except.pure, eq_comm (a := b)]
  · simp [IsName, hname, bind, Except.bind]

variable (s)

/-- A page without a limit is a page of one row. -/
theorem pageCommand_pageOf (p : Page) (d : Dialect) :
    s.pageCommand ((s.planOf p d).pageOf p.cursor p.idsOnly) = s.pageCommand p := by
  have hlimit : max (max p.limit 1) 1 = max p.limit 1 := by omega
  simp only [pageCommand, Plan.pageOf, planOf, hlimit]
  rfl

end TableSpec

theorem Plan.before_iff_rank (p : Plan) (a b : Cursor) :
    p.Before a b ↔ p.table.rank p.sort a < p.table.rank p.sort b := by
  rw [TableSpec.rank, TableSpec.rank, Prod.Lex.toLex_lt_toLex, Before, byId]
  split <;> simp

namespace Table.Fits

variable {t : Table} {s : TableSpec}

theorem wants_iff (p : Page) (d : Dialect) (r : List Value) :
    s.Wants p t r ↔ ((s.planOf p d).inScope t r = true ∧ (s.planOf p d).placed t r = true) ∧
      (s.planOf p d).behind t p.cursor r = true := by
  have hrecent : (s.planOf p d).inScope t r = true ↔
      (0 < p.utimeAfter → ∃ u, t.number? r s.utimeColumn = some u ∧ p.utimeAfter < u) := by
    show (if 0 < p.utimeAfter then greater (t.number? r s.utimeColumn) (some p.utimeAfter)
      else true)
      = true ↔ _
    by_cases hu : 0 < p.utimeAfter
    · cases t.number? r s.utimeColumn <;> simp [hu, greater]
    · simp [hu]
  have hpresent : (s.planOf p d).placed t r = true ↔
      (s.sortsById p.sort = false → t.cell r p.sort ≠ .null) := by
    show (s.sortsById p.sort || !(t.cell r p.sort).isNull) = true ↔ _
    cases s.sortsById p.sort <;> cases t.cell r p.sort <;> simp [Value.isNull]
  have hbehind : (s.planOf p d).behind t p.cursor r = true ↔
      ∀ c, p.cursor = some c → s.rank p.sort c < s.rankOf p.sort t r := by
    cases p.cursor with
    | none => simp [Plan.behind]
    | some c =>
      rw [Plan.behind, decide_eq_true_iff, Plan.before_iff_rank]
      simp only [Option.some.injEq, forall_eq']
      rfl
  rw [hrecent, hpresent, hbehind]
  exact ⟨fun h => ⟨⟨h.recent, h.present⟩, h.behind⟩, fun h => ⟨h.1.1, h.1.2, h.2⟩⟩

/-- **A page holds the first of the rows that it wants**, in the order of their ranks. -/
theorem page_eq (h : t.Fits s) {p : Page} {b : BoundCommand} (hb : s.page p = .ok b)
    (hsort : t.HasColumn p.sort) (hutime : 0 < p.utimeAfter → t.HasColumn s.utimeColumn)
    (hint : ∀ r ∈ t.rows, t.cell r p.sort = .null ∨ IsInt (t.cell r p.sort)) :
    ∃ rows : List (List Value),
      (∀ d (g : Grammar), g.Takes d → t.runStatementIn g (b.statement d) =
        .ok (⟨(rows.take (max p.limit 1)).map (t.shown (s.pageColumns p)), 0⟩, t)) ∧
      (∀ r, r ∈ rows ↔ r ∈ t.rows ∧ s.Wants p t r) ∧
      rows.Pairwise fun x y => s.rankOf p.sort t x < s.rankOf p.sort t y := by
  obtain ⟨hname, rfl⟩ := TableSpec.page_eq_ok_iff.mp hb
  have hscans : ∀ d, (s.planOf p d).Scans t := fun d => ⟨h, hsort, hutime, hint⟩
  -- the rows of a scan do not depend on the dialect
  let plan := s.planOf p .sqlite
  refine ⟨(plan.visiting t).filter (plan.behind t p.cursor), fun d g hg => ?_, fun r => ?_, ?_⟩
  · obtain ⟨st, hst, hanswer⟩ := (hscans d).page_answer hname p.cursor p.idsOnly
    rw [Plan.pageStatement_eq hname, Except.ok.injEq] at hst
    have hstatement : (s.pageCommand p).statement d = st := by
      rw [← s.pageCommand_pageOf p d]
      exact hst
    rw [t.runStatementIn_eq hg (s.readable_pageCommand hname), hstatement]
    exact hanswer
  · rw [List.mem_filter, Plan.mem_visiting, wants_iff p .sqlite, and_assoc]
  · exact (hscans .sqlite).pairwise_visiting.filter _ |>.imp fun hab =>
      (plan.before_iff_rank _ _).mp hab

/-! ## Upserts -/

/-- **An upsert puts the listed cells of a row in their place.** -/
theorem upsert_eq (h : t.Fits s) (hkey : sameName t.key s.idColumn = true) {row : Row}
    {columns : List String} {b : BoundCommand} {id : Int64} (hb : s.upsert row columns = .ok b)
    (hcolumns : ∀ c ∈ columns, t.HasColumn c)
    (hlisted : ∃ c ∈ columns, sameName c s.idColumn = true)
    (hid : row.get? s.idColumn = some (.int id)) :
    ∃ n t', (∀ d (g : Grammar), g.Takes d →
        t.runStatementIn g (b.statement d) = .ok (⟨[], n⟩, t')) ∧
      t.Upserted s id columns row.cell n t' := by
  obtain ⟨⟨hne, hall⟩, rfl⟩ := TableSpec.upsert_eq_ok_iff.mp hb
  have hcell : row.cell s.idColumn = .int id := by rw [Row.cell, hid, Option.getD_some]
  obtain ⟨n, t', hrun, hupserted⟩ := h.insert_upsertCommand hkey hcolumns
    (List.any_eq_true.mpr hlisted) (fun _ _ hxy => Row.cell_congr hxy) hcell
  refine ⟨n, t', fun d g hg => ?_, hupserted⟩
  have hread : ∀ {g'}, (s.upsertCommand columns).Readable g' :=
    s.readable_upsertCommand hne fun c hc => (hall c hc).1
  rw [t.runStatementIn_eq hg hread,
    t.runStatement_statement d hread (s.sameName_key_upsertCommand hkey columns)]
  exact hrun

/-! ## All statements -/

/-- **The statements of the cutover mean the same in all dialects**: what each of them does to a
table is told here without the dialect, whoever reads it that takes the dialect. -/
theorem answers_in_every_dialect (h : t.Fits s) (hkey : sameName t.key s.idColumn = true) :
    (∀ (p : Page) (b : BoundCommand), s.page p = .ok b → t.HasColumn p.sort →
      (0 < p.utimeAfter → t.HasColumn s.utimeColumn) →
      (∀ r ∈ t.rows, t.cell r p.sort = .null ∨ IsInt (t.cell r p.sort)) →
      ∃ rows : List (List Value),
        (∀ d (g : Grammar), g.Takes d → t.runStatementIn g (b.statement d) =
          .ok (⟨(rows.take (max p.limit 1)).map (t.shown (s.pageColumns p)), 0⟩, t)) ∧
        (∀ r, r ∈ rows ↔ r ∈ t.rows ∧ s.Wants p t r) ∧
        rows.Pairwise fun x y => s.rankOf p.sort t x < s.rankOf p.sort t y) ∧
    (∀ d (g : Grammar), g.Takes d → ∀ id, t.runStatementIn g ((s.byId id).statement d) =
      .ok (⟨(t.rows.filter fun r => t.idOf s r == id).map (t.shown none), 0⟩, t)) ∧
    (∀ d (g : Grammar), g.Takes d → ∀ id, t.runStatementIn g ((s.deleteById id).statement d) =
      .ok (⟨[], (t.rows.filter fun r => t.idOf s r == id).length⟩,
        { t with rows := t.rows.filter fun r => !(t.idOf s r == id) })) ∧
    (∀ d (g : Grammar), g.Takes d → ∀ ids, (ids = [] → g.emptyLists = true) →
      t.runStatementIn g ((s.idsIn ids).statement d) =
        .ok (⟨(t.rows.filter fun r => ids.contains (t.idOf s r)).map
          (t.shown (some [s.idColumn])), 0⟩, t)) ∧
    (∀ (row : Row) (columns : List String), (∃ b, s.upsert row columns = .ok b) ↔
      columns ≠ [] ∧ ∀ c ∈ columns, IsName c ∧ (row.get? c).isSome = true) ∧
    (∀ (row : Row) (columns : List String) (b : BoundCommand) (id : Int64),
      s.upsert row columns = .ok b → (∀ c ∈ columns, t.HasColumn c) →
      (∃ c ∈ columns, sameName c s.idColumn = true) → row.get? s.idColumn = some (.int id) →
      ∃ n t', (∀ d (g : Grammar), g.Takes d →
          t.runStatementIn g (b.statement d) = .ok (⟨[], n⟩, t')) ∧
        t.Upserted s id columns row.cell n t') := by
  refine ⟨fun p b => h.page_eq, fun d g hg id => ?_, fun d g hg id => ?_,
    fun d g hg ids hempty => ?_, fun row columns => ?_, fun row columns b id => h.upsert_eq hkey⟩
  · rw [t.runStatementIn_eq hg (s.readable_byId id), h.filter_idOf]
    exact h.byId_answer d id
  · rw [t.runStatementIn_eq hg (s.readable_deleteById id), h.filter_idOf]
    exact h.deleteById_eq d id
  · rw [t.runStatementIn_eq hg (s.readable_idsIn hempty)]
    exact h.idsIn_answer d ids
  · constructor
    · rintro ⟨b, hb⟩
      exact (TableSpec.upsert_eq_ok_iff.mp hb).1
    · exact fun hall => ⟨_, TableSpec.upsert_eq_ok_iff.mpr ⟨hall, rfl⟩⟩

end Table.Fits

/-- Two items, the first without a time of change. -/
def Table.twoItems : Table :=
  ⟨"items", "id", ["id", "name", "utime"],
    [[.int 2, .text "b", .null], [.int 1, .text "a", .int 20]]⟩

/-- The statements on two items, read by the databases of each dialect: a page of those changed
after a time has the one that was, none of no identities are there where one may ask so, and an
upsert of the name of the other is carried out. -/
theorem answers_in_every_dialect_sample :
    Table.twoItems.Fits .items ∧ sameName Table.twoItems.key TableSpec.items.idColumn = true ∧
      (∃ rows : List (List Value),
        (∀ d, Table.twoItems.runStatementIn (.of d)
          ((TableSpec.items.pageCommand ⟨"utime", 10, none, 5, true⟩).statement d) =
            .ok (⟨(rows.take 5).map (Table.twoItems.shown (some ["id", "utime"])), 0⟩, .twoItems)) ∧
        ∀ r, r ∈ rows ↔ r = [.int 1, .text "a", .int 20]) ∧
      Table.twoItems.runStatementIn (.of .sqlite) ((TableSpec.items.idsIn []).statement .sqlite) =
        .ok (⟨[], 0⟩, .twoItems) ∧
      ∃ n t', (∀ d, Table.twoItems.runStatementIn (.of d)
          (BoundCommand.statement d ⟨TableSpec.items.upsertCommand ["name", "id"],
            [.text "c", .int 2]⟩) = .ok (⟨[], n⟩, t')) ∧
        Table.twoItems.Upserted .items 2 ["name", "id"]
          (Row.cell ⟨[("id", .int 2), ("name", .text "c")]⟩) n t' := by
  have hfits : Table.twoItems.Fits .items := by decide +kernel
  have hkey : sameName Table.twoItems.key TableSpec.items.idColumn = true := by decide +kernel
  obtain ⟨hpage, -, -, hids, -, hupsert⟩ := hfits.answers_in_every_dialect hkey
  refine ⟨hfits, hkey, ?_, hids .sqlite _ (Grammar.takes_of .sqlite) [] fun _ => rfl, ?_⟩
  · obtain ⟨rows, hrun, hmem, -⟩ := hpage ⟨"utime", 10, none, 5, true⟩ _
      (TableSpec.page_eq_ok_iff.mpr ⟨by decide +kernel, rfl⟩) (by decide +kernel)
      (fun _ => by decide +kernel) (by decide +kernel)
    have hcolumns : TableSpec.items.pageColumns ⟨"utime", 10, none, 5, true⟩ =
        some ["id", "utime"] := by
      decide +kernel
    rw [hcolumns] at hrun
    refine ⟨rows, fun d => hrun d _ (Grammar.takes_of d), fun r => ?_⟩
    rw [hmem, Table.Fits.wants_iff _ .sqlite]
    constructor
    · rintro ⟨hr, hwants⟩
      rcases List.mem_cons.mp hr with rfl | hr
      · exact absurd hwants (by decide +kernel)
      · exact List.mem_singleton.mp hr
    · rintro rfl
      decide +kernel
  · have hcells : ["name", "id"].map (Row.cell ⟨[("id", .int 2), ("name", .text "c")]⟩) =
        [.text "c", .int 2] := by decide +kernel
    have hbound : TableSpec.items.upsert ⟨[("id", .int 2), ("name", .text "c")]⟩ ["name", "id"] =
        .ok ⟨TableSpec.items.upsertCommand ["name", "id"], [.text "c", .int 2]⟩ := by
      rw [← hcells]
      exact TableSpec.upsert_eq_ok_iff.mpr ⟨by decide +kernel, rfl⟩
    have hlisted : sameName "id" TableSpec.items.idColumn = true := by decide +kernel
    obtain ⟨n, t', hrun, hupserted⟩ := hupsert _ _ _ 2 hbound (by decide +kernel)
      ⟨"id", List.mem_cons_of_mem _ (List.mem_singleton_self _), hlisted⟩ (by decide +kernel)
    exact ⟨n, t', fun d => hrun d _ (Grammar.takes_of d), hupserted⟩

/-- The key of the items is their code. -/
def Table.codedItems : Table :=
  ⟨"items", "code", ["id", "code", "name"], [[.int 2, .int 7, .text "b"]]⟩

/-- **An upsert of a column that the table has not is refused in every dialect.  With another key
than the identity an upsert is refused where the clause names the key, and changes the row of
another identity where it does not**: the item `1` is to take the code `7` and the name `a`, and it
is the item `2` that takes them.  **A search among no identities is no statement of Postgres or
MySQL.** -/
theorem refused_and_misplaced :
    Table.codedItems.Fits .items ∧
      (∀ d, ∃ b, TableSpec.items.upsert ⟨[("id", .int 1), ("size", .int 3)]⟩ ["id", "size"] =
        .ok b ∧ Table.codedItems.runStatementIn (.of d) (b.statement d) = .error Table.refused) ∧
      (∃ b, TableSpec.items.upsert ⟨[("id", .int 1), ("code", .int 7), ("name", .text "a")]⟩
          ["id", "code", "name"] = .ok b ∧
        (∀ d, d ≠ .mysql →
          Table.codedItems.runStatementIn (.of d) (b.statement d) = .error Table.refused) ∧
        Table.codedItems.runStatementIn (.of .mysql) (b.statement .mysql) =
          .ok (⟨[], 1⟩, { Table.codedItems with rows := [[.int 2, .int 7, .text "a"]] })) ∧
      ∀ d, d ≠ .sqlite → Table.codedItems.runStatementIn (.of d)
        ((TableSpec.items.idsIn []).statement d) = .error Table.refused := by
  have hreadable : ∀ {columns : List String} {g : Grammar}, columns ≠ [] →
      (∀ c ∈ columns, IsName c) → (TableSpec.items.upsertCommand columns).Readable g :=
    TableSpec.items.readable_upsertCommand
  refine ⟨by decide +kernel, fun d => ?_, ?_, fun d hd => ?_⟩
  · refine ⟨_, TableSpec.upsert_eq_ok_iff.mpr ⟨by decide +kernel, rfl⟩, ?_⟩
    rw [Table.runStatementIn_asRead _ (Grammar.takes_of d)
      (hreadable (by simp) (by decide +kernel))]
    cases d <;> decide +kernel
  · refine ⟨_, TableSpec.upsert_eq_ok_iff.mpr ⟨by decide +kernel, rfl⟩, fun d hd => ?_, ?_⟩
    · rw [Table.runStatementIn_asRead _ (Grammar.takes_of d)
        (hreadable (by simp) (by decide +kernel))]
      cases d with
      | mysql => exact absurd rfl hd
      | postgres | sqlite => decide +kernel
    · rw [Table.runStatementIn_asRead _ (Grammar.takes_of .mysql)
        (hreadable (by simp) (by decide +kernel))]
      decide +kernel
  · cases d with
    | sqlite => exact absurd rfl hd
    | postgres | mysql => decide +kernel

end Cutover
