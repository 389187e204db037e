import Cutover.Proofs.Record.Comparison
import Cutover.Proofs.Repair.Insensitive

/-! # Exact copies

A validation that compares a store with an exact copy of it ought to find nothing, and neither ought
one that comes after a repair of a row to find this row again.  Both hold but for one kind of value:
a NaN is not equal to itself, so a row that holds one is not equal to its own copy
(`Row.Distinct.coherent_iff`).

The comparison looks a cell up by the name of its column.  So a record is equal to itself exactly
when the cells of one name hold equal values, each of them being compared with the first
(`Record.equals_self_iff`).  Between a table and its copy the differences are the rows of which this
does not hold (`Plan.differences_of_copy`), and a row that has just been copied is reported again
exactly when it holds a NaN (`Plan.reports_copied_iff`); then no repair can bring it to rest.
-/

namespace Cutover

open Dialogue

/-! ## Records and their copies -/

namespace Value

/-- Whether a value is a double that is not a number. -/
def isNaN : Value → Bool
  | .float x => x.isNaN
  | _ => false

/-- Only a NaN is not equal to itself. -/
theorem equals_self (v : Value) : v.equals v = !v.isNaN := by
  cases v <;> simp [equals, isNaN, Binary64.equals]

end Value

namespace Row

variable {r : Row}

/-- The cells of one name, letter case aside, hold equal values; so each of them holds a value that
is equal to itself. -/
def Coherent (r : Row) : Prop :=
  ∀ c ∈ r.cells, ∀ d ∈ r.cells, sameName c.1 d.1 = true → c.2.equals d.2 = true

instance : DecidablePred Coherent := fun r =>
  inferInstanceAs (Decidable (∀ c ∈ r.cells, ∀ d ∈ r.cells, _ → _))

/-- If no names differ in letter case only, all that counts is that no value is a NaN. -/
theorem Distinct.coherent_iff (h : r.Distinct) : r.Coherent ↔ ∀ v ∈ r.values, v.isNaN = false := by
  constructor
  · intro hr v hv
    obtain ⟨c, hc, rfl⟩ := List.mem_map.mp hv
    have hself := hr c hc c hc (sameName_refl c.1)
    rwa [Value.equals_self, Bool.not_eq_true'] at hself
  · intro hr c hc d hd hname
    have hcell : (caseless d.1, c.2) ∈ r.plain :=
      List.mem_map.mpr ⟨c, hc, by rw [sameName_iff.mp hname]⟩
    -- a name has one cell
    rw [h.eq_of_mem hcell (List.mem_map.mpr ⟨d, hd, rfl⟩), Value.equals_self, Bool.not_eq_true']
    exact hr d.2 (List.mem_map.mpr ⟨d, hd, rfl⟩)

/-- The name of a cell finds a cell of the same name. -/
theorem exists_get?_of_mem {c : String × Value} (hc : c ∈ r.cells) :
    ∃ d ∈ r.cells, sameName d.1 c.1 = true ∧ r.get? c.1 = some d.2 := by
  unfold get?
  cases hfind : r.cells.find? fun d => sameName d.1 c.1 with
  | none => exact absurd (sameName_refl c.1) (List.find?_eq_none.mp hfind c hc)
  | some d =>
    have hname := List.find?_some hfind
    exact ⟨d, List.mem_of_find?_eq_some hfind, hname, rfl⟩

end Row

namespace Record

/-- **A record is equal to itself when the cells of one name hold equal values.** -/
theorem equals_self_iff {a : Record} : a.equals a = true ↔ a.row.Coherent := by
  have hlooked : a.equals a = true ↔
      ∀ c ∈ a.row.cells, ∃ d ∈ a.row.cells, a.row.get? c.1 = some d.2 ∧ d.2.equals c.2 = true := by
    rw [equals, beq_self_eq_true, beq_self_eq_true, Bool.true_and, Bool.true_and, List.all_eq_true]
    refine forall₂_congr fun c hc => ?_
    obtain ⟨d, hd, -, hget⟩ := Row.exists_get?_of_mem hc
    rw [hget]
    constructor
    · intro hequal
      exact ⟨d, hd, rfl, hequal⟩
    · rintro ⟨e, -, hsame, hequal⟩
      rwa [Option.some.inj hsame]
  rw [hlooked]
  constructor
  · intro hall c hc d hd hname
    -- both are compared with the first cell of the name
    obtain ⟨e, -, hget, hec⟩ := hall c hc
    obtain ⟨e', -, hget', hed⟩ := hall d hd
    rw [Row.get?_congr hname, hget'] at hget
    rw [Option.some.inj hget] at hed
    exact Value.equals_trans (Value.equals_comm e.2 c.2 ▸ hec) hed
  · intro hrow c hc
    obtain ⟨d, hd, hname, hget⟩ := Row.exists_get?_of_mem hc
    exact ⟨d, hd, hget, hrow d hd c hc hname⟩

end Record

/-! ## Tables and their copies -/

namespace Table

/-- The table has the columns and the rows of another, these in whatever order. -/
structure IsCopy (c t : Table) : Prop where
  name : c.name = t.name
  columns : c.columns = t.columns
  rows : c.rows.Perm t.rows

section
variable {c t : Table} {s : TableSpec}

theorem IsCopy.recordOf_eq (h : c.IsCopy t) (r : List Value) : c.recordOf s r = t.recordOf s r := by
  rw [recordOf, recordOf, idOf_of_columns_eq h.columns, shown, shown, h.columns]

/-- A copy of the migrated table can be migrated. -/
theorem IsCopy.fits (h : c.IsCopy t) (ht : t.Fits s) : c.Fits s where
  name := h.name ▸ ht.name
  id_column := by
    rw [HasColumn, place?, h.columns]
    exact ht.id_column
  width r hr := by
    rw [h.columns]
    exact ht.width r (h.rows.mem_iff.mp hr)
  id_int r hr := by
    rw [cell_of_columns_eq h.columns]
    exact ht.id_int r (h.rows.mem_iff.mp hr)
  id_unique := by
    rw [cell_of_columns_eq h.columns]
    exact (h.rows.pairwise_iff fun hne => hne.symm).mpr ht.id_unique

/-- It has the same row under each identity. -/
theorem IsCopy.lookup_eq (h : c.IsCopy t) (ht : t.Fits s) (id : Int64) :
    c.lookup s id = t.lookup s id := by
  ext r
  rw [(h.fits ht).lookup_eq_some, ht.lookup_eq_some, h.rows.mem_iff, idOf_of_columns_eq h.columns]

end

section
variable {b t : Table} {s : TableSpec} {r : List Value}

/-- A row holds the same as a row with its cells exactly when none of them is a NaN. -/
theorem Keyed.equals_self_iff (hb : b.Keyed s) (h : b.SameColumns t) (hr : r ∈ b.rows) :
    (∀ c, t.HasColumn c → (b.cell r c).equals (b.cell r c) = true) ↔ ∀ v ∈ r, v.isNaN = false := by
  constructor
  · intro hall v hv
    obtain ⟨i, hi, rfl⟩ := List.getElem_of_mem hv
    have hcolumn : i < b.columns.length := hb.width r hr ▸ hi
    have hself := hall b.columns[i] (hasColumn_of_mem ((h _).mp (List.getElem_mem hcolumn)))
    rwa [cell_getElem hb.distinct hcolumn hi, Value.equals_self, Bool.not_eq_true'] at hself
  · intro hall c _
    rw [Value.equals_self, Bool.not_eq_true', cell]
    split
    · rename_i i _
      rw [cellAt]
      cases hi : r[i]? with
      | none => rfl
      | some v => exact hall v (List.mem_of_getElem? hi)
    · rfl

end
end Table

namespace Plan

variable {p : Plan} {tables : Side → Table}

/-- The rows of a table in scope that are not equal to their own copy, as the events that report
them. -/
def selfUnequal (p : Plan) (t : Table) : List Event :=
  (t.rows.filter fun r => p.inScope t r && !decide (t.shown none r).Coherent).map
    fun r => ⟨t.idOf p.table r, .notEqual, p.direction⟩

/-- **Between a table and an exact copy the differences are the rows that are not equal to
themselves.** -/
theorem differences_of_copy (hbase : (tables p.base).Fits p.table)
    (hcopy : (tables p.target).IsCopy (tables p.base)) :
    p.differences tables = p.selfUnequal (tables p.base) := by
  have hforward : ∀ r ∈ (tables p.base).rows, p.eventOf (p.finding tables .forward r) =
      if !decide ((tables p.base).shown none r).Coherent then
        some ⟨(tables p.base).idOf p.table r, .notEqual, p.direction⟩ else none := by
    intro r hr
    have hlookup : (tables p.target).lookup p.table ((tables p.base).idOf p.table r) = some r := by
      rw [hcopy.lookup_eq hbase]
      exact hbase.lookup_eq_some.mpr ⟨hr, rfl⟩
    have hself : ((tables p.base).recordOf p.table r).equals ((tables p.base).recordOf p.table r) =
        decide ((tables p.base).shown none r).Coherent := by
      rw [Bool.eq_iff_iff, Record.equals_self_iff, decide_eq_true_iff]
      rfl
    simp only [eventOf, finding, forwardKind, hlookup, hcopy.recordOf_eq, hself]
    cases decide ((tables p.base).shown none r).Coherent <;> rfl
  have hbackward : ∀ r ∈ (tables p.target).rows,
      p.eventOf (p.finding tables .backward r) = none := by
    intro r hr
    have hlookup : (tables p.base).lookup p.table ((tables p.target).idOf p.table r) = some r := by
      rw [← hcopy.lookup_eq hbase]
      exact (hcopy.fits hbase).lookup_eq_some.mpr ⟨hr, rfl⟩
    simp only [eventOf, finding, backwardKind, hlookup, Option.map_none]
  have hnone : p.eventsOf tables .backward
      ((tables p.target).rows.filter (p.inScope (tables p.target))) = [] :=
    List.filterMap_eq_nil_iff.mpr fun r hr => hbackward r (List.mem_filter.mp hr).1
  rw [differences, hnone, List.append_nil, eventsOf, selfUnequal, List.filterMap_filter,
    ← List.filterMap_eq_map, List.filterMap_filter]
  refine List.filterMap_congr fun r hr => ?_
  rw [hforward r hr]
  cases p.inScope (tables p.base) r <;> rfl

/-! ## Rows that have been copied -/

section
variable {r : List Value} {id : Int64}

/-- Of an identity of the base something is reported when its row is in scope and the tables do not
agree on it. -/
theorem Compares.reports_iff (h : p.Compares tables)
    (hr : (tables p.base).lookup p.table id = some r) :
    (∃ e ∈ p.differences tables, e.id = id) ↔
      p.inScope (tables p.base) r = true ∧
        ¬ (tables p.base).AgreeAt p.table (tables p.target) id := by
  obtain ⟨hmem, rfl⟩ := h.base.lookup_eq_some.mp hr
  constructor
  · rintro ⟨e, he, hid⟩
    rcases List.mem_append.mp he with he | he
    · obtain ⟨r', hr', hevent⟩ := List.mem_filterMap.mp he
      obtain ⟨hr', hscope⟩ := List.mem_filter.mp hr'
      obtain ⟨k, hk, rfl⟩ := Option.map_eq_some_iff.mp hevent
      obtain rfl := h.base.eq_of_idOf_eq hr' hmem hid
      refine ⟨hscope, fun hagree => ?_⟩
      have hnone : p.forwardKind tables r' = none := (h.forwardKind_eq_none hmem).mpr hagree
      cases hnone.symm.trans hk
    · -- the base has the identity, so of a row of the target with it nothing is found
      obtain ⟨r', -, hevent⟩ := List.mem_filterMap.mp he
      obtain ⟨k, hk, rfl⟩ := Option.map_eq_some_iff.mp hevent
      have hid : (tables p.target).idOf p.table r' = (tables p.base).idOf p.table r := hid
      simp only [finding, backwardKind, hid, hr] at hk
      cases hk
  · rintro ⟨hscope, hnot⟩
    have hkind : p.forwardKind tables r ≠ none := fun hnone =>
      hnot ((h.forwardKind_eq_none hmem).mp hnone)
    obtain ⟨k, hk⟩ := Option.ne_none_iff_exists'.mp hkind
    have hevent : p.eventOf (p.finding tables .forward r) =
        some ⟨(tables p.base).idOf p.table r, k, p.direction⟩ := by
      simp only [eventOf, finding, hk, Option.map_some]
    exact ⟨_, List.mem_append_left _ (List.mem_filterMap.mpr
      ⟨r, List.mem_filter.mpr ⟨hmem, hscope⟩, hevent⟩), rfl⟩

theorem compares_of_twins (h : Twins p.table tables) (hacross : p.target = p.base.other) :
    p.Compares tables where
  base := h.keyed p.base
  target := h.keyed p.target
  columns := hacross ▸ h.columns p.base

/-- **A row that has been copied is reported again exactly when it holds a NaN.** -/
theorem reports_copied_iff {tables' : Side → Table} {e : Event} (hdirection : e.direction = p.base)
    (hacross : p.target = p.base.other) (h : Twins p.table tables)
    (hrepaired : Repaired p.table e tables tables')
    (hr : (tables p.base).lookup p.table e.id = some r) :
    (∃ e' ∈ p.differences tables', e'.id = e.id) ↔
      p.inScope (tables p.base) r = true ∧ ∃ v ∈ r, v.isNaN = true := by
  have hcompares := compares_of_twins (hrepaired.twins h) hacross
  have hbase : tables' p.base = tables p.base := hdirection ▸ hrepaired.base
  have hsame : (tables' p.target).content p.table e.id = (tables p.base).content p.table e.id := by
    rw [hacross, ← hdirection]
    exact hrepaired.same
  rw [Table.content, Table.content, hr, Option.map_some, Option.map_eq_some_iff] at hsame
  obtain ⟨new, hnew, hcells⟩ := hsame
  rw [← hbase] at hr
  rw [hcompares.reports_iff hr, hbase]
  refine and_congr_right fun _ => ?_
  -- the row in the target has the cells of the row in the base
  have hagree : (tables p.base).AgreeAt p.table (tables' p.target) e.id ↔
      ∀ c, (tables' p.target).HasColumn c →
        ((tables p.base).cell r c).equals ((tables p.base).cell r c) = true := by
    rw [Table.AgreeAt, ← hbase, hr, hnew, Option.rel_some_some, Table.SameRow, hcells, hbase]
  have hkeyed : (tables p.base).Keyed p.table := h.keyed p.base
  have hcolumns : (tables p.base).SameColumns (tables' p.target) := hbase ▸ hcompares.columns
  have hmem : r ∈ (tables p.base).rows := (hkeyed.lookup_eq_some.mp (hbase ▸ hr)).1
  rw [hagree, hkeyed.equals_self_iff hcolumns hmem]
  simp

end

/-! ## Validations of copies -/

open Scanning (sideBySide)

/-- A full validation of a table and an exact copy publishes the rows that are not equal to
themselves. -/
theorem ends_copy_validated (hs : Sql.IsName p.sort) (hid : p.byId = true) (hfull : p.isFull = true)
    (hbase : (tables p.base).Fits p.table) (hcopy : (tables p.target).IsCopy (tables p.base))
    (hutime : 0 < p.utimeAfter → (tables p.base).HasColumn p.table.utimeColumn) :
    Ends (Validating.Step p (sideBySide tables))
      (fun v => ∃ tally, v.outcome? = some (.ok tally) ∧
        (v.shared.map (·.2)).Perm (p.selfUnequal (tables p.base)))
      (Validating.start p []) := by
  have hutime' : 0 < p.utimeAfter → (tables p.target).HasColumn p.table.utimeColumn := fun hu => by
    rw [Table.HasColumn, Table.place?, hcopy.columns]
    exact hutime hu
  have hends := Plan.ends_reported hs hid hfull (.of_byId hid hbase hutime)
    (.of_byId hid (hcopy.fits hbase) hutime')
  refine hends.mono ?_
  rintro v - ⟨tally, hout, hreported⟩
  exact ⟨tally, hout, differences_of_copy hbase hcopy ▸ hreported.differences⟩

/-- A full validation after a repair reports the repaired row exactly when it holds a NaN. -/
theorem ends_copied_validated {tables' : Side → Table} {e : Event} {r : List Value}
    (hs : Sql.IsName p.sort) (hid : p.byId = true) (hfull : p.isFull = true)
    (hdirection : e.direction = p.base) (hacross : p.target = p.base.other)
    (h : Twins p.table tables) (hrepaired : Repaired p.table e tables tables')
    (hutime : 0 < p.utimeAfter → ∀ d, (tables d).HasColumn p.table.utimeColumn)
    (hr : (tables p.base).lookup p.table e.id = some r) :
    Ends (Validating.Step p (sideBySide tables'))
      (fun v => ∃ tally, v.outcome? = some (.ok tally) ∧
        ((∃ x ∈ v.shared, x.2.id = e.id) ↔
          p.inScope (tables p.base) r = true ∧ ∃ v ∈ r, v.isNaN = true))
      (Validating.start p []) := by
  have hutime' : ∀ d, 0 < p.utimeAfter → (tables' d).HasColumn p.table.utimeColumn := fun d hu => by
    rw [Table.HasColumn, Table.place?, hrepaired.columns d]
    exact hutime hu d
  have hfits : ∀ d, (tables' d).Fits p.table := fun d => ((hrepaired.twins h).keyed d).toFits
  have hends := Plan.ends_reported hs hid hfull (.of_byId hid (hfits p.base) (hutime' p.base))
    (.of_byId hid (hfits p.target) (hutime' p.target))
  refine hends.mono ?_
  rintro v - ⟨tally, hout, hreported⟩
  refine ⟨tally, hout, ?_⟩
  rw [← reports_copied_iff hdirection hacross h hrepaired hr]
  have hmem : ∀ e, e ∈ v.shared.map (·.2) ↔ e ∈ p.differences tables' := fun e =>
    hreported.differences.mem_iff
  simp only [← hmem, List.mem_map, exists_exists_and_eq_and]

/-- **Nothing but a NaN tells a row from its exact copy.**  A record is equal to a record that was
decoded from the same row exactly when the cells of one name, letter case aside, hold equal values;
if no two names differ in letter case only, this is so exactly when no value is a NaN.  So a full
validation of a table and an exact copy publishes that the rows in scope which are not equal to
themselves differ, and nothing else; and one that comes after a repair of a row of the base reports
this row exactly when it is in scope and holds a NaN. -/
theorem only_nan_tells_copies_apart (hs : Sql.IsName p.sort) (hid : p.byId = true)
    (hfull : p.isFull = true) :
    (∀ (row : Row) (idColumn : String) (a b : Record), Record.ofRow? row idColumn = .ok a →
      Record.ofRow? row idColumn = .ok b → (a.equals b = true ↔ row.Coherent) ∧
        (row.Distinct → (row.Coherent ↔ ∀ v ∈ row.values, v.isNaN = false))) ∧
    (∀ tables : Side → Table, (tables p.base).Fits p.table →
      (tables p.target).IsCopy (tables p.base) →
      (0 < p.utimeAfter → (tables p.base).HasColumn p.table.utimeColumn) →
      Ends (Validating.Step p (sideBySide tables))
        (fun v => ∃ tally, v.outcome? = some (.ok tally) ∧
          (v.shared.map (·.2)).Perm (p.selfUnequal (tables p.base)))
        (Validating.start p [])) ∧
    (∀ (f : Fixer) (st : Stores) (id : Int64) (r : List Value), p.target = p.base.other →
      Twins p.table st.tables → f.Copies p.base p.table (st.tables p.base).columns →
      (0 < p.utimeAfter → ∀ d, (st.tables d).HasColumn p.table.utimeColumn) →
      (st.tables p.base).lookup p.table id = some r →
      (f.fix id).Ensures Stores.Answers (fun result st' =>
        (st.faults = 0 → ∃ o, result = .ok o) ∧
        ∀ o, result = .ok o → Ends (Validating.Step p (sideBySide st'.tables))
          (fun v => ∃ tally, v.outcome? = some (.ok tally) ∧
            ((∃ x ∈ v.shared, x.2.id = id) ↔
              p.inScope (st.tables p.base) r = true ∧ ∃ v ∈ r, v.isNaN = true))
          (Validating.start p [])) st) := by
  refine ⟨?_, fun tables => ends_copy_validated hs hid hfull, ?_⟩
  · intro row idColumn a b ha hb
    obtain rfl := Except.ok.inj (ha.symm.trans hb)
    obtain rfl := (Record.ofRow?_eq_ok_iff.mp ha).2
    exact ⟨Record.equals_self_iff, Row.Distinct.coherent_iff⟩
  · intro f st id r hacross htwins hf hutime hr
    -- a repair is told by an event, of which only the identity and the store that it names count
    have hfixed := Fixer.ensures_fix_repaired (e := ⟨id, .notEqual, p.base⟩) hf htwins
    refine hfixed.mono ?_
    rintro result st' (⟨o, rfl, hrepaired, -⟩ | ⟨⟨x, rfl⟩, hlt⟩)
    · exact ⟨fun _ => ⟨o, rfl⟩, fun _ _ =>
        ends_copied_validated hs hid hfull rfl hacross htwins hrepaired hutime hr⟩
    · refine ⟨fun hzero => ?_, ?_⟩
      · omega
      · rintro o ⟨⟩

/-- A table with a row that holds a NaN. -/
def nanTable : Table :=
  ⟨"items", "id", ["id", "utime", "size"],
    [[.int 1, .int 5, .float .nan], [.int 2, .int 7, .float (.zero true)],
      [.int 3, .int 2, .float .nan]]⟩

/-- Two stores of which both have this table. -/
def nanStores : Stores := ⟨fun _ => { table := nanTable }, 0⟩

/-- A fixer for this table. -/
def nanFixer : Fixer := ⟨.store .src, .store .dst, .items, .sqlite, nanTable.columns⟩

/-- A validation finds the one row in scope that holds a NaN, and finds it again after a repair. -/
theorem only_nan_tells_copies_apart_sample :
    (Sql.IsName fullPlan.sort ∧ fullPlan.byId = true ∧ fullPlan.isFull = true) ∧
    Ends (Validating.Step fullPlan (sideBySide nanStores.tables))
      (fun v => ∃ tally, v.outcome? = some (.ok tally) ∧
        (v.shared.map (·.2)).Perm [⟨1, .notEqual, .src⟩]) (Validating.start fullPlan []) ∧
    (nanFixer.fix 1).Ensures Stores.Answers (fun result st' =>
      (∃ o, result = .ok o) ∧ Ends (Validating.Step fullPlan (sideBySide st'.tables))
        (fun v => ∃ tally, v.outcome? = some (.ok tally) ∧ ∃ x ∈ v.shared, x.2.id = 1)
        (Validating.start fullPlan [])) nanStores := by
  have hs : Sql.IsName fullPlan.sort := by decide
  have hid : fullPlan.byId = true := by decide +kernel
  obtain ⟨-, hvalidated, hrepaired⟩ := only_nan_tells_copies_apart hs hid rfl
  have hkeyed : nanTable.Keyed TableSpec.items := by decide +kernel
  have hutime : nanTable.HasColumn fullPlan.table.utimeColumn := by decide +kernel
  have hevents : fullPlan.selfUnequal nanTable = [⟨1, .notEqual, .src⟩] := by decide +kernel
  have hcopied := hrepaired nanFixer nanStores 1 [.int 1, .int 5, .float .nan] rfl
    ⟨fun _ => hkeyed, fun _ _ => Iff.rfl⟩ ⟨rfl, rfl, rfl, rfl⟩ (fun _ _ => hutime)
      (by decide +kernel)
  refine ⟨⟨hs, hid, rfl⟩, ?_, hcopied.mono ?_⟩
  · exact hevents ▸ hvalidated nanStores.tables hkeyed.toFits ⟨rfl, rfl, .refl _⟩ fun _ => hutime
  · rintro result st' ⟨hok, hends⟩
    obtain ⟨o, ho⟩ := hok rfl
    refine ⟨⟨o, ho⟩, (hends o ho).mono ?_⟩
    rintro v - ⟨tally, hout, hreported⟩
    exact ⟨tally, hout, hreported.mpr (by decide +kernel)⟩

end Plan

/-- **A row that holds a NaN is not equal to its exact copy.** -/
theorem Record.nan_is_unlike_its_copy :
    ¬ ∀ (row : Row) (a b : Record), row.Distinct → Record.ofRow? row "id" = .ok a →
      Record.ofRow? row "id" = .ok b → a.equals b = true := by
  intro hall
  let row : Row := ⟨[("id", .int 1), ("size", .float .nan)]⟩
  have hrow : Record.ofRow? row "id" = .ok ⟨1, row⟩ :=
    Record.ofRow?_eq_ok_iff.mpr ⟨by decide +kernel, rfl⟩
  have hequal := hall row _ _ (by decide +kernel) hrow hrow
  exact absurd hequal (by decide +kernel)

end Cutover
