import Cutover.Proofs.Table.Write

/-! # What a table holds under an identity

A table holds no row under an identity, or a row with a cell under every name (`Table.content`).
Two tables hold the same when these are equal, whatever the order of their columns.  What a write of
one row does can be told by what it makes of the content there (`Table.RowWrite`).
-/

namespace Cutover

open Sql

namespace Table

/-- What a table holds under an identity: no row, or the cells of its row. -/
def content (t : Table) (s : TableSpec) (id : Int64) : Option (String → Value) :=
  (t.lookup s id).map t.cell

/-- The table is the migrated one and has these columns, in whatever order. -/
structure Suits (t : Table) (s : TableSpec) (columns : List String) : Prop where
  keyed : t.Keyed s
  columns : ∀ c, c ∈ columns ↔ c ∈ t.columns

section
variable {b t t' : Table} {s : TableSpec} {id : Int64} {columns : List String}

theorem cell_of_not_hasColumn {c : String} (h : ¬ t.HasColumn c) (r : List Value) :
    t.cell r c = .null := by
  rw [HasColumn, Option.not_isSome_iff_eq_none] at h
  rw [cell, h]

/-- The table after a write holds what has been written. -/
theorem Wrote.content {row : Option (List Value)} (h : t.Wrote s id row t') :
    t'.content s id = row.map t.cell := by
  rw [Table.content, h.there, cell_of_columns_eq h.columns]

theorem Wrote.suits {row : Option (List Value)} (h : t.Wrote s id row t') (ht : t.Suits s columns) :
    t'.Suits s columns where
  keyed := h.keyed
  columns := h.columns ▸ ht.columns

/-- Rows that hold the same under the names of the columns hold the same. -/
theorem SameColumns.cell_eq (h : b.SameColumns t) {r new : List Value}
    (hnew : ∀ c, t.HasColumn c → t.cell new c = b.cell r c) : t.cell new = b.cell r := by
  funext c
  by_cases hc : t.HasColumn c
  · exact hnew c hc
  · have hb : ¬ b.HasColumn c := by
      intro hb
      obtain ⟨x, hx, hxc⟩ := hasColumn_iff.mp hb
      exact hc (hasColumn_iff.mpr ⟨x, (h x).mp hx, hxc⟩)
    rw [cell_of_not_hasColumn hc, cell_of_not_hasColumn hb]

end

/-! ## Writes of one row -/

/-- What a write makes of the content under an identity; nothing when it is refused there. -/
abbrev RowEffect : Type := Option (String → Value) → Option (Option (String → Value))

/-- **A statement writes the row of an identity** in tables with these columns: whether it is
carried out depends on what the table holds there, and so does what it leaves there.  What it does
to other rows is not said. -/
structure RowWrite (run : Statement → Table → Except StoreError (Answer × Table)) (s : TableSpec)
    (columns : List String) (id : Int64) (st : Statement) (effect : RowEffect) : Prop where
  refused : ∀ t, t.Suits s columns → effect (t.content s id) = none → ∃ e, run st t = .error e
  done : ∀ t c, t.Suits s columns → effect (t.content s id) = some c →
    ∃ a t', run st t = .ok (a, t') ∧ t'.Keyed s ∧ t'.columns = t.columns ∧ t'.content s id = c

section
variable {s : TableSpec} {columns : List String} {id : Int64}

/-- A deletion leaves nothing, whatever there was. -/
theorem rowWrite_deleteById (d : Dialect) :
    RowWrite (fun st t => t.runStatement st) s columns id ((s.deleteById id).statement d)
      fun _ => some none where
  refused := by
    rintro t - ⟨⟩
  done := by
    rintro t c ht ⟨⟩
    obtain ⟨n, t', hrun, hwrote⟩ := ht.keyed.deleteById_answer d id
    exact ⟨_, t', hrun, hwrote.keyed, hwrote.columns, hwrote.content⟩

/-- An upsert leaves its cells, whatever there was. -/
theorem rowWrite_upsert (d : Dialect) (hvalid : ∀ c ∈ columns, Identifier.isValid c = true)
    (hid : s.idColumn ∈ columns) {f : String → Value} (hf : ∀ x y, sameName x y = true → f x = f y)
    (hfid : f s.idColumn = .int id) :
    RowWrite (fun st t => t.runStatement st) s columns id
      ((⟨s.upsertCommand columns, columns.map f⟩ : BoundCommand).statement d)
      fun _ => some (some fun c => if columns.any (fun x => sameName x c) then f c else .null) where
  refused := by
    rintro t - ⟨⟩
  done := by
    intro t c ht hc
    obtain rfl := Option.some.inj hc
    -- any table with the columns of the statement stands for the one that a row would be taken from
    have hsame : (⟨s.name, s.idColumn, columns, []⟩ : Table).SameColumns t := ht.columns
    obtain ⟨n, new, t', hrun, hwrote, hcells⟩ := ht.keyed.insert_upsertCommand hsame hf hfid
    have hread := t.runStatement_statement d
      (b := ⟨s.upsertCommand columns, columns.map f⟩)
      (s.readable_upsertCommand (List.ne_nil_of_mem hid) hvalid)
      (s.sameName_key_upsertCommand ht.keyed.key _)
    refine ⟨_, t', hread.trans hrun, hwrote.keyed, hwrote.columns, ?_⟩
    rw [hwrote.content, Option.map_some]
    congr 1
    funext c
    have hcolumn : t.HasColumn c ↔ columns.any (fun x => sameName x c) = true := by
      rw [hasColumn_iff, List.any_eq_true]
      exact exists_congr fun x => and_congr_left fun _ => (ht.columns x).symm
    split
    · exact hcells c (hcolumn.mpr ‹_›)
    · exact cell_of_not_hasColumn (fun hc => absurd (hcolumn.mp hc) ‹_›) new

end
end Table
end Cutover
