import Cutover.Proofs.Table.Change

/-! # Writing rows by identity

The two statements that change a table do so under one identity: of the map from identities to rows
only the place of this identity changes (`Wrote`).  An upsert of a row puts a row there that holds
under every name what the given row holds (`upsert_answer`), whether the table had a row there or
not and in whatever order its columns stand; a deletion leaves nothing there (`deleteById_answer`).

For an upsert to be told apart from a new row the key of the table has to be the identity, and for
every cell to be overwritten the names of the columns have to differ (`Keyed`).
-/

namespace Cutover

open Sql

namespace Table

/-! ## Tables that are keyed by identity -/

/-- The table is the migrated one, its key is the identity, and the names of its columns are
identifiers that differ. -/
structure Keyed (t : Table) (s : TableSpec) : Prop extends t.Fits s where
  key : sameName t.key s.idColumn = true
  valid : ∀ c ∈ t.columns, Identifier.isValid c = true
  distinct : t.columns.Pairwise fun a b => sameName a b = false

theorem keyed_iff {t : Table} {s : TableSpec} : t.Keyed s ↔
    t.Fits s ∧ sameName t.key s.idColumn = true ∧ (∀ c ∈ t.columns, Identifier.isValid c = true) ∧
      t.columns.Pairwise fun a b => sameName a b = false :=
  ⟨fun h => ⟨h.toFits, h.key, h.valid, h.distinct⟩, fun ⟨hf, hk, hv, hd⟩ => ⟨hf, hk, hv, hd⟩⟩

instance (t : Table) (s : TableSpec) : Decidable (t.Keyed s) := decidable_of_iff _ keyed_iff.symm

/-- The table after a write under an identity: it has the given row there, or none, and everywhere
else the rows it had. -/
structure Wrote (t : Table) (s : TableSpec) (id : Int64) (row : Option (List Value)) (t' : Table) :
    Prop where
  keyed : t'.Keyed s
  columns : t'.columns = t.columns
  there : t'.lookup s id = row
  elsewhere : ∀ other, other ≠ id → t'.lookup s other = t.lookup s other

section
variable {b t t' : Table} {s : TableSpec} {id : Int64} {r : List Value}

/-- A change that keeps the other rows is a write of what is there afterwards. -/
theorem Keyed.wrote (h : t.Keyed s) (hkeeps : t.KeepsOthers s id t') {row : Option (List Value)}
    (hthere : t'.lookup s id = row) : t.Wrote s id row t' where
  keyed :=
    { toFits := hkeeps.fits
      key := hkeeps.key ▸ h.key
      valid := hkeeps.columns ▸ h.valid
      distinct := hkeeps.columns ▸ h.distinct }
  columns := hkeeps.columns
  there := hthere
  elsewhere := fun _ hne => hkeeps.lookup hne

/-- **A deletion leaves nothing under its identity.** -/
theorem Keyed.deleteById_answer (h : t.Keyed s) (d : Dialect) (id : Int64) :
    ∃ n t', t.runStatement ((s.deleteById id).statement d) = .ok (⟨[], n⟩, t') ∧
      t.Wrote s id none t' :=
  ⟨_, _, h.deleteById_eq d id, h.wrote (h.keepsOthers_without id) lookup_without⟩

/-! ## Upserts -/

/-- The tables have columns of the same names. -/
def SameColumns (b t : Table) : Prop := ∀ c, c ∈ b.columns ↔ c ∈ t.columns

/-- The tables have each other's columns. -/
theorem SameColumns.any_sameName (h : b.SameColumns t) {c : String} (hc : t.HasColumn c) :
    b.columns.any (fun x => sameName x c) = true := by
  obtain ⟨x, hx, hxc⟩ := hasColumn_iff.mp hc
  exact List.any_eq_true.mpr ⟨x, (h x).mpr hx, hxc⟩

/-- What an upsert of a row's cells does to a table that has columns of the same names. -/
theorem Keyed.insert_upsertCommand (ht : t.Keyed s) (h : b.SameColumns t) {f : String → Value}
    (hf : ∀ x y, sameName x y = true → f x = f y) (hid : f s.idColumn = .int id) :
    ∃ n new t', t.run (s.upsertCommand b.columns) (b.columns.map f) = .ok (⟨[], n⟩, t') ∧
      t.Wrote s id (some new) t' ∧ ∀ c, t.HasColumn c → t.cell new c = f c := by
  have hlisted := h.any_sameName ht.id_column
  obtain ⟨n, t', hrun, hupserted⟩ := ht.toFits.insert_upsertCommand ht.key
    (fun c hc => hasColumn_of_mem ((h c).mp hc)) hlisted hf hid
  obtain ⟨new, hthere, hcells⟩ := hupserted.lookup ht.toFits hlisted hf hid
  exact ⟨n, new, t', hrun, ht.wrote (hupserted.keepsOthers ht.toFits hlisted hid) hthere,
    fun c hc => hcells c hc (h.any_sameName hc)⟩

/-- **An upsert of a row puts a row under its identity that holds the same under every name.** -/
theorem Keyed.upsert_answer (hb : b.Keyed s) (ht : t.Keyed s) (h : b.SameColumns t)
    (hr : r ∈ b.rows) (d : Dialect) :
    ∃ bound n new t', s.upsert (b.shown none r) b.columns = .ok bound ∧
      t.runStatement (bound.statement d) = .ok (⟨[], n⟩, t') ∧
      t.Wrote s (b.idOf s r) (some new) t' ∧ ∀ c, t.HasColumn c → t.cell new c = b.cell r c := by
  have hne : b.columns ≠ [] := by
    obtain ⟨x, hx, -⟩ := hasColumn_iff.mp hb.id_column
    exact List.ne_nil_of_mem hx
  have hget : ∀ c ∈ b.columns, (b.shown none r).get? c = some (b.cell r c) := fun c hc =>
    get?_shown (hb.width r hr) (hasColumn_of_mem hc) (by rintro l ⟨⟩)
  have hcells : b.columns.map (b.shown none r).cell = b.columns.map (b.cell r) :=
    List.map_congr_left fun c hc => by rw [Row.cell, hget c hc, Option.getD_some]
  have hupsert : s.upsert (b.shown none r) b.columns =
      .ok ⟨s.upsertCommand b.columns, b.columns.map (b.cell r)⟩ := by
    refine TableSpec.upsert_eq_ok_iff.mpr ⟨⟨hne, fun c hc => ⟨hb.valid c hc, ?_⟩⟩, ?_⟩
    · rw [hget c hc, Option.isSome_some]
    · rw [hcells]
  obtain ⟨n, new, t', hrun, hwrote, hnew⟩ :=
    ht.insert_upsertCommand h (fun _ _ hxy => cell_congr hxy) (hb.cell_id hr)
  refine ⟨_, n, new, t', hupsert, ?_, hwrote, hnew⟩
  rw [t.runStatement_statement d (s.readable_upsertCommand hne hb.valid)
    (s.sameName_key_upsertCommand ht.key _)]
  exact hrun

end
end Table
end Cutover
