import Cutover.Proofs.Table.Lookup

/-! # Changing rows by identity

The two statements that change a table, and what they make of its rows.

A deletion leaves out the row of its identity (`Fits.deleteById_eq`).  An upsert is made of a row
and a list of columns, and there is one as soon as the list is not empty and names only columns of
the row (`TableSpec.upsert_eq_ok_iff`).  A table that has these columns puts the cells of the row in
place of its own in the row of the same identity, or adds a row with them if it has none
(`Upserted`, `Fits.insert_upsertCommand`).  The columns need not be all that the table has, nor
stand in its order or be spelled as it spells them; what counts is their names without letter case.

Either statement leaves all other rows as they are (`KeepsOthers`).  For the row of the same
identity to be found by an upsert, the key of the table has to be the identity.
-/

namespace Cutover

open Sql

/-! ## The statement -/

/-- The cell of a column; the absent value if the row has no such column. -/
def Row.cell (row : Row) (column : String) : Value := (row.get? column).getD .null

theorem Row.cell_congr {row : Row} {c d : String} (h : sameName c d = true) :
    row.cell c = row.cell d := by
  rw [cell, cell, get?_congr h]

namespace TableSpec

variable {s : TableSpec} {row : Row} {columns : List String}

theorem cellsOf_cons {c : String} {vs : List Value} :
    cellsOf row (c :: columns) = .ok vs ↔ Identifier.isValid c = true ∧
      ∃ v ws, row.get? c = some v ∧ cellsOf row columns = .ok ws ∧ v :: ws = vs := by
  rw [cellsOf, checkIdentifier]
  by_cases hvalid : Identifier.isValid c = true
  · cases row.get? c <;> cases cellsOf row columns <;>
      simp [hvalid, bind, Except.bind, pure, Except.pure]
  · simp [hvalid, bind, Except.bind]

/-- The cells of a row are told under identifiers that are columns of the row, and under nothing
else. -/
theorem cellsOf_eq_ok_iff {vs : List Value} :
    cellsOf row columns = .ok vs ↔
      (∀ c ∈ columns, Identifier.isValid c = true ∧ (row.get? c).isSome = true) ∧
        vs = columns.map row.cell := by
  induction columns generalizing vs with
  | nil =>
    rw [cellsOf, Except.ok.injEq]
    exact ⟨fun h => ⟨nofun, h.symm⟩, fun h => h.2.symm⟩
  | cons c columns ih =>
    rw [cellsOf_cons, List.forall_mem_cons, List.map_cons]
    constructor
    · rintro ⟨hvalid, v, ws, hv, hws, rfl⟩
      obtain ⟨hall, rfl⟩ := ih.mp hws
      exact ⟨⟨⟨hvalid, by rw [hv]; rfl⟩, hall⟩, by rw [Row.cell, hv]; rfl⟩
    · rintro ⟨⟨⟨hvalid, hsome⟩, hall⟩, rfl⟩
      obtain ⟨v, hv⟩ := Option.isSome_iff_exists.mp hsome
      exact ⟨hvalid, v, _, hv, ih.mpr ⟨hall, rfl⟩, by rw [Row.cell, hv]; rfl⟩

/-- **There is an upsert of the columns if there are any, and each is an identifier and a column of
the row.** -/
theorem upsert_eq_ok_iff {b : BoundCommand} :
    s.upsert row columns = .ok b ↔
      (columns ≠ [] ∧ ∀ c ∈ columns, Identifier.isValid c = true ∧ (row.get? c).isSome = true) ∧
        b = ⟨s.upsertCommand columns, columns.map row.cell⟩ := by
  have hupsert : columns ≠ [] → s.upsert row columns =
      cellsOf row columns >>= fun vs => pure ⟨s.upsertCommand columns, vs⟩ := fun hne =>
    if_neg (by simpa using hne)
  constructor
  · intro h
    have hne : columns ≠ [] := by
      rintro rfl
      cases h
    rw [hupsert hne] at h
    cases hcells : cellsOf row columns with
    | error e =>
      rw [hcells] at h
      cases h
    | ok vs =>
      obtain ⟨hall, rfl⟩ := cellsOf_eq_ok_iff.mp hcells
      rw [hcells] at h
      cases h
      exact ⟨⟨hne, hall⟩, rfl⟩
  · rintro ⟨⟨hne, hall⟩, rfl⟩
    rw [hupsert hne, cellsOf_eq_ok_iff.mpr ⟨hall, rfl⟩]
    rfl

end TableSpec

namespace Table

/-! ## Changing one row -/

section
variable {test : List Value → Bool} {change : List Value → List Value}

theorem changeFirst_congr {test' : List Value → Bool} {rows : List (List Value)}
    (h : ∀ r ∈ rows, test r = test' r) :
    changeFirst test change rows = changeFirst test' change rows := by
  induction rows with
  | nil => rfl
  | cons r rows ih =>
    rw [changeFirst, changeFirst, h r List.mem_cons_self,
      ih fun r' hr' => h r' (List.mem_cons_of_mem _ hr')]

/-- The first row that satisfies the test is the one that changes. -/
theorem changeFirst_append {before after : List (List Value)} {old : List Value}
    (hbefore : ∀ r ∈ before, test r = false) (hold : test old = true) :
    changeFirst test change (before ++ old :: after) = before ++ change old :: after := by
  induction before with
  | nil => exact if_pos hold
  | cons r before ih =>
    rw [List.forall_mem_cons] at hbefore
    rw [List.cons_append, changeFirst, if_neg (Bool.eq_false_iff.mp hbefore.1), ih hbefore.2,
      List.cons_append]

end

/-! ## Cells of new rows -/

/-- The arguments of an insertion stand under its columns, so a column of the table gets the
argument of the column of this name. -/
theorem find?_zip_range' {cs : List String} {c : String} (hc : ∃ x ∈ cs, sameName x c = true)
    (n : Nat) : ∃ i, ∃ hi : i < cs.length, sameName cs[i] c = true ∧
      (cs.zip (List.range' n cs.length)).find? (fun p => sameName p.1 c) = some (cs[i], n + i) := by
  induction cs generalizing n with
  | nil =>
    obtain ⟨x, hx, -⟩ := hc
    cases hx
  | cons a cs ih =>
    have hzip : (a :: cs).zip (List.range' n (a :: cs).length) =
        (a, n) :: cs.zip (List.range' (n + 1) cs.length) := by
      rw [List.length_cons, List.range'_succ, List.zip_cons_cons]
    by_cases ha : sameName a c = true
    · exact ⟨0, Nat.succ_pos _, ha, by rw [hzip]; simp [ha]⟩
    · have hc' : ∃ x ∈ cs, sameName x c = true := by
        obtain ⟨x, hx, hxc⟩ := hc
        rcases List.mem_cons.mp hx with rfl | hx
        · exact absurd hxc ha
        · exact ⟨x, hx, hxc⟩
      obtain ⟨i, hi, hname, hfind⟩ := ih hc' (n + 1)
      refine ⟨i + 1, Nat.succ_lt_succ hi, hname, ?_⟩
      rw [Bool.not_eq_true] at ha
      rw [hzip, List.find?_cons]
      simp only [ha, hfind, List.getElem_cons_succ]
      rw [Nat.add_assoc, Nat.add_comm 1 i]

section
variable {t : Table} {c : String}

/-- The place of a column is the place of the same name. -/
theorem place?_eq_some {i : Nat} (h : t.place? c = some i) :
    ∃ hi : i < t.columns.length, sameName t.columns[i] c = true := by
  obtain ⟨hi, hname, -⟩ := List.findIdx?_eq_some_iff_getElem.mp h
  exact ⟨hi, hname⟩

theorem hasColumn_iff : t.HasColumn c ↔ ∃ x ∈ t.columns, sameName x c = true := by
  rw [HasColumn, place?, List.findIdx?_isSome, List.any_eq_true]

theorem hasColumn_of_mem (h : c ∈ t.columns) : t.HasColumn c :=
  hasColumn_iff.mpr ⟨c, h, sameName_refl c⟩

/-- The cells of a row that is made column by column. -/
theorem cell_map {f : String → Value} (hf : ∀ x y, sameName x y = true → f x = f y)
    (hc : t.HasColumn c) : t.cell (t.columns.map f) c = f c := by
  obtain ⟨i, hi⟩ := Option.isSome_iff_exists.mp hc
  obtain ⟨hlt, hname⟩ := place?_eq_some hi
  simp only [cell, hi, cellAt, List.getElem?_map, List.getElem?_eq_getElem hlt]
  exact hf _ _ hname

theorem length_overwriteCells (cs : List String) (new old : List Value) :
    (t.overwriteCells cs new old).length = old.length := by
  unfold overwriteCells
  induction cs generalizing old with
  | nil => rfl
  | cons x cs ih =>
    rw [List.foldl_cons, ih]
    cases t.place? x with
    | none => rfl
    | some i => exact List.length_set

theorem cell_set {row : List Value} {i : Nat} {v : Value} (hw : row.length = t.columns.length)
    (hc : t.HasColumn c) :
    t.cell (row.set i v) c = if t.place? c = some i then v else t.cell row c := by
  obtain ⟨j, hj⟩ := Option.isSome_iff_exists.mp hc
  obtain ⟨hlt, -⟩ := place?_eq_some hj
  rw [cell, cell, hj]
  by_cases hij : i = j
  · subst hij
    simp [cellAt, hw, hlt]
  · simp [cellAt, hij, Ne.symm hij]

/-- **A row with some cells overwritten** holds the new cells there and its own everywhere else. -/
theorem cell_overwriteCells {cs : List String} {new old : List Value}
    (hw : old.length = t.columns.length) (hc : t.HasColumn c) :
    t.cell (t.overwriteCells cs new old) c =
      if cs.any fun x => sameName x c then t.cell new c else t.cell old c := by
  -- the columns are overwritten one after the other, so the induction keeps the row as it is then
  unfold overwriteCells
  induction cs generalizing old with
  | nil => rfl
  | cons x cs ih =>
    rw [List.foldl_cons, List.any_cons]
    cases hx : t.place? x with
    | none =>
      have hxc : sameName x c = false := by
        rw [Bool.eq_false_iff]
        intro h
        rw [HasColumn, ← place?_congr h, hx] at hc
        cases hc
      rw [ih hw, hxc, Bool.false_or]
    | some i =>
      rw [ih (by rw [List.length_set, hw]), cell_set hw hc]
      by_cases hxc : sameName x c = true
      · have hplace : t.place? c = some i := by rw [← place?_congr hxc, hx]
        have hcell : cellAt new i = t.cell new c := by rw [cell, hplace]
        simp [hxc, hplace, hcell]
      · have hplace : t.place? c ≠ some i := by
          intro h
          obtain ⟨_, hic⟩ := place?_eq_some h
          obtain ⟨_, hix⟩ := place?_eq_some hx
          apply hxc
          rw [sameName_iff, ← sameName_iff.mp hix, sameName_iff.mp hic]
        rw [Bool.not_eq_true] at hxc
        simp [hxc, hplace]

/-- The row that an upsert makes holds the given cells under the listed names, and nothing
elsewhere. -/
theorem cell_newRow {name : String} {columns : List String} {conflict : Conflict}
    {f : String → Value} (hf : ∀ x y, sameName x y = true → f x = f y) (hc : t.HasColumn c) :
    t.cell (t.newRow ⟨name, columns, List.range' 1 columns.length, conflict⟩ (columns.map f)) c =
      if columns.any fun x => sameName x c then f c else .null := by
  rw [newRow, cell_map (fun x y hxy => by simp only [sameName_congr hxy]) hc]
  by_cases hlisted : (columns.any fun x => sameName x c) = true
  · obtain ⟨j, hj, hname, hfind⟩ := find?_zip_range' (List.any_eq_true.mp hlisted) 1
    simp only [hfind, if_pos hlisted]
    rw [Nat.add_comm, argument, List.getElem?_map, List.getElem?_eq_getElem hj]
    exact hf _ _ hname
  · have hfind : (columns.zip (List.range' 1 columns.length)).find? (fun p => sameName p.1 c) =
        none := by
      rw [List.find?_eq_none]
      intro p hp hname
      exact hlisted (List.any_eq_true.mpr ⟨p.1, (List.of_mem_zip hp).1, hname⟩)
    simp only [hfind, if_neg hlisted]

/-- What an insertion does, once its names are found to be columns. -/
theorem insert_eq {i : Insert} {args : Args} (hname : sameName i.table t.name = true)
    (hcols : ∀ c ∈ i.mentioned, t.HasColumn c) (hkey : t.checkKey i.conflict = .ok ())
    (hlen : i.columns.length = i.arguments.length) :
    t.insert i args =
      if t.rows.any (t.sameKey (t.newRow i args)) then
        match i.conflict with
        | .refuse => .error refused
        | .keep _ => .ok (0, t)
        | .overwrite _ cs =>
          .ok (1, ⟨t.name, t.key, t.columns, changeFirst (t.sameKey (t.newRow i args))
            (t.overwriteCells cs (t.newRow i args)) t.rows⟩)
      else .ok (1, ⟨t.name, t.key, t.columns, t.rows ++ [t.newRow i args]⟩) := by
  rw [insert, checkInsert, checkName, if_pos hname, checkColumns_eq_ok hcols, hkey]
  simp only [hlen, ne_eq, not_true_eq_false, if_false]
  split
  · cases i.conflict <;> rfl
  · rfl

/-- An insertion into a column that is not there is refused. -/
theorem insert_refused {i : Insert} {args : Args} (hmissing : ∃ c ∈ i.columns, ¬ t.HasColumn c) :
    t.insert i args = .error refused := by
  have hnot : ¬ (i.mentioned.all fun c => (t.place? c).isSome) = true := by
    rw [List.all_eq_true]
    obtain ⟨c, hc, hnone⟩ := hmissing
    exact fun hall => hnone (hall c (List.mem_append_left _ hc))
  rw [insert, checkInsert, checkName, checkColumns, if_neg hnot]
  split <;> rfl

end

/-! ## The other rows -/

section
variable {t t' : Table}

theorem cell_of_columns_eq (h : t'.columns = t.columns) : t'.cell = t.cell := by
  funext r c
  rw [cell, cell, place?, place?, h]

theorem idOf_of_columns_eq (h : t'.columns = t.columns) (s : TableSpec) : t'.idOf s = t.idOf s := by
  funext r
  rw [idOf, idOf, number?, number?, cell_of_columns_eq h]

end

/-- The table after a change under an identity, as far as the other rows go: they are the rows it
had, in the order it had them. -/
structure KeepsOthers (t : Table) (s : TableSpec) (id : Int64) (t' : Table) : Prop where
  fits : t'.Fits s
  name : t'.name = t.name
  key : t'.key = t.key
  columns : t'.columns = t.columns
  others : (t'.rows.filter fun r => !(t.idOf s r == id)) = t.rows.filter fun r =>
    !(t.idOf s r == id)

section
variable {t t' : Table} {s : TableSpec} {id : Int64} {rows : List (List Value)}

/-- A table with other rows is still the migrated one if these have whole numbers for identities
that differ. -/
theorem Fits.with_rows (h : t.Fits s) (hw : ∀ r ∈ rows, r.length = t.columns.length)
    (hint : ∀ r ∈ rows, IsInt (t.cell r s.idColumn)) (hids : (rows.map (t.idOf s)).Nodup) :
    ({ t with rows } : Table).Fits s where
  name := h.name
  id_column := h.id_column
  width := hw
  id_int := hint
  id_unique := by
    rw [List.Nodup, List.pairwise_map] at hids
    refine hids.imp_of_mem fun {a b} _ _ hne heq => hne ?_
    have hcells : t.cell a s.idColumn = t.cell b s.idColumn := heq
    rw [idOf, idOf, number?, number?, hcells]

/-- Under any other identity there is the row that there was. -/
theorem KeepsOthers.lookup (h : t.KeepsOthers s id t') {other : Int64} (hne : other ≠ id) :
    t'.lookup s other = t.lookup s other := by
  have hfind : ∀ rows : List (List Value),
      rows.find? (fun r => t.idOf s r == other) =
        (rows.filter fun r => !(t.idOf s r == id)).find? fun r => t.idOf s r == other := by
    intro rows
    rw [List.find?_filter]
    refine congrArg (fun q => rows.find? q) (funext fun r => ?_)
    by_cases hr : t.idOf s r = other
    · simp [hr, hne]
    · simp [hr]
  rw [Table.lookup, Table.lookup, idOf_of_columns_eq h.columns, hfind, hfind t.rows, h.others]

/-! ## Deletions -/

/-- The table without the row of an identity. -/
def without (t : Table) (s : TableSpec) (id : Int64) : Table :=
  { t with rows := t.rows.filter fun r => !(t.idOf s r == id) }

/-- **A deletion leaves out the row of its identity**, and tells how many rows that were. -/
theorem Fits.deleteById_eq (h : t.Fits s) (d : Dialect) (id : Int64) :
    t.runStatement ((s.deleteById id).statement d) =
      .ok (⟨[], (t.lookup s id).toList.length⟩, t.without s id) := by
  have hholds : ∀ r ∈ t.rows, t.holdsAll [.equal s.idColumn 1] [.int id] r =
      (t.idOf s r == id) := by
    intro r hr
    simp [holdsAll, holds, h.number?_id hr, argumentNumber?, argument, Value.toInt64?, equalNumbers]
  have hrows : (t.rows.filter fun r => !t.holdsAll [.equal s.idColumn 1] [.int id] r) =
      t.rows.filter fun r => !(t.idOf s r == id) :=
    List.filter_congr fun r hr => by rw [hholds r hr]
  have hcount : t.rows.countP (t.holdsAll [.equal s.idColumn 1] [.int id]) =
      (t.lookup s id).toList.length := by
    rw [List.countP_congr (q := fun r => t.idOf s r == id) fun r hr => by rw [hholds r hr],
      List.countP_eq_length_filter, h.filter_idOf]
  have hcolumn : t.checkColumns [s.idColumn] = .ok () :=
    checkColumns_eq_ok fun c hc => List.mem_singleton.mp hc ▸ h.id_column
  have hdelete : t.delete s.name [.equal s.idColumn 1] [.int id] =
      .ok ((t.lookup s id).toList.length, t.without s id) := by
    rw [delete, checkName, if_pos h.name, hrows, hcount]
    show (t.checkColumns [s.idColumn] >>= fun _ => _) = _
    rw [hcolumn]
    rfl
  rw [t.runStatement_statement d (s.readable_deleteById id)]
  show (t.delete s.name [.equal s.idColumn 1] [.int id]).map _ = _
  rw [hdelete]
  rfl

theorem lookup_without : (t.without s id).lookup s id = none := by
  refine List.find?_eq_none.mpr fun r hr hid => ?_
  have hne := (List.mem_filter.mp hr).2
  rw [show (t.idOf s r == id) = true from hid] at hne
  cases hne

theorem Fits.keepsOthers_without (h : t.Fits s) (id : Int64) :
    t.KeepsOthers s id (t.without s id) where
  fits := by
    have hsub : (t.rows.filter fun r => !(t.idOf s r == id)).Sublist t.rows := List.filter_sublist
    exact h.with_rows (fun r hr => h.width r (hsub.subset hr))
      (fun r hr => h.id_int r (hsub.subset hr)) ((hsub.map (t.idOf s)).nodup h.nodup_ids)
  name := rfl
  key := rfl
  columns := rfl
  others := by simp [without]

end

/-! ## Upserts -/

/-- What an upsert makes of a table, together with the number of rows it changes: the given cells
stand under the listed names in the row of the identity, which keeps the others, or in a new row,
which has nothing elsewhere.  An upsert that lists the identity alone has nothing to change in a
row. -/
inductive Upserted (t : Table) (s : TableSpec) (id : Int64) (columns : List String)
    (f : String → Value) : Nat → Table → Prop
  | changed {before after : List (List Value)} {old new : List Value}
      (rows : t.rows = before ++ old :: after) (there : t.idOf s old = id)
      (some : ∃ c ∈ columns, sameName c s.idColumn = false) (width : new.length = old.length)
      (cells : ∀ c, t.HasColumn c →
        t.cell new c = if columns.any fun x => sameName x c then f c else t.cell old c) :
      Upserted t s id columns f 1 { t with rows := before ++ new :: after }
  | kept (there : id ∈ t.rows.map (t.idOf s)) (all : ∀ c ∈ columns, sameName c s.idColumn = true) :
      Upserted t s id columns f 0 t
  | added {new : List Value} (absent : id ∉ t.rows.map (t.idOf s))
      (width : new.length = t.columns.length)
      (cells : ∀ c, t.HasColumn c →
        t.cell new c = if columns.any fun x => sameName x c then f c else .null) :
      Upserted t s id columns f 1 { t with rows := t.rows ++ [new] }

section
variable {t t' : Table} {s : TableSpec} {id : Int64} {columns : List String} {f : String → Value}
    {n : Nat}

/-- The row under the identity of a new row is found by the key. -/
theorem Fits.sameKey_eq (h : t.Fits s) (hkey : sameName t.key s.idColumn = true)
    {new row : List Value} (hid : t.cell new s.idColumn = .int id) (hrow : row ∈ t.rows) :
    t.sameKey new row = (t.idOf s row == id) := by
  have hnew : t.number? new t.key = some id := by
    rw [number?_congr hkey, number?, hid]
    rfl
  rw [sameKey, hnew, number?_congr hkey, h.number?_id hrow]
  rfl

/-- An upsert overwrites the listed columns but that of the identity. -/
theorem any_overwritten (c : String) :
    ((s.overwritten columns).any fun x => sameName x c) =
      ((columns.any fun x => sameName x c) && !sameName c s.idColumn) := by
  rw [Bool.eq_iff_iff, Bool.and_eq_true, List.any_eq_true, List.any_eq_true]
  have hid : ∀ x, sameName x c = true → sameName x s.idColumn = sameName c s.idColumn :=
    fun x hx => by
    rw [sameName, sameName, sameName_iff.mp hx]
  constructor
  · rintro ⟨x, hx, hxc⟩
    obtain ⟨hx, hnot⟩ := List.mem_filter.mp hx
    exact ⟨⟨x, hx, hxc⟩, hid x hxc ▸ hnot⟩
  · rintro ⟨⟨x, hx, hxc⟩, hnot⟩
    exact ⟨x, List.mem_filter.mpr ⟨hx, (hid x hxc).symm ▸ hnot⟩, hxc⟩

/-- The row of the identity holds the given cells under the listed names once it has been
overwritten: the cell of the identity stays, and is what would be written. -/
theorem Fits.cell_overwritten (h : t.Fits s) {old new : List Value}
    (hold : t.lookup s id = some old) (hf : ∀ x y, sameName x y = true → f x = f y)
    (hid : f s.idColumn = .int id) (hcell : ∀ c, t.HasColumn c →
      t.cell new c = if columns.any fun x => sameName x c then f c else .null)
    {c : String} (hc : t.HasColumn c) :
    t.cell (t.overwriteCells (s.overwritten columns) new old) c =
      if columns.any fun x => sameName x c then f c else t.cell old c := by
  obtain ⟨hmem, hidold⟩ := h.lookup_eq_some.mp hold
  rw [cell_overwriteCells (h.width old hmem) hc, any_overwritten, hcell c hc]
  by_cases hcid : sameName c s.idColumn = true
  · have hcellold : t.cell old c = f c := by
      rw [cell_congr hcid, hf _ _ hcid, hid, h.cell_id hmem, hidold]
    simp [hcid, hcellold]
  · cases hlisted : columns.any fun x => sameName x c <;> simp [hcid]

/-- **What an upsert of given cells does to a table that has its columns.** -/
theorem Fits.insert_upsertCommand (h : t.Fits s) (hkey : sameName t.key s.idColumn = true)
    (hcolumns : ∀ c ∈ columns, t.HasColumn c)
    (hlisted : columns.any (fun x => sameName x s.idColumn) = true)
    (hf : ∀ x y, sameName x y = true → f x = f y) (hid : f s.idColumn = .int id) :
    ∃ n t', t.run (s.upsertCommand columns) (columns.map f) = .ok (⟨[], n⟩, t') ∧
      t.Upserted s id columns f n t' := by
  let conflict : Conflict :=
    if (s.overwritten columns).isEmpty then .keep (some s.idColumn)
    else .overwrite (some s.idColumn) (s.overwritten columns)
  let i : Insert := ⟨s.name, columns, List.range' 1 columns.length, conflict⟩
  obtain ⟨new, hnew⟩ : ∃ new, t.newRow i (columns.map f) = new := ⟨_, rfl⟩
  have hcell : ∀ c, t.HasColumn c →
      t.cell new c = if columns.any fun x => sameName x c then f c else .null := fun c hc =>
    hnew ▸ cell_newRow hf hc
  have hwidth : new.length = t.columns.length := hnew ▸ List.length_map _
  have hidnew : t.cell new s.idColumn = .int id := by rw [hcell _ h.id_column, if_pos hlisted, hid]
  have hkept : (s.overwritten columns).isEmpty = true → i.conflict = .keep (some s.idColumn) :=
    fun he => if_pos he
  have hover : ¬ (s.overwritten columns).isEmpty = true →
      i.conflict = .overwrite (some s.idColumn) (s.overwritten columns) := fun he => if_neg he
  have hmentioned : ∀ c ∈ i.mentioned, t.HasColumn c := by
    intro c hc
    refine hcolumns c ?_
    rcases List.mem_append.mp hc with hc | hc
    · exact hc
    · by_cases he : (s.overwritten columns).isEmpty = true
      · rw [hkept he] at hc
        cases hc
      · rw [hover he] at hc
        exact (List.mem_filter.mp hc).1
  have hchecked : t.checkKey i.conflict = .ok () := by
    rw [checkKey, if_pos]
    have hnamed : i.conflict.key? = some s.idColumn := s.key?_upsertCommand columns
    rwa [hnamed, Option.all_some, sameName_comm]
  have hinsert : t.insert i (columns.map f) = _ :=
    insert_eq h.name hmentioned hchecked (by simp [i])
  have hsame : ∀ row ∈ t.rows, t.sameKey new row = (t.idOf s row == id) := fun row hrow =>
    h.sameKey_eq hkey hidnew hrow
  have hrun : t.run (s.upsertCommand columns) (columns.map f) =
      (t.insert i (columns.map f)).map fun x => ({ affected := x.1 }, x.2) := rfl
  have hany : t.rows.any (t.sameKey new) = (t.lookup s id).isSome := by
    rw [Bool.eq_iff_iff, List.any_eq_true, lookup, List.find?_isSome]
    exact exists_congr fun row => and_congr_right fun hrow => by rw [hsame row hrow]
  rw [hrun, hinsert, hnew, hany]
  cases hlookup : t.lookup s id with
  | none => exact ⟨1, _, rfl, .added (lookup_eq_none.mp hlookup) hwidth hcell⟩
  | some old =>
    obtain ⟨hmem, hold⟩ := h.lookup_eq_some.mp hlookup
    rw [Option.isSome_some, if_pos rfl]
    by_cases he : (s.overwritten columns).isEmpty = true
    · rw [hkept he]
      refine ⟨0, t, rfl, .kept (List.mem_map.mpr ⟨old, hmem, hold⟩) fun c hc => ?_⟩
      by_contra hne
      have hover : c ∈ s.overwritten columns := List.mem_filter.mpr ⟨hc, by simpa using hne⟩
      rw [List.isEmpty_iff.mp he] at hover
      cases hover
    · obtain ⟨x, hx⟩ := List.exists_mem_of_ne_nil _ (mt List.isEmpty_iff.mpr he)
      obtain ⟨hx, hxid⟩ := List.mem_filter.mp hx
      obtain ⟨hfound, before, after, hrows, hbefore⟩ := List.find?_eq_some_iff_append.mp hlookup
      have hchange :
        changeFirst (t.sameKey new) (t.overwriteCells (s.overwritten columns) new) t.rows =
          before ++ t.overwriteCells (s.overwritten columns) new old :: after := by
        rw [changeFirst_congr hsame, hrows]
        exact changeFirst_append (fun r hr => by simpa using hbefore r hr) hfound
      rw [hover he]
      simp only [hchange]
      exact ⟨1, _, rfl, .changed hrows hold ⟨x, hx, by simpa using hxid⟩
        (length_overwriteCells _ _ _) fun c hc => h.cell_overwritten hlookup hf hid hcell hc⟩

theorem idOf_eq_of_cell {r : List Value} (h : t.cell r s.idColumn = .int id) : t.idOf s r = id := by
  rw [idOf, number?, h]
  rfl

/-- **An upsert leaves the other rows as they are.** -/
theorem Upserted.keepsOthers (hu : t.Upserted s id columns f n t') (h : t.Fits s)
    (hlisted : columns.any (fun x => sameName x s.idColumn) = true) (hid : f s.idColumn = .int id) :
    t.KeepsOthers s id t' := by
  cases hu with
  | kept => exact ⟨h, rfl, rfl, rfl, rfl⟩
  | @changed before after old new hrows hold _ hwidth hcells =>
    have hcell : t.cell new s.idColumn = .int id := by
      rw [hcells _ h.id_column, if_pos hlisted, hid]
    have hnew : t.idOf s new = id := idOf_eq_of_cell hcell
    have hw := h.width
    have hint := h.id_int
    have hids := h.nodup_ids
    rw [hrows, List.forall_mem_append, List.forall_mem_cons] at hw hint
    rw [hrows, List.map_append, List.map_cons, hold] at hids
    refine ⟨h.with_rows ?_ ?_ ?_, rfl, rfl, rfl, ?_⟩
    · rw [List.forall_mem_append, List.forall_mem_cons]
      exact ⟨hw.1, hwidth.trans hw.2.1, hw.2.2⟩
    · rw [List.forall_mem_append, List.forall_mem_cons]
      exact ⟨hint.1, ⟨id, hcell⟩, hint.2.2⟩
    · rw [List.map_append, List.map_cons, hnew]
      exact hids
    · simp [hrows, hnew, hold]
  | @added new habsent hwidth hcells =>
    have hcell : t.cell new s.idColumn = .int id := by
      rw [hcells _ h.id_column, if_pos hlisted, hid]
    have hnew : t.idOf s new = id := idOf_eq_of_cell hcell
    refine ⟨h.with_rows ?_ ?_ ?_, rfl, rfl, rfl, ?_⟩
    · rw [List.forall_mem_append, List.forall_mem_singleton]
      exact ⟨h.width, hwidth⟩
    · rw [List.forall_mem_append, List.forall_mem_singleton]
      exact ⟨h.id_int, ⟨id, hcell⟩⟩
    · rw [List.map_append, List.map_singleton, hnew, List.nodup_append]
      refine ⟨h.nodup_ids, List.nodup_singleton _, fun a ha b hb hab => ?_⟩
      exact habsent (List.mem_singleton.mp hb ▸ hab ▸ ha)
    · simp [hnew]

/-- **After an upsert the row of the identity holds the given cells under the listed names.** -/
theorem Upserted.lookup (hu : t.Upserted s id columns f n t') (h : t.Fits s)
    (hlisted : columns.any (fun x => sameName x s.idColumn) = true)
    (hf : ∀ x y, sameName x y = true → f x = f y) (hid : f s.idColumn = .int id) :
    ∃ new, t'.lookup s id = some new ∧
      ∀ c, t.HasColumn c → columns.any (fun x => sameName x c) = true → t.cell new c = f c := by
  have hkeeps := hu.keepsOthers h hlisted hid
  have hfound : ∀ {new}, new ∈ t'.rows → t.idOf s new = id → t'.lookup s id = some new :=
    fun hmem hnew => hkeeps.fits.lookup_eq_some.mpr
      ⟨hmem, (congrFun (idOf_of_columns_eq hkeeps.columns s) _).trans hnew⟩
  cases hu with
  | @changed before after old new hrows hold _ hwidth hcells =>
    have hnew : t.idOf s new = id :=
      idOf_eq_of_cell (by rw [hcells _ h.id_column, if_pos hlisted, hid])
    exact ⟨new, hfound List.mem_append_cons_self hnew,
      fun c hc hin => by rw [hcells c hc, if_pos hin]⟩
  | kept hthere hall =>
    obtain ⟨old, hmem, hold⟩ := List.mem_map.mp hthere
    refine ⟨old, hfound hmem hold, fun c hc hin => ?_⟩
    -- only the identity is listed
    obtain ⟨x, hx, hxc⟩ := List.any_eq_true.mp hin
    have hcid : sameName c s.idColumn = true :=
      sameName_iff.mpr ((sameName_iff.mp hxc).symm.trans (sameName_iff.mp (hall x hx)))
    rw [cell_congr hcid, hf _ _ hcid, hid, h.cell_id hmem, hold]
  | @added new habsent hwidth hcells =>
    have hnew : t.idOf s new = id :=
      idOf_eq_of_cell (by rw [hcells _ h.id_column, if_pos hlisted, hid])
    exact ⟨new, hfound (List.mem_append_right _ (List.mem_singleton_self new)) hnew,
      fun c hc hin => by rw [hcells c hc, if_pos hin]⟩

end
end Table
end Cutover
