import Cutover.Proofs.Repair.Race

/-! # What a repair leaves behind

A repair that succeeds has made the row of its identity in the target what it is in the base, as far
as the columns of the fixer go, or has removed it; a repair that fails has changed nothing, and
there is a reason for it (`ensures_leaves`).  In either case the base and the other rows of the
target are as they were.

The columns of the fixer are those that the base had when the fixer was made.  Nothing is said here
of how the tables order or spell theirs, nor that the base still has the same.
-/

namespace Cutover

open Dialogue

/-- What a repair of an identity leaves of a target, if it succeeds: a row that holds in the columns
of the fixer what the row of the base holds there, or no row, since the base has none; and all other
rows. -/
inductive Fixer.Leaves (f : Fixer) (id : Int64) (base target : Table) : FixOutcome → Table → Prop
  | upserted {r new : List Value} {target' : Table} (there : base.lookup f.table id = some r)
      (put : target'.lookup f.table id = some new)
      (cells : ∀ c ∈ f.columns,
        base.HasColumn c ∧ target'.HasColumn c ∧ target'.cell new c = base.cell r c)
      (others : target.KeepsOthers f.table id target') : Leaves f id base target .upserted target'
  | deleted {target' : Table} (absent : base.lookup f.table id = none)
      (gone : target'.lookup f.table id = none)
      (others : target.KeepsOthers f.table id target') : Leaves f id base target .deleted target'

/-- A column of the fixer that a row of the base cannot be written under: it is no identifier, or
one of the tables does not have it. -/
def Fixer.Unwritable (f : Fixer) (base target : Table) : Prop :=
  ∃ c ∈ f.columns, ¬ (Identifier.isValid c = true ∧ base.HasColumn c ∧ target.HasColumn c)

namespace Stores

variable {st : Stores} {on : Side} {s : Statement}

/-- A write that the table refuses. -/
theorem ensures_exec_refused {e : StoreError} (h : (st.tables on).runStatement s = .error e) :
    (callStore on (.exec s)).Ensures Answers
      (fun reply st' => (∃ e, reply = .error e) ∧ st'.tables = st.tables) st := by
  have hrun : (st.replica on).run s = .error e := by
    have htable : (st.replica on).table.runStatement s = .error e := h
    rw [Rehearsal.Replica.run, htable]
    rfl
  have hwork : (st.replica on).work (.exec s) = (.error e, st.replica on) := by
    rw [Rehearsal.Replica.work, hrun]
    rfl
  intro reply st' ha
  cases ha with
  | carried =>
    refine ⟨⟨e, congrArg Prod.fst hwork⟩, ?_⟩
    rw [tables_after (t := st.tables on) (by rw [hwork]; rfl), Function.update_eq_self]
  | fault _ _ e => exact ⟨⟨e, rfl⟩, rfl⟩

end Stores

namespace Fixer

variable {f : Fixer} {d : Side} {id : Int64} {st : Stores}

/-- What a repair comes to: the base is as it was, and the target is what the repair leaves of it;
or both are as they were, for a call has failed or a column cannot be written. -/
def Settles (f : Fixer) (d : Side) (id : Int64) (st : Stores)
    (result : Except CutoverError FixOutcome) (st' : Stores) : Prop :=
  match result with
  | .ok o =>
    st'.tables d = st.tables d ∧
      f.Leaves id (st.tables d) (st.tables d.other) o (st'.tables d.other)
  | .error _ =>
    st'.tables = st.tables ∧
      (st'.faults < st.faults ∨
        (st.tables d).lookup f.table id ≠ none ∧ f.Unwritable (st.tables d) (st.tables d.other))

section
variable {b t : Table} {r : List Value} {bound : Sql.BoundCommand}

/-- A row of the base, as it is looked up, has the columns of the base. -/
theorem isSome_get?_shown (hw : r.length = b.columns.length) (c : String) :
    ((b.shown none r).get? c).isSome = true ↔ b.HasColumn c := by
  rw [Table.shown, Table.get?_zip hw, Option.isSome_map]
  rfl

theorem unwritable_of_upsert (hb : b.Fits f.table) (hr : r ∈ b.rows) (hne : f.columns ≠ [])
    {e : StoreError} (he : f.table.upsert (b.shown none r) f.columns = .error e) :
    f.Unwritable b t := by
  by_contra hnot
  have hall : ∀ c ∈ f.columns, Identifier.isValid c = true ∧
      ((b.shown none r).get? c).isSome = true := fun c hc => by
    have hwritable := not_not.mp (not_exists.mp hnot c ∘ And.intro hc)
    exact ⟨hwritable.1, (isSome_get?_shown (hb.width r hr) c).mpr hwritable.2.1⟩
  cases he.symm.trans (TableSpec.upsert_eq_ok_iff.mpr ⟨⟨hne, hall⟩, rfl⟩)

/-- **What a repair writes of a row leaves the row in the target**, or is refused for a column that
the target does not have. -/
theorem leaves_of_upsert (hb : b.Fits f.table) (ht : t.Fits f.table)
    (hkey : sameName t.key f.table.idColumn = true)
    (hlisted : ∃ c ∈ f.columns, sameName c f.table.idColumn = true)
    (hr : b.lookup f.table id = some r)
    (hbound : f.table.upsert (b.shown none r) f.columns = .ok bound) :
    (∃ a t', t.runStatement (bound.statement f.dialect) = .ok (a, t') ∧
      f.Leaves id b t .upserted t') ∨
      (t.runStatement (bound.statement f.dialect) = .error Table.refused ∧ f.Unwritable b t) := by
  obtain ⟨hmem, hid⟩ := hb.lookup_eq_some.mp hr
  obtain ⟨⟨hne, hall⟩, rfl⟩ := TableSpec.upsert_eq_ok_iff.mp hbound
  have hhas : ∀ c ∈ f.columns, b.HasColumn c := fun c hc =>
    (isSome_get?_shown (hb.width r hmem) c).mp (hall c hc).2
  have hcell : ∀ c, b.HasColumn c → (b.shown none r).cell c = b.cell r c := fun c hc => by
    rw [Row.cell, Table.get?_shown (hb.width r hmem) hc (by rintro l ⟨⟩), Option.getD_some]
  have hrun := t.runStatement_statement f.dialect
    (b := ⟨f.table.upsertCommand f.columns, f.columns.map (b.shown none r).cell⟩)
    (f.table.readable_upsertCommand hne fun c hc => (hall c hc).1)
    (f.table.sameName_key_upsertCommand hkey _)
  by_cases hcolumns : ∀ c ∈ f.columns, t.HasColumn c
  · have hcongr : ∀ x y, sameName x y = true →
        (b.shown none r).cell x = (b.shown none r).cell y := fun _ _ => Row.cell_congr
    have hcellid : (b.shown none r).cell f.table.idColumn = .int id := by
      rw [hcell _ hb.id_column, hb.cell_id hmem, hid]
    have hany : f.columns.any (fun x => sameName x f.table.idColumn) = true :=
      List.any_eq_true.mpr hlisted
    obtain ⟨n, t', hinsert, hupserted⟩ := ht.insert_upsertCommand hkey hcolumns hany hcongr hcellid
    obtain ⟨new, hput, hcells⟩ := hupserted.lookup ht hany hcongr hcellid
    have hothers := hupserted.keepsOthers ht hany hcellid
    refine .inl ⟨_, t', hrun.trans hinsert, .upserted hr hput (fun c hc => ?_) hothers⟩
    have hin : f.columns.any (fun x => sameName x c) = true :=
      List.any_eq_true.mpr ⟨c, hc, sameName_refl c⟩
    refine ⟨hhas c hc, ?_, ?_⟩
    · rw [Table.HasColumn, Table.place?, hothers.columns]
      exact hcolumns c hc
    · rw [Table.cell_of_columns_eq hothers.columns, hcells c (hcolumns c hc) hin,
        hcell c (hhas c hc)]
  · obtain ⟨c, hc⟩ := not_forall.mp hcolumns
    obtain ⟨hc, hnot⟩ := Classical.not_imp.mp hc
    refine .inr ⟨hrun.trans ?_, c, hc, fun h => hnot h.2.2⟩
    show (t.insert _ _).map _ = _
    rw [Table.insert_refused ⟨c, hc, hnot⟩]
    rfl

end

/-- **What a repair of an identity leaves behind.** -/
theorem ensures_settles (hbase : f.base = .store d) (htarget : f.target = .store d.other)
    (hb : (st.tables d).Fits f.table) (ht : (st.tables d.other).Fits f.table)
    (hkey : sameName (st.tables d.other).key f.table.idColumn = true)
    (hlisted : ∃ c ∈ f.columns, sameName c f.table.idColumn = true) (id : Int64) :
    (f.fix id).Ensures Stores.Answers (f.Settles d id st) st := by
  have hfailed : ∀ {st' : Stores} {e : StoreError}, st'.faults < st.faults →
    st'.tables = st.tables →
      f.Settles d id st (.error (.store e)) st' := fun hfaults htables => ⟨htables, .inl hfaults⟩
  rw [fix_eq, hbase]
  refine (Stores.ensures_queryRow (hb.byId_answer f.dialect id)).bind ?_
  rintro found st₁ (⟨rfl, hfaults, htables⟩ | ⟨⟨e, rfl⟩, hfaults, htables⟩)
  · rw [Function.update_eq_self] at htables
    -- the lookup has changed nothing, so the target is as it was
    have htarget₁ : st₁.tables d.other = st.tables d.other := congrFun htables _
    have hdone : ∀ {o : FixOutcome} {t' : Table} {st₂ : Stores},
        f.Leaves id (st.tables d) (st.tables d.other) o t' →
        st₂.tables = Function.update st₁.tables d.other t' → f.Settles d id st (.ok o) st₂ := by
      intro o t' st₂ hleaves htables₂
      rw [Settles, htables₂, htables, Function.update_self, Function.update_of_ne d.other_ne.symm]
      exact ⟨rfl, hleaves⟩
    cases hlookup : (st.tables d).lookup f.table id with
    | none =>
      rw [Option.toList_none, List.map_nil, List.head?_nil, write, htarget]
      have hrun := ht.deleteById_eq f.dialect id
      rw [← htarget₁] at hrun
      refine (Stores.ensures_exec hrun).bind ?_
      rintro written st₂ (⟨rfl, -, htables₂⟩ | ⟨⟨e, rfl⟩, hfaults₂, htables₂⟩)
      · rw [htarget₁] at htables₂
        exact hdone (.deleted hlookup Table.lookup_without (ht.keepsOthers_without id)) htables₂
      · exact hfailed (hfaults ▸ hfaults₂) (htables₂.trans htables)
    | some r =>
      have hmem := (hb.lookup_eq_some.mp hlookup).1
      rw [Option.toList_some, List.map_singleton, List.head?_singleton, write]
      cases hbound : f.table.upsert ((st.tables d).shown none r) f.columns with
      | error e =>
        obtain ⟨x, hx, -⟩ := hlisted
        exact ⟨htables, .inr ⟨by rw [hlookup]; exact Option.some_ne_none r,
          unwritable_of_upsert hb hmem (List.ne_nil_of_mem hx) hbound⟩⟩
      | ok bound =>
        rw [htarget]
        rcases leaves_of_upsert hb ht hkey hlisted hlookup hbound with
          ⟨a, t', hrun, hleaves⟩ | ⟨hrun, hunwritable⟩
        · rw [← htarget₁] at hrun
          refine (Stores.ensures_exec hrun).bind ?_
          rintro written st₂ (⟨rfl, -, htables₂⟩ | ⟨⟨e, rfl⟩, hfaults₂, htables₂⟩)
          · exact hdone hleaves htables₂
          · exact hfailed (hfaults ▸ hfaults₂) (htables₂.trans htables)
        · rw [← htarget₁] at hrun
          refine (Stores.ensures_exec_refused hrun).bind ?_
          rintro written st₂ ⟨⟨e, rfl⟩, htables₂⟩
          exact ⟨htables₂.trans htables,
            .inr ⟨by rw [hlookup]; exact Option.some_ne_none r, hunwritable⟩⟩
  · exact hfailed hfaults htables

/-- A fixer of items for two columns of three. -/
def nameFixer : Fixer := ⟨.store .src, .store .dst, .items, .sqlite, ["id", "name"]⟩

/-- Two stores whose tables name their columns in different orders. -/
def unlikeStores : Stores where
  replica
    | .src => { table := ⟨"items", "id", ["id", "name"], [[.int 1, .text "new"]]⟩ }
    | .dst => { table := ⟨"items", "id", ["name", "utime", "id"], [[.text "old", .int 5, .int 1]]⟩ }
  faults := 0

/-- Without a fault the row is copied: nothing stands against it. -/
theorem ensures_settles_sample :
    (nameFixer.base = .store .src ∧ nameFixer.target = .store Side.src.other ∧
      (unlikeStores.tables .src).Fits nameFixer.table ∧
      (unlikeStores.tables Side.src.other).Fits nameFixer.table ∧
      sameName (unlikeStores.tables Side.src.other).key nameFixer.table.idColumn = true ∧
      ∃ c ∈ nameFixer.columns, sameName c nameFixer.table.idColumn = true) ∧
    ∃ st', nameFixer.Settles .src 1 unlikeStores (.ok .upserted) st' ∧
      ∃ new, (st'.tables .dst).lookup nameFixer.table 1 = some new ∧
        (st'.tables .dst).cell new "name" = .text "new" := by
  have hb : (unlikeStores.tables .src).Fits nameFixer.table := by decide +kernel
  have ht : (unlikeStores.tables Side.src.other).Fits nameFixer.table := by decide +kernel
  have hkey : sameName (unlikeStores.tables Side.src.other).key nameFixer.table.idColumn =
      true := by
    decide +kernel
  have hlisted : ∃ c ∈ nameFixer.columns, sameName c nameFixer.table.idColumn = true :=
    ⟨"id", List.mem_cons_self, sameName_refl _⟩
  refine ⟨⟨rfl, rfl, hb, ht, hkey, hlisted⟩, ?_⟩
  have hsettles := ensures_settles rfl rfl hb ht hkey hlisted 1
  obtain ⟨result, st', h, -⟩ := hsettles.exists_end (K := fun _ => True)
    (fun s r _ => (Stores.exists_answer s r).imp fun _ => .imp fun _ h => ⟨h, trivial⟩) trivial
  cases result with
  | error e =>
    obtain ⟨-, hfault | ⟨-, c, hc, hunwritable⟩⟩ := h
    · exact absurd hfault (Nat.not_lt_zero _)
    · have hall : ∀ c ∈ nameFixer.columns, Identifier.isValid c = true ∧
          (unlikeStores.tables .src).HasColumn c ∧ (unlikeStores.tables .dst).HasColumn c := by
        decide +kernel
      exact absurd (hall c hc) hunwritable
  | ok o =>
    obtain ⟨-, hleaves⟩ := id h
    have hthere : (unlikeStores.tables .src).lookup nameFixer.table 1 =
        some [.int 1, .text "new"] := by
      decide +kernel
    cases hleaves with
    | deleted habsent => cases hthere.symm.trans habsent
    | @upserted r new _ hfound hput hcells _ =>
      obtain rfl := Option.some.inj (hthere.symm.trans hfound)
      obtain ⟨-, -, hcell⟩ := hcells "name" (by decide)
      have hname : (unlikeStores.tables .src).cell [.int 1, .text "new"] "name" = .text "new" := by
        decide +kernel
      exact ⟨st', h, new, hput, hcell.trans hname⟩

end Fixer
end Cutover
