import Cutover.Proofs.Table.Statement
import Mathlib.Data.List.Nodup

/-! # Reading a table

What the rows of an answer say of the rows of the table: the cell that an answered row has under a
name is the cell that the stored row has there (`get?_shown`), whether the row comes as it is stored
or cut down to the columns that were asked for.  A reading that names only columns of the table is
answered (`select_eq_ok`).

A table *fits* the specification of the migrated table when it is that table: it has the column of
the identity, and in it whole numbers that differ from row to row (`Fits`).
-/

namespace Cutover

open Sql

/-! ## Names -/

theorem sameName_iff {a b : String} : sameName a b = true ↔ caseless a = caseless b := by
  simp [sameName]

theorem sameName_refl (a : String) : sameName a a = true := sameName_iff.mpr rfl

theorem sameName_comm (a b : String) : sameName a b = sameName b a := by
  simp only [sameName, BEq.comm]

/-- Names that are the same are the same as the same names. -/
theorem sameName_congr {a b : String} (h : sameName a b = true) (c : String) :
    sameName c a = sameName c b := by
  rw [sameName, sameName, sameName_iff.mp h]

namespace Row

theorem get?_congr {r : Row} {c d : String} (h : sameName c d = true) : r.get? c = r.get? d := by
  unfold get?
  congr 2
  funext x
  exact sameName_congr h x.1

theorem getInt64_eq_ok {r : Row} {c : String} {v : Value} {n : Int64} (h : r.get? c = some v)
    (hn : v.toInt64? = some n) : r.getInt64 c = .ok n := by
  simp [getInt64, h, hn]

end Row

/-- Where every step succeeds, so do all of them. -/
theorem mapM_eq_ok {ε α β : Type} {f : α → Except ε β} {g : α → β} {l : List α}
    (h : ∀ a ∈ l, f a = .ok (g a)) : l.mapM f = .ok (l.map g) := by
  induction l with
  | nil => rfl
  | cons a l ih =>
    rw [List.mapM_cons, h a List.mem_cons_self, ih fun b hb => h b (List.mem_cons_of_mem _ hb)]
    rfl

/-- Where all steps succeed, the first does and so do the others. -/
theorem mapM_cons_eq_ok {ε α β : Type} {f : α → Except ε β} {a : α} {l : List α} {bs : List β}
    (h : (a :: l).mapM f = .ok bs) : ∃ b bs', f a = .ok b ∧ l.mapM f = .ok bs' ∧ bs = b :: bs' := by
  rw [List.mapM_cons] at h
  cases ha : f a with
  | error e =>
    rw [ha] at h
    cases h
  | ok b =>
    cases hl : l.mapM f with
    | error e =>
      rw [ha, hl] at h
      cases h
    | ok bs' =>
      rw [ha, hl] at h
      exact ⟨b, bs', rfl, rfl, (Except.ok.inj h).symm⟩

/-- Where all steps succeed, each result is that of a step. -/
theorem exists_of_mem_mapM {ε α β : Type} {f : α → Except ε β} {l : List α} {bs : List β}
    (h : l.mapM f = .ok bs) {b : β} (hb : b ∈ bs) : ∃ a ∈ l, f a = .ok b := by
  induction l generalizing bs with
  | nil =>
    cases h
    cases hb
  | cons a l ih =>
    obtain ⟨b', bs', ha, hl, rfl⟩ := mapM_cons_eq_ok h
    rcases List.mem_cons.mp hb with rfl | hb
    · exact ⟨a, List.mem_cons_self, ha⟩
    · obtain ⟨a', ha', hstep⟩ := ih hl hb
      exact ⟨a', List.mem_cons_of_mem a ha', hstep⟩

namespace Table

variable {t : Table} {r : List Value} {c d : String}

/-! ## Cells -/

theorem place?_congr (h : sameName c d = true) : t.place? c = t.place? d := by
  unfold place?
  congr 1
  funext x
  exact sameName_congr h x

theorem cell_congr (h : sameName c d = true) : t.cell r c = t.cell r d := by
  rw [cell, cell, place?_congr h]

theorem number?_congr (h : sameName c d = true) : t.number? r c = t.number? r d := by
  rw [number?, number?, cell_congr h]

/-- A column that the table has. -/
def HasColumn (t : Table) (c : String) : Prop := (t.place? c).isSome = true

instance (t : Table) (c : String) : Decidable (t.HasColumn c) := inferInstanceAs (Decidable (_ = _))

theorem HasColumn.congr (hc : t.HasColumn c) (h : sameName c d = true) : t.HasColumn d := by
  rw [HasColumn, ← place?_congr h]
  exact hc

theorem checkColumns_eq_ok {cs : List String} (h : ∀ c ∈ cs, t.HasColumn c) :
    t.checkColumns cs = .ok () := by
  rw [checkColumns, if_pos]
  exact List.all_eq_true.mpr h

/-- Looking a column up among named cells is taking the cell at its place. -/
theorem get?_zip {cs : List String} {vs : List Value} (h : vs.length = cs.length) (c : String) :
    (Row.mk (cs.zip vs)).get? c =
      (cs.findIdx? fun x => sameName x c).map (cellAt vs) := by
  unfold Row.get?
  induction cs generalizing vs with
  | nil => rfl
  | cons x cs ih =>
    cases vs with
    | nil => cases h
    | cons v vs =>
      have htail := ih (Nat.succ.inj h)
      rw [List.zip_cons_cons, List.find?_cons, List.findIdx?_cons]
      by_cases hx : sameName x c = true
      · simp [hx, cellAt]
      · rw [Bool.not_eq_true] at hx
        simp only [hx, htail, Option.map_map, Bool.false_eq_true, if_false]
        congr 1

/-- The name of a column as the table spells it. -/
def spelled (t : Table) (c : String) : String := ((t.place? c).bind (t.columns[·]?)).getD c

theorem sameName_spelled (t : Table) (c : String) : sameName (t.spelled c) c = true := by
  unfold spelled
  cases hi : t.place? c with
  | none => exact sameName_refl c
  | some i =>
    obtain ⟨hlt, hname, -⟩ := List.findIdx?_eq_some_iff_getElem.mp hi
    simpa [hlt] using hname

/-- Looking up a column that was asked for finds its cell. -/
theorem get?_projected {cs : List String} (h : c ∈ cs) :
    (Row.mk ((cs.map t.spelled).zip (cs.map (t.cell r)))).get? c = some (t.cell r c) := by
  unfold Row.get?
  induction cs with
  | nil => cases h
  | cons x cs ih =>
    rw [List.map_cons, List.map_cons, List.zip_cons_cons, List.find?_cons]
    -- the first column of this name need not be the one meant, but its cell is the same
    by_cases hx : sameName (t.spelled x) c = true
    · have hxc : sameName x c = true := by
        rw [sameName_iff, ← sameName_iff.mp (t.sameName_spelled x)]
        exact sameName_iff.mp hx
      simp [hx, cell_congr hxc]
    · rcases List.mem_cons.mp h with rfl | h
      · exact absurd (t.sameName_spelled c) hx
      · rw [Bool.not_eq_true] at hx
        simp only [hx]
        exact ih h

/-! ## Rows of an answer -/

/-- A stored row as an answer shows it, whole or cut down to some columns. -/
def shown (t : Table) (cs : Option (List String)) (r : List Value) : Row :=
  match cs with
  | none => ⟨t.columns.zip r⟩
  | some cs => ⟨(cs.map t.spelled).zip (cs.map (t.cell r))⟩

/-- **An answered row holds under a name what the stored row holds there.** -/
theorem get?_shown {cs : Option (List String)} (hw : r.length = t.columns.length)
    (hc : t.HasColumn c) (hin : ∀ l, cs = some l → c ∈ l) :
    (t.shown cs r).get? c = some (t.cell r c) := by
  cases cs with
  | some l => exact get?_projected (hin l rfl)
  | none =>
    obtain ⟨i, hi⟩ := Option.isSome_iff_exists.mp hc
    rw [shown, get?_zip hw, cell, hi]
    rw [place?] at hi
    rw [hi]
    rfl

theorem mem_selected {s : Select} {args : Args} (h : r ∈ t.selected s args) :
    r ∈ t.rows ∧ s.conditions.all (t.holds args r) = true := by
  unfold selected at h
  -- neither an order nor a limit brings in other rows
  have hordered : r ∈ (if s.order.isEmpty then t.rows.filter fun r =>
    s.conditions.all (t.holds args r)
      else (t.rows.filter fun r => s.conditions.all (t.holds args r)).mergeSort
        (t.rowLe s.order)) := by
    cases hl : s.limit with
    | none => rw [hl] at h; exact h
    | some n => rw [hl] at h; exact List.mem_of_mem_take h
  have hfilter : r ∈ t.rows.filter fun r => s.conditions.all (t.holds args r) := by
    split at hordered
    · exact hordered
    · exact List.mem_mergeSort.mp hordered
  exact List.mem_filter.mp hfilter

/-- **A reading that names only columns of the table is answered**, by the rows it selects. -/
theorem select_eq_ok {s : Select} {args : Args} (hname : sameName s.table t.name = true)
    (hcols : ∀ c ∈ s.columns.getD [] ++ s.conditions.flatMap Condition.columns ++ s.order,
      t.HasColumn c)
    (hw : ∀ r ∈ t.rows, r.length = t.columns.length) :
    t.select s args = .ok ((t.selected s args).map (t.shown s.columns)) := by
  have hcheck : t.checkSelect s = .ok () := by
    rw [checkSelect, checkName, if_pos hname]
    exact checkColumns_eq_ok hcols
  rw [select, hcheck]
  refine mapM_eq_ok fun r hr => ?_
  unfold resultRow shown
  cases hs : s.columns with
  | none => simp [Row.ofColumns?, hw r (mem_selected hr).1]
  | some cs => simp only [resultNames, hs]; rfl

/-! ## Tables with an identity -/

/-- A whole number. -/
def IsInt (v : Value) : Prop := ∃ n, v = .int n

instance : DecidablePred IsInt
  | .int n => .isTrue ⟨n, rfl⟩
  | .null | .bool _ | .float _ | .text _ | .bytes _ => .isFalse (by rintro ⟨n, ⟨⟩⟩)

/-- The table is the migrated one: it has the name and the column of the identity, every row is
complete, and the identities are whole numbers that differ from row to row. -/
structure Fits (t : Table) (s : TableSpec) : Prop where
  name : sameName s.name t.name = true
  id_column : t.HasColumn s.idColumn
  width : ∀ r ∈ t.rows, r.length = t.columns.length
  id_int : ∀ r ∈ t.rows, IsInt (t.cell r s.idColumn)
  id_unique : t.rows.Pairwise fun a b => t.cell a s.idColumn ≠ t.cell b s.idColumn

theorem fits_iff {t : Table} {s : TableSpec} : t.Fits s ↔
    sameName s.name t.name = true ∧ t.HasColumn s.idColumn ∧
      (∀ r ∈ t.rows, r.length = t.columns.length) ∧ (∀ r ∈ t.rows, IsInt (t.cell r s.idColumn)) ∧
      t.rows.Pairwise fun a b => t.cell a s.idColumn ≠ t.cell b s.idColumn :=
  ⟨fun h => ⟨h.name, h.id_column, h.width, h.id_int, h.id_unique⟩,
    fun ⟨hn, hc, hw, hi, hu⟩ => ⟨hn, hc, hw, hi, hu⟩⟩

instance (t : Table) (s : TableSpec) : Decidable (t.Fits s) := decidable_of_iff _ fits_iff.symm

/-- The identity of a row. -/
def idOf (t : Table) (s : TableSpec) (r : List Value) : Int64 :=
  (t.number? r s.idColumn).getD 0

namespace Fits

variable {s : TableSpec}

theorem cell_id (h : t.Fits s) (hr : r ∈ t.rows) : t.cell r s.idColumn = .int (t.idOf s r) := by
  obtain ⟨n, hn⟩ := h.id_int r hr
  rw [idOf, number?, hn]
  rfl

theorem number?_id (h : t.Fits s) (hr : r ∈ t.rows) :
    t.number? r s.idColumn = some (t.idOf s r) := by
  rw [number?, h.cell_id hr]
  rfl

/-- The identities differ from row to row. -/
theorem nodup_ids (h : t.Fits s) : (t.rows.map (t.idOf s)).Nodup := by
  rw [List.Nodup, List.pairwise_map]
  refine h.id_unique.imp_of_mem fun {a b} ha hb hne heq => hne ?_
  rw [h.cell_id ha, h.cell_id hb, heq]

/-- A row is known by its identity. -/
theorem eq_of_idOf_eq (h : t.Fits s) {a b : List Value} (ha : a ∈ t.rows) (hb : b ∈ t.rows)
    (heq : t.idOf s a = t.idOf s b) : a = b :=
  List.inj_on_of_nodup_map h.nodup_ids ha hb heq

end Fits
end Table
end Cutover
