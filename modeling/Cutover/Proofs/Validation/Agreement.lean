import Cutover.Proofs.Table.Write
import Cutover.Proofs.Validation.Report

/-! # What it means that nothing is reported

Two tables *agree* on an identity when neither has a row there, or both have one and the rows hold
equal values under every name (`Table.AgreeAt`).  This does not depend on the order in which the
columns of the tables stand, and neither does the comparison of records (`recordOf_equals_iff`); so
without a cutoff a validation has something to report of an identity exactly when the tables do not
agree on it (`exists_event`, `differences_eq_nil`).
-/

namespace Cutover

namespace Table

/-- A row of the one table and a row of the other hold equal values under every name. -/
def SameRow (b t : Table) (r r' : List Value) : Prop :=
  ∀ c, t.HasColumn c → (b.cell r c).equals (t.cell r' c) = true

/-- Neither table has a row of the identity, or both have one and the rows hold the same. -/
def AgreeAt (s : TableSpec) (b t : Table) (id : Int64) : Prop :=
  Option.Rel (b.SameRow t) (b.lookup s id) (t.lookup s id)

section
variable {b t : Table} {s : TableSpec} {r r' : List Value}

/-- The names of the columns differ, so a column is found where it stands. -/
theorem place?_getElem (h : t.columns.Pairwise fun a b => sameName a b = false) {i : Nat}
    (hi : i < t.columns.length) : t.place? t.columns[i] = some i := by
  refine List.findIdx?_eq_some_iff_getElem.mpr ⟨hi, sameName_refl _, fun j hj => ?_⟩
  rw [List.pairwise_iff_getElem] at h
  simp [h j i (Nat.lt_trans hj hi) hi hj]

theorem cell_getElem (h : t.columns.Pairwise fun a b => sameName a b = false) {i : Nat}
    (hi : i < t.columns.length) (hr : i < r.length) : t.cell r t.columns[i] = r[i] := by
  simp [cell, place?_getElem h hi, cellAt, hr]

theorem SameColumns.length_eq (h : b.SameColumns t) (hb : b.Keyed s) (ht : t.Keyed s) :
    b.columns.length = t.columns.length := by
  have hnodup : ∀ {x : Table}, x.Keyed s → x.columns.Nodup := by
    intro x hx
    refine hx.distinct.imp fun {a c} hac heq => ?_
    subst heq
    rw [sameName_refl] at hac
    cases hac
  exact ((List.perm_ext_iff_of_nodup (hnodup hb) (hnodup ht)).mpr h).length_eq

/-- **Records are equal when their rows hold the same**, whatever the order of the columns. -/
theorem recordOf_equals_iff (h : b.SameColumns t) (hb : b.Keyed s) (ht : t.Keyed s)
    (hr : r ∈ b.rows) (hr' : r' ∈ t.rows) (hid : b.idOf s r = t.idOf s r') :
    (b.recordOf s r).equals (t.recordOf s r') = true ↔ b.SameRow t r r' := by
  have hwb := hb.width r hr
  have hwt := ht.width r' hr'
  have hlength : (b.columns.zip r).length = (t.columns.zip r').length := by
    rw [List.length_zip, List.length_zip, hwb, hwt, h.length_eq hb ht]
  have hfound : ∀ c, t.HasColumn c → (t.shown none r').get? c = some (t.cell r' c) := fun c hc =>
    get?_shown hwt hc (by rintro l ⟨⟩)
  -- a cell of the base is compared with the cell of the same name, wherever it stands
  have hcells : (b.recordOf s r).equals (t.recordOf s r') = true ↔
      ∀ p ∈ b.columns.zip r, (t.cell r' p.1).equals p.2 = true := by
    have hids : ((b.recordOf s r).id == (t.recordOf s r').id) = true := beq_iff_eq.mpr hid
    have hlengths : ((b.recordOf s r).row.cells.length == (t.recordOf s r').row.cells.length) =
        true :=
      beq_iff_eq.mpr hlength
    rw [Record.equals, hids, hlengths, Bool.true_and, Bool.true_and, List.all_eq_true]
    refine forall₂_congr fun p hp => ?_
    have hcolumn : t.HasColumn p.1 := hasColumn_of_mem ((h p.1).mp (List.of_mem_zip hp).1)
    rw [show (t.recordOf s r').row.get? p.1 = some (t.cell r' p.1) from hfound p.1 hcolumn]
  -- both rows have one cell for each name, so those of the base are all there are
  rw [hcells]
  constructor
  · intro hall c hc
    obtain ⟨x, hx, hxc⟩ := hasColumn_iff.mp hc
    obtain ⟨i, hi, rfl⟩ := List.getElem_of_mem ((h x).mpr hx)
    have hri : i < r.length := hwb ▸ hi
    have hmem : (b.columns[i], r[i]) ∈ b.columns.zip r := by
      rw [List.mem_iff_getElem]
      exact ⟨i, by simp [hi, hri], List.getElem_zip⟩
    have hequal := hall _ hmem
    rw [Value.equals_comm, ← cell_getElem hb.distinct hi hri] at hequal
    rwa [← cell_congr hxc, ← cell_congr hxc]
  · intro hsame p hp
    obtain ⟨i, hi, rfl⟩ := List.getElem_of_mem hp
    rw [List.getElem_zip]
    have hi' : i < b.columns.length ∧ i < r.length := by simpa using hi
    have hcolumn : t.HasColumn b.columns[i] := hasColumn_of_mem ((h _).mp (List.getElem_mem hi'.1))
    rw [Value.equals_comm, ← cell_getElem hb.distinct hi'.1 hi'.2]
    exact hsame _ hcolumn

end

/-! ## Agreement after a write -/

section
variable {b t t' : Table} {s : TableSpec} {id : Int64} {row : Option (List Value)}

theorem Wrote.sameRow_iff (h : t.Wrote s id row t') {r r' : List Value} :
    b.SameRow t' r r' ↔ b.SameRow t r r' := by
  have hplace : ∀ c, t'.place? c = t.place? c := fun c => by rw [place?, place?, h.columns]
  simp only [SameRow, HasColumn, cell, hplace]

/-- A write under an identity leaves the agreement on the others. -/
theorem Wrote.agreeAt_iff (h : t.Wrote s id row t') {other : Int64} (hne : other ≠ id) :
    b.AgreeAt s t' other ↔ b.AgreeAt s t other := by
  have hsame : b.SameRow t' = b.SameRow t := by
    funext r r'
    exact propext h.sameRow_iff
  rw [AgreeAt, AgreeAt, h.elsewhere other hne, hsame]

/-- A row that holds the same brings agreement. -/
theorem Wrote.agreeAt_row {r new : List Value} (h : t.Wrote s id (some new) t')
    (hr : b.lookup s id = some r) (hsame : b.SameRow t r new) : b.AgreeAt s t' id := by
  rw [AgreeAt, hr, h.there]
  exact .some (h.sameRow_iff.mpr hsame)

/-- Where the base has no row, none brings agreement. -/
theorem Wrote.agreeAt_none (h : t.Wrote s id none t') (hnone : b.lookup s id = none) :
    b.AgreeAt s t' id := by
  rw [AgreeAt, hnone, h.there]
  exact .none

end
end Table

namespace Plan

variable {p : Plan} {tables : Side → Table}

/-- The tables that a validation compares are the migrated one on both sides, with columns of the
same names. -/
structure Compares (p : Plan) (tables : Side → Table) : Prop where
  base : (tables p.base).Keyed p.table
  target : (tables p.target).Keyed p.table
  columns : (tables p.base).SameColumns (tables p.target)

/-- The tables agree on every identity. -/
def InSync (p : Plan) (tables : Side → Table) : Prop :=
  ∀ id, (tables p.base).AgreeAt p.table (tables p.target) id

/-- Of a row of the base nothing is found exactly when the tables agree on its identity. -/
theorem Compares.forwardKind_eq_none (h : p.Compares tables) {r : List Value}
    (hr : r ∈ (tables p.base).rows) :
    p.forwardKind tables r = none ↔
      (tables p.base).AgreeAt p.table (tables p.target) ((tables p.base).idOf p.table r) := by
  have hbase : (tables p.base).lookup p.table ((tables p.base).idOf p.table r) = some r :=
    h.base.lookup_eq_some.mpr ⟨hr, rfl⟩
  unfold forwardKind Table.AgreeAt
  rw [hbase]
  cases htarget : (tables p.target).lookup p.table ((tables p.base).idOf p.table r) with
  | none =>
    constructor
    · rintro ⟨⟩
    · rintro ⟨⟩
  | some r' =>
    obtain ⟨hr', hid⟩ := h.target.lookup_eq_some.mp htarget
    have hiff := Table.recordOf_equals_iff h.columns h.base h.target hr hr' hid.symm
    simp only [ite_eq_left_iff, reduceCtorEq, imp_false, not_not, hiff]
    constructor
    · intro hsame
      exact .some hsame
    · rintro (hsame | _)
      exact hsame

/-- **Something is reported of every identity on which the tables do not agree.** -/
theorem Compares.exists_event (h : p.Compares tables) (hcut : p.utimeAfter ≤ 0) {id : Int64}
    (hid : ¬ (tables p.base).AgreeAt p.table (tables p.target) id) :
    ∃ e ∈ p.differences tables, e.id = id := by
  have hscope : ∀ t : Table, t.rows.filter (p.inScope t) = t.rows := by
    intro t
    refine List.filter_eq_self.mpr fun r _ => ?_
    rw [inScope, if_neg (Int64.not_lt.mpr hcut)]
  unfold differences
  rw [hscope, hscope]
  cases hbase : (tables p.base).lookup p.table id with
  | some r =>
    obtain ⟨hr, rfl⟩ := h.base.lookup_eq_some.mp hbase
    have hkind : p.forwardKind tables r ≠ none := fun hnone =>
      hid ((h.forwardKind_eq_none hr).mp hnone)
    obtain ⟨k, hk⟩ := Option.ne_none_iff_exists'.mp hkind
    refine ⟨⟨(tables p.base).idOf p.table r, k, p.direction⟩,
      List.mem_append_left _ (List.mem_filterMap.mpr ⟨r, hr, ?_⟩), rfl⟩
    simp [eventOf, finding, hk]
  | none =>
    cases htarget : (tables p.target).lookup p.table id with
    | none =>
      refine absurd ?_ hid
      rw [Table.AgreeAt, hbase, htarget]
      exact .none
    | some r' =>
      obtain ⟨hr', rfl⟩ := h.target.lookup_eq_some.mp htarget
      refine ⟨⟨(tables p.target).idOf p.table r', .baseMissing, p.direction⟩,
        List.mem_append_right _ (List.mem_filterMap.mpr ⟨r', hr', ?_⟩), rfl⟩
      simp [eventOf, finding, backwardKind, hbase]

/-- **Nothing is reported of tables that agree on every identity.** -/
theorem Compares.differences_eq_nil (h : p.Compares tables) (hsync : p.InSync tables) :
    p.differences tables = [] := by
  refine List.append_eq_nil_iff.mpr ⟨?_, ?_⟩
  · refine List.filterMap_eq_nil_iff.mpr fun r hr => ?_
    have hr' := (List.mem_filter.mp hr).1
    have hnone := (h.forwardKind_eq_none hr').mpr (hsync _)
    simp [eventOf, finding, hnone]
  · refine List.filterMap_eq_nil_iff.mpr fun r hr => ?_
    have hr' := (List.mem_filter.mp hr).1
    have htarget : (tables p.target).lookup p.table ((tables p.target).idOf p.table r) = some r :=
      h.target.lookup_eq_some.mpr ⟨hr', rfl⟩
    have hagree := hsync ((tables p.target).idOf p.table r)
    rw [Table.AgreeAt, htarget] at hagree
    cases hbase : (tables p.base).lookup p.table ((tables p.target).idOf p.table r) with
    | none =>
      rw [hbase] at hagree
      cases hagree
    | some r' => simp [eventOf, finding, backwardKind, hbase]

end Plan
end Cutover
