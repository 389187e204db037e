import Cutover.Proofs.Table.Select

/-! # Looking rows up by identity

A table that fits the specification is, as far as the cutover is concerned, a map from identities to
rows (`lookup`).  The two statements that look identities up are answered from this map: one
identity by its row or by nothing (`byId_answer`), several by those of them that the table holds
(`idsIn_answer`).  The columns are told as they stand (`namesOf_selectAll`).
-/

namespace Cutover

open Sql

namespace Table

/-- The stored row of an identity. -/
def lookup (t : Table) (s : TableSpec) (id : Int64) : Option (List Value) :=
  t.rows.find? fun r => t.idOf s r == id

namespace Fits

variable {t : Table} {s : TableSpec} {id : Int64} {r : List Value}

theorem lookup_eq_some (h : t.Fits s) :
    t.lookup s id = some r ↔ r ∈ t.rows ∧ t.idOf s r = id := by
  constructor
  · intro hl
    exact ⟨List.mem_of_find?_eq_some hl, by simpa using List.find?_some hl⟩
  · rintro ⟨hr, rfl⟩
    cases hl : t.lookup s (t.idOf s r) with
    | none => exact absurd (List.find?_eq_none.mp hl r hr) (by simp)
    | some r' =>
      have hr' : r' ∈ t.rows := List.mem_of_find?_eq_some hl
      have hid : t.idOf s r' = t.idOf s r := by simpa using List.find?_some hl
      rw [h.eq_of_idOf_eq hr' hr hid]

theorem lookup_eq_none : t.lookup s id = none ↔ id ∉ t.rows.map (t.idOf s) := by
  simp [lookup]

/-- A reading of the rows with certain identities is answered by these rows. -/
theorem answer_of_holds (h : t.Fits s) (d : Dialect) {b : BoundCommand}
    {columns : Option (List String)} {condition : Condition}
    (hb : b.command = .select { columns, table := s.name, conditions := [condition] })
    (hread : b.command.Readable .tolerant)
    (hcolumns : ∀ c ∈ columns.getD [] ++ condition.columns, c = s.idColumn)
    (test : Int64 → Bool)
    (htest : ∀ r ∈ t.rows, t.holds b.args r condition = test (t.idOf s r)) :
    t.runStatement (b.statement d) =
      .ok (⟨(t.rows.filter fun r => test (t.idOf s r)).map (t.shown columns), 0⟩, t) := by
  have hkey : b.command.key? = none := by rw [hb]; rfl
  rw [t.runStatement_statement d hread (by simp [hkey]), hb, run, select_eq_ok h.name ?_ h.width]
  · have hselected : t.selected { columns, table := s.name, conditions := [condition] } b.args =
        t.rows.filter fun r => test (t.idOf s r) := by
      refine List.filter_congr fun r hr => ?_
      simp [htest r hr]
    rw [hselected]
    rfl
  · intro c hc
    rw [hcolumns c (by simpa using hc)]
    exact h.id_column

/-- No two rows have the identity, so the first is all there are. -/
theorem filter_idOf (h : t.Fits s) (id : Int64) :
    t.rows.filter (fun r => t.idOf s r == id) = (t.lookup s id).toList := by
  cases hl : t.lookup s id with
  | none => simpa [lookup] using hl
  | some r =>
    obtain ⟨hr, hid⟩ := h.lookup_eq_some.mp hl
    have hnodup : t.rows.Nodup := .of_map _ h.nodup_ids
    have heq : ∀ a ∈ t.rows, (t.idOf s a == id) = (a == r) := fun a ha => by
      rw [Bool.eq_iff_iff, beq_iff_eq, beq_iff_eq]
      exact ⟨fun he => h.eq_of_idOf_eq ha hr (he.trans hid.symm), fun he => he ▸ hid⟩
    rw [List.filter_congr heq, List.filter_beq, List.count_eq_one_of_mem hnodup hr]
    rfl

/-- **One identity is looked up by its row.** -/
theorem byId_answer (h : t.Fits s) (d : Dialect) (id : Int64) :
    t.runStatement ((s.byId id).statement d) =
      .ok (⟨(t.lookup s id).toList.map (t.shown none), 0⟩, t) := by
  rw [h.answer_of_holds d (b := s.byId id) rfl (s.readable_byId id)
    (by simp [Condition.columns]) (· == id)]
  · rw [h.filter_idOf]
  · intro r hr
    simp [holds, h.number?_id hr, TableSpec.byId, argumentNumber?, argument, Value.toInt64?,
      equalNumbers]

/-- **Several identities are looked up by those of them that the table holds.** -/
theorem idsIn_answer (h : t.Fits s) (d : Dialect) (ids : List Int64) :
    t.runStatement ((s.idsIn ids).statement d) =
      .ok (⟨(t.rows.filter fun r => ids.contains (t.idOf s r)).map (t.shown (some [s.idColumn])),
        0⟩, t) := by
  refine h.answer_of_holds d (b := s.idsIn ids) rfl (s.readable_idsIn fun _ => rfl)
    (by simp [Condition.columns]) ids.contains ?_
  intro r hr
  -- the `n`-th argument is the `n`-th identity, counted from one
  have harg : ∀ i (hi : i < ids.length),
      argumentNumber? (s.idsIn ids).args (i + 1) = some ids[i] := fun i hi => by
    simp [TableSpec.idsIn, argumentNumber?, argument, hi, Value.toInt64?]
  rw [holds, h.number?_id hr, Bool.eq_iff_iff, List.any_eq_true, List.contains_iff_mem]
  constructor
  · rintro ⟨n, hn, he⟩
    obtain ⟨i, hi, rfl⟩ := List.mem_range'.mp hn
    rw [Nat.one_mul, Nat.add_comm, harg i hi, equalNumbers, beq_iff_eq] at he
    exact he ▸ List.getElem_mem hi
  · intro hmem
    obtain ⟨i, hi, he⟩ := List.getElem_of_mem hmem
    refine ⟨i + 1, List.mem_range'.mpr ⟨i, hi, by omega⟩, ?_⟩
    rw [harg i hi, he, equalNumbers, beq_iff_eq]

/-- **The names of the columns are told in the table's own order.** -/
theorem namesOf_selectAll (h : t.Fits s) : t.namesOf s.selectAllText = .ok t.columns := by
  have hread : commandOf s.selectAllText = .ok s.selectAll := by
    rw [commandOf, commandIn, TableSpec.selectAllText,
      Parser.command?_render (Grammar.takes_tolerant .sqlite) s.readable_selectAll]
    rfl
  have hname : t.checkName s.name = .ok () := if_pos h.name
  rw [namesOf, hread]
  show (t.checkName s.name >>= fun _ => t.checkColumns []) >>= (fun _ => _) = _
  rw [hname]
  rfl

end Fits
end Table
end Cutover
