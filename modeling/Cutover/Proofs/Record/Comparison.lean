import Mathlib.Data.List.Nodup
import Mathlib.Data.List.Perm.Subperm
import Cutover.Record
import Cutover.Proofs.Table.Select

/-! # Comparing records

The comparison of two records looks each cell of the first up in the second, and counts the columns.
If no row has two columns whose names differ in letter case only, this says as much as looking from
both sides (`Record.equals_iff`): the first matching cell is the only one, and as many names as the
other row has, all found there, are all of its names.  So the comparison depends on the cells with
their names in lower case, and on nothing else (`Record.comparison_is_by_name`).
-/

namespace Cutover

/-! ## Values -/

theorem Binary64.equals_trans {x y z : Binary64} (hxy : x.equals y = true)
    (hyz : y.equals z = true) : x.equals z = true := by
  simp only [equals, Bool.and_eq_true, Bool.not_eq_true', Bool.or_eq_true, beq_iff_eq] at hxy hyz ⊢
  obtain ⟨⟨hx, -⟩, hxy⟩ := hxy
  obtain ⟨⟨-, hz⟩, hyz⟩ := hyz
  refine ⟨⟨hx, hz⟩, ?_⟩
  rcases hxy with rfl | ⟨hx0, hy0⟩
  · exact hyz
  · rcases hyz with rfl | ⟨-, hz0⟩
    · exact .inr ⟨hx0, hy0⟩
    · exact .inr ⟨hx0, hz0⟩

theorem Value.equals_trans {u v w : Value} (huv : u.equals v = true) (hvw : v.equals w = true) :
    u.equals w = true := by
  cases u <;> cases v <;> simp only [equals, Bool.false_eq_true, beq_iff_eq] at huv <;> cases w <;>
    simp only [equals, Bool.false_eq_true, beq_iff_eq] at hvw ⊢
  case float => exact Binary64.equals_trans huv hvw
  all_goals exact huv.trans hvw

/-! ## Rows -/

namespace Row

/-- The cells with their names in lower case. -/
def plain (r : Row) : List (String × Value) := r.cells.map fun c => (caseless c.1, c.2)

/-- The names of the columns in lower case. -/
def names (r : Row) : List String := r.plain.map (·.1)

/-- No names of columns differ in letter case only. -/
def Distinct (r : Row) : Prop := r.names.Nodup

instance (r : Row) : Decidable r.Distinct := inferInstanceAs (Decidable r.names.Nodup)

/-- The same cells in any order, with their names in any letter case. -/
def Respells (r s : Row) : Prop := r.plain.Perm s.plain

variable {r s : Row} {n column : String} {v w : Value}

theorem mem_names_iff : n ∈ r.names ↔ ∃ v, (n, v) ∈ r.plain := by
  simp [names]

theorem length_names : r.names.length = r.cells.length := by
  rw [names, plain, List.length_map, List.length_map]

/-- A name has one value. -/
theorem Distinct.eq_of_mem (h : r.Distinct) (hv : (n, v) ∈ r.plain) (hw : (n, w) ∈ r.plain) :
    v = w :=
  congrArg Prod.snd (List.inj_on_of_nodup_map h hv hw rfl)

/-- **The first cell that matches is the only one.** -/
theorem Distinct.get?_eq_some_iff (h : r.Distinct) :
    r.get? column = some v ↔ (caseless column, v) ∈ r.plain := by
  have hfound : ∀ w, r.get? column = some w → (caseless column, w) ∈ r.plain := by
    intro w hw
    obtain ⟨c, hc, rfl⟩ := Option.map_eq_some_iff.mp hw
    refine List.mem_map.mpr ⟨c, List.mem_of_find?_eq_some hc, ?_⟩
    have hname : sameName c.1 column = true :=
      List.find?_some (p := fun c : String × Value => sameName c.1 column) hc
    rw [sameName_iff.mp hname]
  refine ⟨hfound v, fun hv => ?_⟩
  cases hget : r.get? column with
  | some w => rw [h.eq_of_mem (hfound w hget) hv]
  | none =>
    obtain ⟨c, hc, heq⟩ := List.mem_map.mp hv
    have hname : caseless c.1 = caseless column := congrArg Prod.fst heq
    exact absurd (sameName_iff.mpr hname)
      (List.find?_eq_none.mp (Option.map_eq_none_iff.mp hget) c hc)

theorem Respells.names_perm (h : r.Respells s) : r.names.Perm s.names := h.map _

theorem Respells.distinct (h : r.Respells s) (hr : r.Distinct) : s.Distinct :=
  h.names_perm.nodup_iff.mp hr

/-- A column is looked up alike in rows with the same cells. -/
theorem Respells.get?_eq (h : r.Respells s) (hr : r.Distinct) : r.get? column = s.get? column := by
  ext v
  rw [hr.get?_eq_some_iff, (h.distinct hr).get?_eq_some_iff, h.mem_iff]

/-- The rows hold equal values under the same names. -/
def HoldsEqual (r s : Row) : Prop :=
  (∀ n, n ∈ r.names ↔ n ∈ s.names) ∧ ∀ n v w, (n, v) ∈ r.plain → (n, w) ∈ s.plain →
    v.equals w = true

theorem HoldsEqual.symm (h : r.HoldsEqual s) : s.HoldsEqual r :=
  ⟨fun n => (h.1 n).symm, fun n v w hv hw => Value.equals_comm v w ▸ h.2 n w v hw hv⟩

theorem HoldsEqual.trans {t : Row} (h : r.HoldsEqual s) (h' : s.HoldsEqual t) : r.HoldsEqual t := by
  refine ⟨fun n => (h.1 n).trans (h'.1 n), fun n v w hv hw => ?_⟩
  obtain ⟨u, hu⟩ := mem_names_iff.mp ((h.1 n).mp (mem_names_iff.mpr ⟨v, hv⟩))
  exact Value.equals_trans (h.2 n v u hv hu) (h'.2 n u w hu hw)

theorem Respells.holdsEqual_iff {r' s' : Row} (h : r.Respells r') (h' : s.Respells s') :
    r'.HoldsEqual s' ↔ r.HoldsEqual s := by
  simp only [HoldsEqual, h.names_perm.mem_iff, h'.names_perm.mem_iff, h.mem_iff, h'.mem_iff]

end Row

/-! ## Records -/

namespace Record

open Row

variable {a b : Record}

/-- A comparison counts the columns and looks each cell up. -/
theorem equals_iff_found (hb : b.row.Distinct) :
    a.equals b = true ↔ (a.id = b.id ∧ a.row.names.length = b.row.names.length) ∧
      ∀ n v, (n, v) ∈ a.row.plain → ∃ w, (n, w) ∈ b.row.plain ∧ w.equals v = true := by
  rw [equals, Bool.and_eq_true, Bool.and_eq_true, beq_iff_eq, beq_iff_eq, length_names,
    length_names, List.all_eq_true]
  refine and_congr_right fun _ => ⟨fun h n v hv => ?_, fun h c hc => ?_⟩
  · obtain ⟨c, hc, heq⟩ := List.mem_map.mp hv
    obtain ⟨rfl, rfl⟩ := Prod.mk.inj heq
    have hcell := h c hc
    cases hget : b.row.get? c.1 with
    | none =>
      rw [hget] at hcell
      cases hcell
    | some w =>
      rw [hget] at hcell
      exact ⟨w, hb.get?_eq_some_iff.mp hget, hcell⟩
  · obtain ⟨w, hw, heq⟩ := h _ _ (List.mem_map.mpr ⟨c, hc, rfl⟩)
    rw [hb.get?_eq_some_iff.mpr hw]
    exact heq

/-- **Records are equal** if their identities are and their rows hold equal values under the same
names. -/
theorem equals_iff (ha : a.row.Distinct) (hb : b.row.Distinct) :
    a.equals b = true ↔ a.id = b.id ∧ a.row.HoldsEqual b.row := by
  rw [equals_iff_found hb, and_assoc]
  refine and_congr_right fun _ => ⟨?_, ?_⟩
  · rintro ⟨hlength, hfound⟩
    have hsubset : a.row.names ⊆ b.row.names := by
      intro n hn
      obtain ⟨v, hv⟩ := mem_names_iff.mp hn
      obtain ⟨w, hw, -⟩ := hfound n v hv
      exact mem_names_iff.mpr ⟨w, hw⟩
    -- as many names, all found in the other row, are all of its names
    have hperm := (List.subperm_of_subset ha hsubset).perm_of_length_le (Nat.le_of_eq hlength.symm)
    refine ⟨fun n => hperm.mem_iff, fun n v w hv hw => ?_⟩
    obtain ⟨w', hw', heq⟩ := hfound n v hv
    rwa [hb.eq_of_mem hw hw', Value.equals_comm]
  · rintro ⟨hnames, hvalues⟩
    refine ⟨((List.perm_ext_iff_of_nodup ha hb).mpr hnames).length_eq, fun n v hv => ?_⟩
    obtain ⟨w, hw⟩ := mem_names_iff.mp ((hnames n).mp (mem_names_iff.mpr ⟨v, hv⟩))
    exact ⟨w, hw, Value.equals_comm w v ▸ hvalues n v w hv hw⟩

theorem ofRow?_eq_ok_iff {row : Row} {idColumn : String} :
    ofRow? row idColumn = .ok a ↔ row.getInt64 idColumn = .ok a.id ∧ a.row = row := by
  rw [ofRow?]
  cases row.getInt64 idColumn with
  | error e => simp [bind, Except.bind]
  | ok i =>
    constructor
    · rintro ⟨⟩
      exact ⟨rfl, rfl⟩
    · rintro ⟨hid, rfl⟩
      cases hid
      rfl

/-- A row with the same cells is decoded alike. -/
theorem ofRow?_of_respells {row row' : Row} {idColumn : String} (h : row.Respells row')
    (hrow : row.Distinct) (ha : ofRow? row idColumn = .ok a) :
    ofRow? row' idColumn = .ok ⟨a.id, row'⟩ := by
  refine ofRow?_eq_ok_iff.mpr ⟨?_, rfl⟩
  rw [← (ofRow?_eq_ok_iff.mp ha).1, getInt64, getInt64, h.get?_eq hrow]

/-- **Records are compared by name.**  Of records that are decoded from rows with distinct names,
two are equal if their identities are, the names of their columns are the same without regard to
letter case, and the values under each name are equal.  So the comparison is symmetric and
transitive, and neither the order of the columns of a row nor the case of their names has anything
to do with it. -/
theorem comparison_is_by_name {ra rb rc : Row} {ida idb idc : String} {a b c : Record}
    (ha : ofRow? ra ida = .ok a) (hb : ofRow? rb idb = .ok b) (hc : ofRow? rc idc = .ok c)
    (hda : ra.Distinct) (hdb : rb.Distinct) (hdc : rc.Distinct) :
    (a.equals b = true ↔ a.id = b.id ∧ (∀ n, n ∈ ra.names ↔ n ∈ rb.names) ∧
        ∀ n v w, (n, v) ∈ ra.plain → (n, w) ∈ rb.plain → v.equals w = true) ∧
      a.equals b = b.equals a ∧
      (a.equals b = true → b.equals c = true → a.equals c = true) ∧
      ∀ ra' rb', ra.Respells ra' → rb.Respells rb' →
        ∃ a' b', ofRow? ra' ida = .ok a' ∧ ofRow? rb' idb = .ok b' ∧ a'.equals b' = a.equals b := by
  obtain rfl := (ofRow?_eq_ok_iff.mp ha).2
  obtain rfl := (ofRow?_eq_ok_iff.mp hb).2
  obtain rfl := (ofRow?_eq_ok_iff.mp hc).2
  have hab := equals_iff hda hdb
  refine ⟨hab, ?_, ?_, ?_⟩
  · rw [Bool.eq_iff_iff, hab, equals_iff hdb hda]
    exact and_congr eq_comm ⟨HoldsEqual.symm, HoldsEqual.symm⟩
  · rw [hab, equals_iff hdb hdc, equals_iff hda hdc]
    exact fun h h' => ⟨h.1.trans h'.1, h.2.trans h'.2⟩
  · intro ra' rb' hra hrb
    refine ⟨_, _, ofRow?_of_respells hra hda ha, ofRow?_of_respells hrb hdb hb, ?_⟩
    rw [Bool.eq_iff_iff, hab, equals_iff (hra.distinct hda) (hrb.distinct hdb)]
    exact and_congr_right fun _ => hra.holdsEqual_iff hrb

/-- A row, the row with its columns in another order and case, and the row with another name in
it. -/
def written : Row := ⟨[("id", .int 1), ("name", .text "a")]⟩
def respelt : Row := ⟨[("NAME", .text "a"), ("Id", .int 1)]⟩
def renamed : Row := ⟨[("id", .int 1), ("name", .text "b")]⟩

/-- A row that is spelt in another way is compared alike, and a row with another value is another
row. -/
theorem comparison_is_by_name_sample :
    (ofRow? written "id" = .ok ⟨1, written⟩ ∧ ofRow? respelt "id" = .ok ⟨1, respelt⟩ ∧
      ofRow? renamed "id" = .ok ⟨1, renamed⟩ ∧ written.Distinct ∧ respelt.Distinct ∧
      renamed.Distinct) ∧ Record.equals ⟨1, written⟩ ⟨1, respelt⟩ = true ∧
      Record.equals ⟨1, respelt⟩ ⟨1, written⟩ = true ∧
      Record.equals ⟨1, respelt⟩ ⟨1, renamed⟩ = false := by
  have hspelt : written.Respells respelt := by
    have hwritten : written.plain = [("id", .int 1), ("name", .text "a")] := by
      simp [plain, written, caseless, ← String.toList_inj]
    have hrespelt : respelt.plain = [("name", .text "a"), ("id", .int 1)] := by
      simp [plain, respelt, caseless, ← String.toList_inj]
    rw [Respells, hwritten, hrespelt]
    exact .swap _ _ _
  have hda : written.Distinct := by decide +kernel
  have hdc : renamed.Distinct := by decide +kernel
  have ha : ofRow? written "id" = .ok ⟨1, written⟩ := ofRow?_eq_ok_iff.mpr ⟨by decide +kernel, rfl⟩
  have hc : ofRow? renamed "id" = .ok ⟨1, renamed⟩ := ofRow?_eq_ok_iff.mpr ⟨by decide +kernel, rfl⟩
  have hb : ofRow? respelt "id" = .ok ⟨1, respelt⟩ := ofRow?_of_respells hspelt hda ha
  have haa : Record.equals ⟨1, written⟩ ⟨1, written⟩ = true := by decide +kernel
  have hac : Record.equals ⟨1, written⟩ ⟨1, renamed⟩ ≠ true := by decide +kernel
  have hab : Record.equals ⟨1, written⟩ ⟨1, respelt⟩ = true :=
    (equals_iff hda (hspelt.distinct hda)).mpr
      ⟨rfl, (Respells.holdsEqual_iff (.refl _) hspelt).mpr ((equals_iff hda hda).mp haa).2⟩
  obtain ⟨-, hsymm, htrans, -⟩ := comparison_is_by_name ha hb hc hda (hspelt.distinct hda) hdc
  refine ⟨⟨ha, hb, hc, hda, hspelt.distinct hda, hdc⟩, hab, hsymm.symm.trans hab, ?_⟩
  -- else the first and the third, which differ in a value, would be equal too
  exact Bool.eq_false_iff.mpr fun hbc => hac (htrans hab hbc)

end Record
end Cutover
