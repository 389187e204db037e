import Cutover.Proofs.Table.Select
import Cutover.Scan
import Mathlib.Data.List.Nodup

/-! # Pages of a scan

A scan visits the rows of a table that are in scope and have a place in its order, and it visits
them in that order (`visiting`).  A page behind a cursor is what is left of these rows behind the
cursor, up to the size of a page (`page_answer`); each of its rows tells its own place
(`cursorOf_shownRow`).

All of it is about one state of the table: nothing is assumed of what it was when the page before
was read.
-/

namespace Cutover

open Sql

/-! ## The order of numbers -/

namespace Table

theorem numberLe_total (a b : Option Int64) : (numberLe a b || numberLe b a) = true := by
  cases a with
  | none => rfl
  | some a =>
    cases b with
    | none => rfl
    | some b =>
      have h := Int64.le_total a b
      simpa [numberLe] using h

theorem numberLe_trans {a b c : Option Int64} (hab : numberLe a b = true)
    (hbc : numberLe b c = true) : numberLe a c = true := by
  cases a with
  | none => rfl
  | some a =>
    cases b with
    | none => cases hab
    | some b =>
      cases c with
      | none => cases hbc
      | some c =>
        simp only [numberLe, decide_eq_true_eq] at hab hbc ⊢
        exact Int64.le_trans hab hbc

theorem numberLe_antisymm {a b : Option Int64} (hab : numberLe a b = true)
    (hba : numberLe b a = true) : a = b := by
  cases a with
  | none => cases b with
    | none => rfl
    | some b => cases hba
  | some a => cases b with
    | none => cases hab
    | some b =>
      simp only [numberLe, decide_eq_true_eq] at hab hba
      rw [Int64.le_antisymm hab hba]

variable (t : Table)

/-- The order of rows is total, by induction on the columns that decide it. -/
theorem rowLe_total (cs : List String) (r s : List Value) :
    (t.rowLe cs r s || t.rowLe cs s r) = true := by
  induction cs with
  | nil => rfl
  | cons c cs ih =>
    unfold rowLe
    by_cases h : t.number? r c = t.number? s c
    · simpa [h] using ih
    · simpa [h, Ne.symm h] using numberLe_total (t.number? r c) (t.number? s c)

theorem rowLe_trans {cs : List String} {q r s : List Value} (hqr : t.rowLe cs q r = true)
    (hrs : t.rowLe cs r s = true) : t.rowLe cs q s = true := by
  induction cs with
  | nil => rfl
  | cons c cs ih =>
    simp only [rowLe] at hqr hrs ⊢
    by_cases hq : t.number? q c = t.number? r c
    · rw [if_pos hq] at hqr
      rw [hq]
      split at hrs
      · rename_i hr
        rw [if_pos hr]
        exact ih hqr hrs
      · rename_i hr
        rw [if_neg hr]
        exact hrs
    · rw [if_neg hq] at hqr
      split at hrs
      · rename_i hr
        rw [← hr, if_neg hq]
        exact hqr
      · rename_i hr
        -- were the outer two equal, the middle one would be equal to both
        have hne : t.number? q c ≠ t.number? s c := fun he =>
          hq (numberLe_antisymm hqr (he ▸ hrs))
        rw [if_neg hne]
        exact numberLe_trans hqr hrs

theorem pairwise_mergeSort_rowLe (cs : List String) (rows : List (List Value)) :
    (rows.mergeSort (t.rowLe cs)).Pairwise fun r s => t.rowLe cs r s = true :=
  @List.pairwise_mergeSort _ (t.rowLe cs) (fun _ _ _ => t.rowLe_trans) (t.rowLe_total cs) rows

/-- The rows that a table answers a statement with. -/
def answeredRows (s : Statement) : Except StoreError (List Row) :=
  (t.runStatement s).map (·.1.rows)

end Table

/-! ## The order of a scan -/

namespace Plan

variable (p : Plan)

/-- Whether the scan is ordered by the identity alone. -/
def byId : Bool := p.table.sortsById p.sort

/-- The order in which a scan comes to places. -/
def Before (a b : Cursor) : Prop :=
  if p.byId then a.id < b.id else a.sort < b.sort ∨ a.sort = b.sort ∧ a.id < b.id

instance (a b : Cursor) : Decidable (p.Before a b) := by
  unfold Before
  split <;> infer_instance

variable {p}

theorem Before.irrefl {a : Cursor} : ¬ p.Before a a := by
  unfold Before
  split <;> simp

theorem Before.trans {a b c : Cursor} (hab : p.Before a b) (hbc : p.Before b c) : p.Before a c := by
  unfold Before at *
  split at hab
  · rename_i hid
    simp only [hid, if_true] at hbc ⊢
    exact Int64.lt_trans hab hbc
  · rename_i hid
    simp only [hid] at hbc ⊢
    rcases hab with hab | ⟨hs, hab⟩ <;> rcases hbc with hbc | ⟨hs', hbc⟩
    · exact .inl (Int64.lt_trans hab hbc)
    · exact .inl (hs' ▸ hab)
    · exact .inl (hs ▸ hbc)
    · exact .inr ⟨hs.trans hs', Int64.lt_trans hab hbc⟩

/-- Of two places with different identities one comes first. -/
theorem Before.of_not {a b : Cursor} (h : ¬ p.Before b a) (hne : a.id ≠ b.id) : p.Before a b := by
  have hid := Int64.lt_or_lt_of_ne hne
  unfold Before at *
  split at h
  · rename_i hb
    simp only [hb, if_true]
    exact hid.resolve_right h
  · rename_i hb
    simp only [hb]
    simp only [not_or, not_and] at h
    by_cases hs : a.sort = b.sort
    · exact .inr ⟨hs, hid.resolve_right (h.2 hs.symm)⟩
    · exact .inl ((Int64.lt_or_lt_of_ne hs).resolve_right h.1)

variable (p)

/-! ## Tables that can be scanned -/

/-- The table has what the scan asks for: the columns, and whole numbers or nothing in the one that
orders it. -/
structure Scans (t : Table) : Prop extends t.Fits p.table where
  sort_column : t.HasColumn p.sort
  utime_column : 0 < p.utimeAfter → t.HasColumn p.table.utimeColumn
  sort_int : ∀ r ∈ t.rows, t.cell r p.sort = .null ∨ Table.IsInt (t.cell r p.sort)

theorem scans_iff {p : Plan} {t : Table} : p.Scans t ↔
    t.Fits p.table ∧ t.HasColumn p.sort ∧
      (0 < p.utimeAfter → t.HasColumn p.table.utimeColumn) ∧
      ∀ r ∈ t.rows, t.cell r p.sort = .null ∨ Table.IsInt (t.cell r p.sort) :=
  ⟨fun h => ⟨h.toFits, h.sort_column, h.utime_column, h.sort_int⟩,
    fun ⟨hf, hs, hu, hi⟩ => ⟨hf, hs, hu, hi⟩⟩

instance (t : Table) : Decidable (p.Scans t) := decidable_of_iff _ scans_iff.symm

/-- Whether a row is in scope: it was changed after the cutoff, or there is no cutoff. -/
def inScope (t : Table) (r : List Value) : Bool :=
  if 0 < p.utimeAfter then Table.greater (t.number? r p.table.utimeColumn) (some p.utimeAfter)
  else true

/-- Whether a row has a place in the order of the scan. -/
def placed (t : Table) (r : List Value) : Bool := p.byId || !(t.cell r p.sort).isNull

/-- The columns that order a scan. -/
def orderColumns : List String :=
  if p.byId then [p.table.idColumn] else [p.sort, p.table.idColumn]

/-- The rows that a scan visits, in the order in which it comes to them. -/
def visiting (t : Table) : List (List Value) :=
  (t.rows.filter fun r => p.inScope t r && p.placed t r).mergeSort (t.rowLe p.orderColumns)

/-- The place of a row in the order of a scan. -/
def keyOf (t : Table) (r : List Value) : Cursor :=
  ⟨(t.number? r p.sort).getD 0, t.idOf p.table r⟩

/-- Whether a row lies behind a cursor. -/
def behind (t : Table) (cursor : Option Cursor) (r : List Value) : Bool :=
  match cursor with
  | none => true
  | some c => decide (p.Before c (p.keyOf t r))

/-- The stored rows of the page behind a cursor. -/
def pageRows (t : Table) (cursor : Option Cursor) : List (List Value) :=
  ((p.visiting t).filter (p.behind t cursor)).take p.batch

variable {p} {t : Table}

theorem mem_visiting {r : List Value} :
    r ∈ p.visiting t ↔ r ∈ t.rows ∧ p.inScope t r = true ∧ p.placed t r = true := by
  rw [visiting, List.mem_mergeSort, List.mem_filter, Bool.and_eq_true]

theorem mem_pageRows {cursor : Option Cursor} {r : List Value} (h : r ∈ p.pageRows t cursor) :
    r ∈ p.visiting t ∧ p.behind t cursor r = true :=
  List.mem_filter.mp (List.mem_of_mem_take h)

theorem sameName_of_byId (hb : p.byId = true) : sameName p.sort p.table.idColumn = true := hb

namespace Scans

theorem number?_sort (h : p.Scans t) {r : List Value} (hr : r ∈ t.rows)
    (hp : p.placed t r = true) : t.number? r p.sort = some (p.keyOf t r).sort := by
  have hint : Table.IsInt (t.cell r p.sort) := by
    rcases h.sort_int r hr with hnull | hint
    · rw [placed, hnull, Value.isNull, Bool.not_true, Bool.or_false] at hp
      rw [Table.cell_congr (sameName_of_byId hp)]
      exact h.id_int r hr
    · exact hint
  obtain ⟨n, hn⟩ := hint
  simp [keyOf, Table.number?, hn, Value.toInt64?]

/-- The order of the rows is the order of their places. -/
theorem rowLe_iff (h : p.Scans t) {r s : List Value} (hr : r ∈ p.visiting t)
    (hs : s ∈ p.visiting t) :
    t.rowLe p.orderColumns r s = true ↔ ¬ p.Before (p.keyOf t s) (p.keyOf t r) := by
  obtain ⟨hr, -, hpr⟩ := mem_visiting.mp hr
  obtain ⟨hs, -, hps⟩ := mem_visiting.mp hs
  have hid : ∀ {x}, x ∈ t.rows → t.number? x p.table.idColumn = some (p.keyOf t x).id :=
    fun hx => h.number?_id hx
  -- one column decides the order, or two; in each they hold numbers
  unfold orderColumns Before
  split
  · simp only [Table.rowLe, hid hr, hid hs, Option.some.injEq, Table.numberLe]
    split <;> simp_all [Int64.not_lt]
  · simp only [Table.rowLe, hid hr, hid hs, h.number?_sort hr hpr, h.number?_sort hs hps,
      Option.some.injEq, Table.numberLe]
    split
    · rename_i he
      simp only [he, Int64.lt_irrefl, false_or, true_and]
      split <;> simp_all [Int64.not_lt]
    · rename_i he
      simp [Ne.symm he, Int64.not_lt]

/-- The rows come in the order of their places, no two in one place. -/
theorem pairwise_visiting (h : p.Scans t) :
    (p.visiting t).Pairwise fun a b => p.Before (p.keyOf t a) (p.keyOf t b) := by
  have hle := t.pairwise_mergeSort_rowLe p.orderColumns
    (t.rows.filter fun r => p.inScope t r && p.placed t r)
  have hids : (p.visiting t).Pairwise fun a b => t.idOf p.table a ≠ t.idOf p.table b := by
    have hfilter := (List.pairwise_map.mp h.nodup_ids).filter fun r =>
      p.inScope t r && p.placed t r
    exact (List.mergeSort_perm _ _).symm.pairwise hfilter fun hne he => hne he.symm
  refine (hle.and hids).imp_of_mem fun {a b} ha hb hab => ?_
  exact .of_not ((h.rowLe_iff ha hb).mp hab.1) hab.2

/-- A reading in the order of the scan brings the rows that it wants in this order. -/
theorem mergeSort_filter (h : p.Scans t) (q : List Value → Bool) :
    ((t.rows.filter fun r => p.inScope t r && p.placed t r).filter q).mergeSort
      (t.rowLe p.orderColumns) = (p.visiting t).filter q := by
  have hanti : ∀ a b,
    a ∈ ((t.rows.filter fun r => p.inScope t r && p.placed t r).filter q).mergeSort
      (t.rowLe p.orderColumns) → b ∈ (p.visiting t).filter q →
      t.rowLe p.orderColumns a b = true → t.rowLe p.orderColumns b a = true → a = b := by
    intro a b ha hb hab hba
    have hva : a ∈ p.visiting t :=
      List.mem_mergeSort.mpr (List.mem_filter.mp (List.mem_mergeSort.mp ha)).1
    have hvb : b ∈ p.visiting t := (List.mem_filter.mp hb).1
    by_contra hne
    refine (h.rowLe_iff hva hvb).mp hab (.of_not ((h.rowLe_iff hvb hva).mp hba) fun he => hne ?_)
    exact (h.eq_of_idOf_eq (mem_visiting.mp hvb).1 (mem_visiting.mp hva).1 he).symm
  exact List.Perm.eq_of_pairwise hanti (t.pairwise_mergeSort_rowLe _ _)
    ((t.pairwise_mergeSort_rowLe _ _).filter q)
    ((List.mergeSort_perm _ _).trans ((List.mergeSort_perm _ _).symm.filter q))

end Scans

/-! ## The answer to a page -/

/-- The page that a scan asks for behind a cursor. -/
def pageOf (p : Plan) (cursor : Option Cursor) (idsOnly : Bool) : Page :=
  { sort := p.sort, utimeAfter := p.utimeAfter, cursor, limit := p.batch, idsOnly }

/-- The columns that a page asks for. -/
def pageColumns (p : Plan) (idsOnly : Bool) : Option (List String) :=
  if idsOnly then some (if p.byId then [p.table.idColumn] else [p.table.idColumn, p.sort]) else none

/-- A stored row as a page shows it. -/
def shownRow (p : Plan) (t : Table) (idsOnly : Bool) (r : List Value) : Row :=
  t.shown (p.pageColumns idsOnly) r

theorem pageStatement_eq (hs : IsName p.sort) (cursor : Option Cursor) (idsOnly : Bool) :
    p.pageStatement cursor idsOnly =
      .ok ((p.table.pageCommand (p.pageOf cursor idsOnly)).statement p.dialect) := by
  have hcheck : checkIdentifier p.sort = .ok () := if_pos hs
  rw [pageStatement, TableSpec.page, hcheck]
  rfl

/-- The conditions of a page hold of the rows that the scan visits behind the cursor. -/
theorem Scans.holds_pageConditions (h : p.Scans t) {r : List Value} (hr : r ∈ t.rows)
    (cursor : Option Cursor) (idsOnly : Bool) :
    let page := p.pageOf cursor idsOnly
    (p.table.cutoffConditions page ++ (if p.byId then [] else [Condition.present p.sort]) ++
        p.table.cursorConditions page page.cutoffArgs.length).all
      (t.holds (page.cutoffArgs ++ p.table.cursorArgs page) r) =
        ((p.inScope t r && p.placed t r) && p.behind t cursor r) := by
  intro page
  -- the arguments of the cursor stand behind that of the cutoff, which may be missing
  have hcutoff : (p.table.cutoffConditions page).all
      (t.holds (page.cutoffArgs ++ p.table.cursorArgs page) r) = p.inScope t r := by
    unfold TableSpec.cutoffConditions Page.cutoffArgs inScope
    by_cases hu : 0 < p.utimeAfter
    · simp [page, pageOf, hu, Table.holds, Table.argumentNumber?, Table.argument,
        Value.toInt64?]
    · simp [page, pageOf, hu]
  have hplaced : (if p.byId then [] else [Condition.present p.sort]).all
      (t.holds (page.cutoffArgs ++ p.table.cursorArgs page) r) = p.placed t r := by
    unfold placed
    by_cases hb : p.byId = true <;> simp [hb, Table.holds]
  rw [List.all_append, List.all_append, hcutoff, hplaced]
  cases hp : p.placed t r with
  | false => simp
  | true =>
    congr 1
    cases cursor with
    | none => rfl
    | some c =>
      have hid := h.number?_id hr
      have hsort := h.number?_sort hr hp
      cases hb : p.byId with
      | true =>
        have hargs : p.table.cursorArgs page = [.int c.id] := if_pos hb
        have hconditions : p.table.cursorConditions page page.cutoffArgs.length =
            [.above p.table.idColumn (page.cutoffArgs.length + 1)] := if_pos hb
        rw [hconditions, hargs]
        simp [Table.holds, hid, Table.argumentNumber?, Table.argument, Value.toInt64?,
          Table.greater, behind, Before, hb, keyOf]
      | false =>
        have hargs : p.table.cursorArgs page = [.int c.sort, .int c.sort, .int c.id] :=
          if_neg (by rw [show p.table.sortsById page.sort = p.byId from rfl, hb]; decide)
        have hconditions : p.table.cursorConditions page page.cutoffArgs.length =
            [.either (.above p.sort (page.cutoffArgs.length + 1))
              (.both (.equal p.sort (page.cutoffArgs.length + 2))
                (.above p.table.idColumn (page.cutoffArgs.length + 3)))] :=
          if_neg (by rw [show p.table.sortsById page.sort = p.byId from rfl, hb]; decide)
        have hkey : (p.keyOf t r).id = t.idOf p.table r := rfl
        rw [hconditions, hargs, Bool.eq_iff_iff]
        simp [Table.holds, hid, hsort, Table.argumentNumber?,
          Table.argument, Value.toInt64?, Table.greater, Table.equalNumbers, behind, Before, hb,
          hkey, eq_comm (a := c.sort)]

/-- A page names the columns of the identity and of the order, and with a cutoff that of the
time. -/
theorem column_of_mem_page {cursor : Option Cursor} {idsOnly : Bool} {c : String}
    (hc : c ∈ (p.pageColumns idsOnly).getD [] ++
      (p.table.cutoffConditions (p.pageOf cursor idsOnly) ++
        (if p.byId then [] else [Condition.present p.sort]) ++
        p.table.cursorConditions (p.pageOf cursor idsOnly)
          (p.pageOf cursor idsOnly).cutoffArgs.length).flatMap Condition.columns ++
      p.orderColumns) :
    c = p.table.idColumn ∨ c = p.sort ∨ 0 < p.utimeAfter ∧ c = p.table.utimeColumn := by
  simp only [List.flatMap_append, List.mem_append] at hc
  rcases hc with (hc | (hc | hc) | hc) | hc
  · unfold pageColumns at hc
    split_ifs at hc <;> simp at hc
    · exact .inl hc
    · exact hc.imp_right .inl
  · unfold TableSpec.cutoffConditions at hc
    split_ifs at hc with hu
    · exact .inr (.inr ⟨hu, by simpa [Condition.columns] using hc⟩)
    · cases hc
  · split_ifs at hc
    · cases hc
    · exact .inr (.inl (by simpa [Condition.columns] using hc))
  · unfold TableSpec.cursorConditions at hc
    cases cursor with
    | none => cases hc
    | some _ =>
      split_ifs at hc <;> simp [Condition.columns, pageOf] at hc
      · exact .inl hc
      · rcases hc with rfl | rfl <;> simp
  · unfold orderColumns at hc
    split_ifs at hc <;> simp at hc
    · exact .inl hc
    · exact hc.symm.imp_right .inl

/-- **A page holds what the scan has yet to visit behind the cursor, up to the size of a page.** -/
theorem Scans.page_answer (h : p.Scans t) (hs : IsName p.sort) (cursor : Option Cursor)
    (idsOnly : Bool) :
    ∃ s, p.pageStatement cursor idsOnly = .ok s ∧
      t.runStatement s =
        .ok ({ rows := (p.pageRows t cursor).map (p.shownRow t idsOnly) }, t) := by
  refine ⟨_, pageStatement_eq hs cursor idsOnly, ?_⟩
  have hreadable := p.table.readable_pageCommand (g := .tolerant) (p := p.pageOf cursor idsOnly) hs
  rw [t.runStatement_statement p.dialect hreadable, TableSpec.pageCommand, Table.run,
    Table.select_eq_ok h.name _ h.width]
  · have hselected : ∀ s args, s.order = p.orderColumns → s.limit = some (max p.batch 1) →
        (∀ r ∈ t.rows, s.conditions.all (t.holds args r) =
          ((p.inScope t r && p.placed t r) && p.behind t cursor r)) →
        t.selected s args = p.pageRows t cursor := by
      intro s args horder hlimit hall
      have hne : s.order.isEmpty = false := by
        rw [horder, orderColumns]
        split <;> rfl
      have hbatch : max p.batch 1 = p.batch := Nat.max_eq_left p.batch_pos
      rw [Table.selected, hne, hlimit, hbatch, List.filter_congr hall, horder, pageRows,
        ← h.mergeSort_filter, List.filter_filter]
      simp only [Bool.and_comm]
      rfl
    rw [hselected _ _ rfl rfl fun r hr => h.holds_pageConditions hr cursor idsOnly]
    rfl
  · intro c hc
    rcases column_of_mem_page hc with rfl | rfl | ⟨hu, rfl⟩
    · exact h.id_column
    · exact h.sort_column
    · exact h.utime_column hu

/-- A table answers the statement for a page. -/
theorem Scans.answeredRows_page (h : p.Scans t) (hs : IsName p.sort)
    (cursor : Option Cursor) (idsOnly : Bool) :
    ∃ s, p.pageStatement cursor idsOnly = .ok s ∧
      t.answeredRows s = .ok ((p.pageRows t cursor).map (p.shownRow t idsOnly)) := by
  obtain ⟨s, hs, hrun⟩ := h.page_answer hs cursor idsOnly
  exact ⟨s, hs, by rw [Table.answeredRows, hrun]; rfl⟩

/-- A row of a page holds what orders it. -/
theorem Scans.get?_shownRow (h : p.Scans t) (idsOnly : Bool) {r : List Value} (hr : r ∈ t.rows)
    {c : String} (hc : c = p.table.idColumn ∨ c = p.sort) :
    (p.shownRow t idsOnly r).get? c = some (t.cell r c) := by
  have hw := h.width r hr
  cases idsOnly with
  | false =>
    refine Table.get?_shown hw ?_ (by rintro l ⟨⟩)
    rcases hc with rfl | rfl
    · exact h.id_column
    · exact h.sort_column
  | true =>
    rcases hc with rfl | rfl
    · refine Table.get?_shown hw h.id_column ?_
      rintro l ⟨⟩
      split <;> simp
    · cases hb : p.byId with
      | true =>
        -- the column has one name for the order and one for the identity
        have hsame := sameName_of_byId hb
        rw [Row.get?_congr hsame, Table.cell_congr hsame]
        refine Table.get?_shown hw h.id_column ?_
        rintro l ⟨⟩
        simp [hb]
      | false =>
        refine Table.get?_shown hw h.sort_column ?_
        rintro l ⟨⟩
        simp [hb]

/-- **Each row of a page tells its place.** -/
theorem Scans.cursorOf_shownRow (h : p.Scans t) (idsOnly : Bool) {r : List Value}
    (hr : r ∈ p.visiting t) : p.cursorOf (p.shownRow t idsOnly r) = .ok (p.keyOf t r) := by
  obtain ⟨hrows, -, hplaced⟩ := mem_visiting.mp hr
  have hid : (p.shownRow t idsOnly r).getInt64 p.table.idColumn = .ok (p.keyOf t r).id :=
    Row.getInt64_eq_ok (h.get?_shownRow idsOnly hrows (.inl rfl)) (h.number?_id hrows)
  have hsort : (p.shownRow t idsOnly r).getInt64 p.sort = .ok (p.keyOf t r).sort :=
    Row.getInt64_eq_ok (h.get?_shownRow idsOnly hrows (.inr rfl)) (h.number?_sort hrows hplaced)
  rw [cursorOf, hid, hsort]
  rfl

end Plan
end Cutover
