import Cutover.Proofs.Scan.Page

/-! # Paging while the table changes

A scan reads its pages one after the other, and between two of them the table may become any other
table.  Pages are therefore read from a list of tables, one for each page, and each of them is asked
for behind the last row of the page before (`Plan.Paged`).

The order of the places carries the argument.  A page lies behind its cursor and leaves nothing out
between the cursor and its last row, so a row that keeps its place is either on the page or behind
it, whatever happens to the rows around it (`Plan.Paged.mem_or_before`).  With the first page that
is not full there is nothing behind it any more.
-/

namespace Cutover.Plan

variable (p : Plan)

/-- The table holds a row in scope that has this place. -/
def HasAt (t : Table) (k : Cursor) : Prop :=
  ∃ r ∈ t.rows, t.cell r p.table.idColumn = .int k.id ∧ t.cell r p.sort = .int k.sort ∧
    p.inScope t r = true

/-- The places on the page behind a cursor. -/
def pageKeys (t : Table) (cursor : Option Cursor) : List Cursor :=
  (p.pageRows t cursor).map (p.keyOf t)

variable {p} {t : Table} {cursor : Option Cursor} {idsOnly : Bool}

/-! ## One page -/

theorem behind_of_mem_pageKeys {k : Cursor} (hk : k ∈ p.pageKeys t cursor) :
    ∀ c ∈ cursor, p.Before c k := by
  rintro c rfl
  obtain ⟨r, hr, rfl⟩ := List.mem_map.mp hk
  exact of_decide_eq_true (mem_pageRows hr).2

theorem Scans.pairwise_pageKeys (h : p.Scans t) (cursor : Option Cursor) :
    (p.pageKeys t cursor).Pairwise p.Before := by
  rw [pageKeys, List.pairwise_map]
  exact (h.pairwise_visiting.filter _).sublist (List.take_sublist _ _)

/-- **Between its cursor and its last row a page leaves nothing out.** -/
theorem Scans.mem_pageRows_or_before (h : p.Scans t) {r : List Value} (hr : r ∈ p.visiting t)
    (hbehind : ∀ c ∈ cursor, p.Before c (p.keyOf t r)) :
    r ∈ p.pageRows t cursor ∨
      ((p.pageRows t cursor).length = p.batch ∧
        ∀ a ∈ p.pageRows t cursor, p.Before (p.keyOf t a) (p.keyOf t r)) := by
  have hleft : r ∈ (p.visiting t).filter (p.behind t cursor) := by
    refine List.mem_filter.mpr ⟨hr, ?_⟩
    cases cursor with
    | none => rfl
    | some c => exact decide_eq_true (hbehind c rfl)
  have hordered : ((p.visiting t).filter (p.behind t cursor)).Pairwise fun a b =>
      p.Before (p.keyOf t a) (p.keyOf t b) := h.pairwise_visiting.filter _
  -- the row is on the page or among those that did not fit
  rw [← List.take_append_drop p.batch ((p.visiting t).filter (p.behind t cursor))] at hleft hordered
  rcases List.mem_append.mp hleft with hpage | hlater
  · exact .inl hpage
  · right
    refine ⟨?_, fun a ha => (List.pairwise_append.mp hordered).2.2 a ha r hlater⟩
    have hlt : p.batch < ((p.visiting t).filter (p.behind t cursor)).length := by
      by_contra hge
      rw [List.drop_eq_nil_of_le (by omega)] at hlater
      cases hlater
    rw [pageRows, List.length_take]
    omega

/-- A place that a row has in scope is on the page or behind it. -/
theorem Scans.mem_or_before (h : p.Scans t) {k : Cursor} (hk : p.HasAt t k)
    (hbehind : ∀ c ∈ cursor, p.Before c k) :
    k ∈ p.pageKeys t cursor ∨
      ((p.pageKeys t cursor).length = p.batch ∧ ∀ j ∈ p.pageKeys t cursor, p.Before j k) := by
  obtain ⟨r, hr, hid, hsort, hscope⟩ := hk
  have hplaced : p.placed t r = true := by simp [placed, hsort, Value.isNull]
  have hkey : p.keyOf t r = k := by
    simp [keyOf, Table.idOf, Table.number?, hid, hsort, Value.toInt64?]
  subst hkey
  have hvisited : r ∈ p.visiting t := mem_visiting.mpr ⟨hr, hscope, hplaced⟩
  rcases h.mem_pageRows_or_before hvisited hbehind with hpage | ⟨hfull, hbefore⟩
  · exact .inl (List.mem_map.mpr ⟨r, hpage, rfl⟩)
  · refine .inr ⟨by rw [pageKeys, List.length_map, hfull], ?_⟩
    intro j hj
    obtain ⟨a, ha, rfl⟩ := List.mem_map.mp hj
    exact hbefore a ha

/-- In an ordered list nothing lies behind the last. -/
theorem eq_or_before_getLast {keys : List Cursor} {last : Cursor}
    (hordered : keys.Pairwise p.Before) (hlast : last ∈ keys.getLast?) {k : Cursor}
    (hk : k ∈ keys) : k = last ∨ p.Before k last := by
  obtain ⟨init, rfl⟩ := List.getLast?_eq_some_iff.mp hlast
  rcases List.mem_append.mp hk with hk | hk
  · exact .inr ((List.pairwise_append.mp hordered).2.2 k hk last (by simp))
  · exact .inl (List.mem_singleton.mp hk)

/-! ## Page after page -/

/-- A page that has been read: the statement that asked for it, and the rows that came. -/
structure PageRead where
  statement : Statement
  rows : List Row

variable (p) in
/-- The places of rows, as far as they have one. -/
def placesOf (rows : List Row) : List Cursor := rows.filterMap fun r => (p.cursorOf r).toOption

variable (p) in
/-- The places visited on pages, in the order in which they were come to. -/
def visitedOn (read : List PageRead) : List Cursor := read.flatMap fun q => p.placesOf q.rows

variable (p) in
/-- Pages that were read one after the other, each from the table of its turn: every one was asked
for behind the last place that was visited, and its rows have places. -/
inductive Paged (idsOnly : Bool) (tables : Nat → Table) : List PageRead → Prop where
  | none : Paged idsOnly tables []
  | more {read : List PageRead} {s : Statement} {rows : List Row} {keys : List Cursor} :
      Paged idsOnly tables read → p.pageStatement (p.visitedOn read).getLast? idsOnly = .ok s →
      (tables read.length).answeredRows s = .ok rows → rows.mapM p.cursorOf = .ok keys →
      Paged idsOnly tables (read ++ [⟨s, rows⟩])

@[simp]
theorem visitedOn_nil : p.visitedOn [] = [] := rfl

@[simp]
theorem visitedOn_append (as bs : List PageRead) :
    p.visitedOn (as ++ bs) = p.visitedOn as ++ p.visitedOn bs := List.flatMap_append

theorem placesOf_eq {rows : List Row} {keys : List Cursor} (h : rows.mapM p.cursorOf = .ok keys) :
    p.placesOf rows = keys := by
  induction rows generalizing keys with
  | nil =>
    obtain rfl := Except.ok.inj h
    rfl
  | cons r rows ih =>
    obtain ⟨k, ks, hr, hrows, rfl⟩ := mapM_cons_eq_ok h
    rw [placesOf, List.filterMap_cons, hr]
    exact congrArg (k :: ·) (ih hrows)

theorem visitedOn_single {s : Statement} {rows : List Row} {keys : List Cursor}
    (h : rows.mapM p.cursorOf = .ok keys) : p.visitedOn [⟨s, rows⟩] = keys := by
  rw [visitedOn, List.flatMap_singleton, placesOf_eq h]

/-- A page that is read tells the places on it. -/
theorem Scans.exists_page (h : p.Scans t) (hs : Sql.IsName p.sort) (cursor : Option Cursor)
    (idsOnly : Bool) :
    ∃ s rows, p.pageStatement cursor idsOnly = .ok s ∧ t.answeredRows s = .ok rows ∧
      rows.mapM p.cursorOf = .ok (p.pageKeys t cursor) ∧
      rows.length = (p.pageKeys t cursor).length := by
  obtain ⟨s, hstatement, hanswer⟩ := h.answeredRows_page hs cursor idsOnly
  refine ⟨s, _, hstatement, hanswer, ?_, ?_⟩
  · rw [List.mapM_map]
    exact mapM_eq_ok fun r hr => h.cursorOf_shownRow idsOnly (mem_pageRows hr).1
  · rw [pageKeys, List.length_map, List.length_map]

/-- The page behind a cursor is the one that the table answers with. -/
theorem Scans.page_of_answer (h : p.Scans t) (hs : Sql.IsName p.sort) {s : Statement}
    {rows : List Row} (hstatement : p.pageStatement cursor idsOnly = .ok s)
    (hanswer : t.answeredRows s = .ok rows) : rows.mapM p.cursorOf = .ok (p.pageKeys t cursor) ∧
      rows.length = (p.pageKeys t cursor).length := by
  obtain ⟨s', rows', hstatement', hanswer', hpage⟩ := h.exists_page hs cursor idsOnly
  obtain rfl := Except.ok.inj (hstatement.symm.trans hstatement')
  obtain rfl := Except.ok.inj (hanswer.symm.trans hanswer')
  exact hpage

namespace Paged

variable {tables : Nat → Table} {read : List PageRead}

/-- What was read first was read in the same way. -/
theorem of_append {before after : List PageRead} (h : p.Paged idsOnly tables (before ++ after)) :
    p.Paged idsOnly tables before := by
  generalize hread : before ++ after = read at h
  induction h generalizing after with
  | none =>
    obtain ⟨rfl, -⟩ := List.append_eq_nil_iff.mp hread
    exact .none
  | @more read s rows keys hbefore hstatement hanswer hkeys ih =>
    rcases List.eq_nil_or_concat after with rfl | ⟨init, last, rfl⟩
    · rw [List.append_nil] at hread
      exact hread ▸ .more hbefore hstatement hanswer hkeys
    · rw [List.concat_eq_append, ← List.append_assoc] at hread
      exact ih (List.append_inj_left' hread rfl)

variable (hs : Sql.IsName p.sort) (hscans : ∀ n, p.Scans (tables n))
include hs hscans

/-- **The places come strictly in the order of the scan**, by induction on the pages: each page lies
behind the last place of those before it. -/
theorem ordered (h : p.Paged idsOnly tables read) : (p.visitedOn read).Pairwise p.Before := by
  induction h with
  | none => exact .nil
  | @more read s rows keys _ hstatement hanswer _ ih =>
    obtain ⟨hkeys, -⟩ := (hscans read.length).page_of_answer hs hstatement hanswer
    rw [visitedOn_append, visitedOn_single hkeys]
    refine List.pairwise_append.mpr ⟨ih, (hscans read.length).pairwise_pageKeys _, ?_⟩
    intro a ha b hb
    obtain ⟨last, hlast⟩ : ∃ last, last ∈ (p.visitedOn read).getLast? :=
      ⟨_, List.getLast?_eq_some_getLast (List.ne_nil_of_mem ha)⟩
    have hbehind : p.Before last b := behind_of_mem_pageKeys hb last hlast
    rcases eq_or_before_getLast ih hlast ha with rfl | hal
    · exact hbehind
    · exact hal.trans hbehind

/-- **A place that a row kept was visited or lies behind all that were**, by induction on the
pages. -/
theorem mem_or_before (h : p.Paged idsOnly tables read) {k : Cursor}
    (hk : ∀ n < read.length, p.HasAt (tables n) k) :
    k ∈ p.visitedOn read ∨
      (∀ q ∈ read, q.rows.length = p.batch) ∧ ∀ j ∈ p.visitedOn read, p.Before j k := by
  induction h with
  | none => exact .inr ⟨by simp, by simp⟩
  | @more read s rows keys _ hstatement hanswer _ ih =>
    rw [List.length_append] at hk
    obtain ⟨hkeys, hlength⟩ := (hscans read.length).page_of_answer hs hstatement hanswer
    rw [visitedOn_append, visitedOn_single hkeys]
    rcases ih fun n hn => hk n (Nat.lt_add_right 1 hn) with hmem | ⟨hfull, hbefore⟩
    · exact .inl (List.mem_append_left _ hmem)
    · have hkept : p.HasAt (tables read.length) k := hk read.length (Nat.lt_succ_self _)
      have hbehind : ∀ c ∈ (p.visitedOn read).getLast?, p.Before c k := fun c hc =>
        hbefore c (List.mem_of_getLast? hc)
      rcases (hscans read.length).mem_or_before hkept hbehind with hpage | ⟨hwhole, hlater⟩
      · exact .inl (List.mem_append_right _ hpage)
      · right
        constructor
        · intro q hq
          rcases List.mem_append.mp hq with hq | hq
          · exact hfull q hq
          · rw [List.mem_singleton.mp hq]
            exact hlength.trans hwhole
        · intro j hj
          rcases List.mem_append.mp hj with hj | hj
          · exact hbefore j hj
          · exact hlater j hj

/-- No place is visited twice. -/
theorem nodup (h : p.Paged idsOnly tables read) : (p.visitedOn read).Nodup := by
  refine (h.ordered hs hscans).imp ?_
  rintro a b hab rfl
  exact Before.irrefl hab

/-- **Once a page has not been full, a place that a row kept has been visited exactly once.** -/
theorem count_eq_one (h : p.Paged idsOnly tables read) {q : PageRead} (hq : q ∈ read)
    (hshort : q.rows.length < p.batch) {k : Cursor} (hk : ∀ n < read.length, p.HasAt (tables n) k) :
    (p.visitedOn read).count k = 1 := by
  apply List.count_eq_one_of_mem (h.nodup hs hscans)
  refine (h.mem_or_before hs hscans hk).resolve_right ?_
  rintro ⟨hfull, -⟩
  exact absurd (hfull q hq) (Nat.ne_of_lt hshort)

end Paged

/-- Pages of one row in the order of the last change. -/
def samplePlan : Plan where
  base := .src
  target := .dst
  direction := .src
  table := .items
  sort := "utime"
  utimeAfter := 1
  batch := 1
  batch_pos := Nat.one_pos

/-- A table of three columns with the given rows. -/
def sampleTable (rows : List (List Value)) : Table := ⟨"items", "id", ["id", "name", "utime"], rows⟩

end Cutover.Plan
