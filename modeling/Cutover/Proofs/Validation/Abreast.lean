import Cutover.Proofs.Scan.Paging
import Cutover.Proofs.Table.Content
import Cutover.Proofs.Validation.Watch

/-! # A scan that keeps up with its base

A scan goes on behind the place of the last row that it has read, and a write puts its row at the
latest time in the table.  So a new version lies behind the place of the scan, where the scan has
yet to come, or it ties with the row that the scan has read last.  Nothing else can happen: this is
what a scan keeps (`Plan.Abreast`), by every write (`Abreast.wrote`), by every request that is not
for a page (`Abreast.asked`), and by a page, whose rows are then to be compared (`Abreast.paged`).

A pass reads one page and compares what is on it.  At its end nothing is left of the page, and the
scan is where it was before, one page further (`ensures_pass_watched`).
-/

namespace Cutover

open Dialogue

/-- Whether rows are asked for. -/
def Scanning.Request.isQuery : Scanning.Request → Bool
  | .query .. => true
  | _ => false

/-- Whether it is a rest. -/
def Scanning.Request.isRest : Scanning.Request → Bool
  | .rest _ => true
  | _ => false

namespace Plan

variable {p : Plan}

/-! ## Places of rows -/

/-- Where identity and time are one column, a place has the identity for its time. -/
theorem sort_keyOf_of_byId (hb : p.byId = true) (t : Table) (r : List Value) :
    (p.keyOf t r).sort = (p.keyOf t r).id := by
  have hcell : t.cell r p.sort = t.cell r p.table.idColumn := Table.cell_congr (sameName_of_byId hb)
  simp only [keyOf, Table.idOf, Table.number?, hcell]

/-- A place that is not behind another one of no later time has the same time and no greater
identity. -/
theorem tie_of_not_before {k k' : Cursor} (hle : k.sort ≤ k'.sort)
    (hk : p.byId = true → k.sort = k.id) (hk' : p.byId = true → k'.sort = k'.id)
    (h : ¬ p.Before k k') : k.sort = k'.sort ∧ k'.id ≤ k.id := by
  unfold Before at h
  split at h
  · rename_i hb
    have hid : k'.id ≤ k.id := Int64.not_lt.mp h
    rw [hk hb, hk' hb] at hle ⊢
    exact ⟨Int64.le_antisymm hle hid, hid⟩
  · rw [not_or, not_and] at h
    obtain ⟨hsort, hid⟩ := h
    have hsame : k.sort = k'.sort := Int64.le_antisymm hle (Int64.not_lt.mp hsort)
    exact ⟨hsame, Int64.not_lt.mp (hid hsame)⟩

section
variable {t : Table} {r : List Value} {u : Int64}

/-- A row with a time behind the cutoff is one that the scan visits. -/
theorem mem_visiting_of_number? (hs : p.sort = p.table.utimeColumn) (hr : r ∈ t.rows)
    (hu : t.number? r p.table.utimeColumn = some u) (hcutoff : p.utimeAfter < u) :
    r ∈ p.visiting t := by
  refine mem_visiting.mpr ⟨hr, ?_, ?_⟩
  · simp [inScope, hu, Table.greater, hcutoff]
  · have hnull : (t.cell r p.sort).isNull = false := by
      rw [← hs, Table.number?] at hu
      cases hcell : t.cell r p.sort <;> rw [hcell] at hu <;> first | rfl | cases hu
    simp [placed, hnull]

theorem sort_keyOf (hs : p.sort = p.table.utimeColumn)
    (hu : t.number? r p.table.utimeColumn = some u) : (p.keyOf t r).sort = u := by
  simp [keyOf, hs, hu]

end

/-- A write leaves what is said of the other rows. -/
theorem Stamps.same {t t' : Table} {v : Record} (h : p.Stamps t v t') :
    t'.number? = t.number? ∧ t'.idOf p.table = t.idOf p.table ∧
      t'.recordOf p.table = t.recordOf p.table ∧ p.keyOf t' = p.keyOf t := by
  have hcell : t'.cell = t.cell := Table.cell_of_columns_eq h.columns
  have hnumber : t'.number? = t.number? := by
    funext r c
    rw [Table.number?, Table.number?, hcell]
  have hid : t'.idOf p.table = t.idOf p.table := by
    funext r
    rw [Table.idOf, Table.idOf, hnumber]
  refine ⟨hnumber, hid, ?_, ?_⟩
  · funext r
    rw [Table.recordOf, Table.recordOf, hid, Table.shown, Table.shown, h.columns]
  · funext r
    rw [keyOf, keyOf, hid, hnumber]

/-! ## What a scan keeps -/

/-- A scan is abreast of the base: it goes on behind the place of a row that it has read, no row of
the base is older than this one by then, and each row that is behind the cutoff has been compared,
is overtaken, is among those of the page that are yet to be compared, or is still to come. -/
structure Abreast (p : Plan) (t : Table) (h : List Happening) (c : Option Cursor)
    (todo : List Record) : Prop where
  scans : p.Scans t
  read : ∀ k ∈ c, p.Read h k ∧ (p.byId = true → k.sort = k.id)
  front : ∀ k ∈ c, ∃ r ∈ t.rows, ∃ u, t.number? r p.table.utimeColumn = some u ∧ k.sort ≤ u
  each : ∀ r ∈ t.rows, ∀ u, t.number? r p.table.utimeColumn = some u → p.utimeAfter < u →
    p.Compared h (t.recordOf p.table r) ∨ p.Overtaken h (t.recordOf p.table r) ∨
      t.recordOf p.table r ∈ todo ∨ ∀ k ∈ c, p.Before k (p.keyOf t r)
  settled : p.Settled (fun before v => p.Overtaken before v ∨ v ∈ todo) h
  covered : p.Covered p.Overtaken h

/-- The page read last, of which this has been asked since. -/
def Reading (p : Plan) (es : List (Exchange Scanning)) (rows : List Row) : Prop :=
  ∃ before s during, es = before ++ p.pageRead s rows :: during ∧ ∀ e ∈ during, ¬ p.IsPage e

theorem Reading.snoc {es : List (Exchange Scanning)} {rows : List Row} {e : Exchange Scanning}
    (h : p.Reading es rows) (he : ¬ p.IsPage e) : p.Reading (es ++ [e]) rows := by
  obtain ⟨before, s, during, rfl, hduring⟩ := h
  refine ⟨before, s, during ++ [e], by simp, ?_⟩
  intro x hx
  rcases List.mem_append.mp hx with hx | hx
  · exact hduring x hx
  · rw [List.mem_singleton.mp hx]
    exact he

/-- A row of the page is compared by looking it up and publishing what this comes to. -/
theorem Reading.compared {h h' : List Happening} {rows : List Row} {v : Record}
    {found : Option Row} {kind : Option EventKind} (hread : p.Reading (exchanges h) rows)
    (hrow : v.row ∈ rows) (hkind : p.difference v found = .ok kind)
    (he : exchanges h' = exchanges h ++ p.lookedUp v.id found :: kind.toList.map
      (p.reported v.id)) :
    p.Compared h' v := by
  obtain ⟨before, s, during, hpage, hduring⟩ := hread
  exact ⟨before, s, rows, during, found, kind, [], hkind, by simp [he, hpage], hrow, hduring⟩

section
variable {t : Table} {h : List Happening} {c : Option Cursor} {todo : List Record}

/-- **A write leaves a scan abreast**: the new version lies behind the place of the scan, or it ties
with a row that the scan has read. -/
theorem Abreast.wrote (hs : p.sort = p.table.utimeColumn) (ha : p.Abreast t h c todo) {v : Record}
    {t' : Table} (hw : p.Stamps t v t') : p.Abreast t' (h ++ [.wrote v]) c todo := by
  obtain ⟨hnumber, hid, hrecord, hkey⟩ := hw.same
  obtain ⟨new, hnew, rfl, time, htime, hlatest⟩ := hw.there
  have hlater : ∀ k ∈ c, k.sort ≤ time := by
    intro k hk
    obtain ⟨r, hr, u, hu, hle⟩ := ha.front k hk
    exact Int64.le_trans hle (hlatest r hr u hu)
  constructor
  case scans => exact hw.scans
  case read => exact fun k hk => ⟨(ha.read k hk).1.mono _, (ha.read k hk).2⟩
  case front => exact fun k hk => ⟨new, hnew, time, htime, hlater k hk⟩
  case settled =>
    exact ha.settled.snoc fun _ _ _ hx => nomatch hx
  case covered => exact ha.covered.snoc fun _ _ _ hx => nomatch hx
  case each =>
    intro r hr u hu hcutoff
    by_cases hsame : t'.idOf p.table r = t'.idOf p.table new
    · -- the row that was written
      obtain rfl := hw.scans.eq_of_idOf_eq hr hnew hsame
      obtain rfl := Option.some.inj (htime.symm.trans hu)
      by_cases hbehind : ∀ k ∈ c, p.Before k (p.keyOf t' r)
      · exact .inr (.inr (.inr hbehind))
      · obtain ⟨k, hk, hnot⟩ : ∃ k ∈ c, ¬ p.Before k (p.keyOf t' r) := by
          simpa only [not_forall, exists_prop] using hbehind
        have hsort : (p.keyOf t' r).sort = time := sort_keyOf hs hu
        obtain ⟨htie, hle⟩ := tie_of_not_before (hsort ▸ hlater k hk) (ha.read k hk).2
          (fun hb => sort_keyOf_of_byId hb t' r) hnot
        have hcursor : p.cursorOf (t'.recordOf p.table r).row = .ok (p.keyOf t' r) :=
          hw.scans.cursorOf_shownRow false (mem_visiting_of_number? hs hr hu hcutoff)
        refine .inr (.inl ⟨h, [], rfl, by simp, _, k, hcursor, (ha.read k hk).1, htie, hle⟩)
    · -- another row, which is as it was
      have hother : t.idOf p.table r ≠ (t'.recordOf p.table new).id := by
        rw [← hid]
        exact hsame
      have hr' : r ∈ t.rows := (hw.elsewhere r hother).mp hr
      rw [hrecord, hkey]
      rw [hnumber] at hu
      rcases ha.each r hr' u hu hcutoff with hcompared | hovertaken | htodo | hbehind
      · exact .inl (hcompared.mono _)
      · refine .inr (.inl (hovertaken.snoc ?_))
        rintro v' hv'
        obtain rfl := Happening.wrote.inj hv'
        show t.idOf p.table new ≠ t.idOf p.table r
        rw [← hid]
        exact Ne.symm hsame
      · exact .inr (.inr (.inl htodo))
      · exact .inr (.inr (.inr hbehind))

theorem Abreast.written (hs : p.sort = p.table.utimeColumn) {t' : Table} {vs : List Record}
    (hw : p.Written t vs t') (ha : p.Abreast t h c todo) :
    p.Abreast t' (h ++ vs.map .wrote) c todo := by
  induction hw generalizing h with
  | none t => simpa using ha
  | @more t₁ t₂ t₃ v vs hstamp _ ih =>
    have hrest := ih (ha.wrote hs hstamp)
    simpa using hrest

/-- A request that is not for a page leaves a scan abreast, and it rests only when nothing is left
of a page. -/
theorem Abreast.asked (ha : p.Abreast t h c todo) {tables : Side → Table} {e : Exchange Scanning}
    (hpage : ¬ p.IsPage e) (hrest : ∀ d, e.request = .rest d → todo = []) :
    p.Abreast t (h ++ [.asked tables e]) c todo where
  scans := ha.scans
  read k hk := ⟨(ha.read k hk).1.mono _, (ha.read k hk).2⟩
  front := ha.front
  each r hr u hu hcutoff := by
    rcases ha.each r hr u hu hcutoff with hcompared | hovertaken | hleft
    · exact .inl (hcompared.mono _)
    · exact .inr (.inl (hovertaken.snoc fun _ hx => nomatch hx))
    · exact .inr (.inr hleft)
  settled := by
    refine ha.settled.snoc fun tables' s rows hx => ?_
    obtain ⟨-, rfl⟩ := Happening.asked.inj hx
    exact absurd ⟨s, rfl⟩ hpage
  covered := by
    refine ha.covered.snoc fun tables' d reply hx => ?_
    obtain ⟨-, rfl⟩ := Happening.asked.inj hx
    refine ha.settled.imp fun before v hv => ?_
    rw [hrest d rfl] at hv
    exact .inr (hv.resolve_right List.not_mem_nil)

/-- A version that has been compared is done with. -/
theorem Abreast.compared {v : Record} (ha : p.Abreast t h c (v :: todo)) (hv : p.Compared h v) :
    p.Abreast t h c todo where
  scans := ha.scans
  read := ha.read
  front := ha.front
  each r hr u hu hcutoff := by
    rcases ha.each r hr u hu hcutoff with hcompared | hovertaken | htodo | hbehind
    · exact .inl hcompared
    · exact .inr (.inl hovertaken)
    · rcases List.mem_cons.mp htodo with hsame | htodo
      · exact .inl (hsame ▸ hv)
      · exact .inr (.inr (.inl htodo))
    · exact .inr (.inr (.inr hbehind))
  settled := by
    refine ha.settled.imp fun before x hx => ?_
    rcases hx with hovertaken | htodo
    · exact .inr (.inl hovertaken)
    · rcases List.mem_cons.mp htodo with rfl | htodo
      · exact .inl hv
      · exact .inr (.inr htodo)
  covered := ha.covered

/-- The rows of a page, as versions to be compared. -/
def pageRecords (p : Plan) (t : Table) (c : Option Cursor) : List Record :=
  (p.pageRows t c).map (t.recordOf p.table)

/-- **A page leaves a scan abreast**: what was still to come is on the page, or behind it if it is
full. -/
theorem Abreast.paged (hs : p.sort = p.table.utimeColumn) (ha : p.Abreast t h c [])
    {tables : Side → Table} (ht : tables p.base = t) (s : Statement) :
    p.Abreast t
      (h ++ [.asked tables (p.pageRead s ((p.pageRows t c).map (p.shownRow t false)))])
      (p.cursorAfter t (p.pageRows t c) c) (p.pageRecords t c) := by
  -- where each row is once the page has been read
  have hwhere : ∀ r ∈ t.rows, ∀ u, t.number? r p.table.utimeColumn = some u → p.utimeAfter < u →
      p.Compared h (t.recordOf p.table r) ∨ p.Overtaken h (t.recordOf p.table r) ∨
        t.recordOf p.table r ∈ p.pageRecords t c ∨ (p.pageRows t c).length = p.batch ∧
          ∀ a ∈ p.pageRows t c, p.Before (p.keyOf t a) (p.keyOf t r) := by
    intro r hr u hu hcutoff
    rcases ha.each r hr u hu hcutoff with hcompared | hovertaken | htodo | hbehind
    · exact .inl hcompared
    · exact .inr (.inl hovertaken)
    · cases htodo
    · have hvisited := mem_visiting_of_number? hs hr hu hcutoff
      rcases ha.scans.mem_pageRows_or_before hvisited hbehind with hpage | hlater
      · exact .inr (.inr (.inl (List.mem_map_of_mem hpage)))
      · exact .inr (.inr (.inr hlater))
  -- the place behind which the scan goes on
  have hcursor : ∀ k ∈ p.cursorAfter t (p.pageRows t c) c,
      (∃ a ∈ p.pageRows t c, k = p.keyOf t a) ∨ k ∈ c := by
    intro k hk
    unfold cursorAfter at hk
    cases hlast : (p.pageRows t c).getLast? with
    | none =>
      rw [hlast] at hk
      exact .inr hk
    | some a =>
      rw [hlast] at hk
      exact .inl ⟨a, List.mem_of_getLast? hlast, (Option.some.inj hk).symm⟩
  constructor
  case scans => exact ha.scans
  case read =>
    intro k hk
    rcases hcursor k hk with ⟨a, hpage, rfl⟩ | hk
    · refine ⟨⟨s, _, ?_, _, List.mem_map_of_mem hpage,
        ha.scans.cursorOf_shownRow false (mem_pageRows hpage).1⟩, fun hb =>
          sort_keyOf_of_byId hb t a⟩
      simp
    · exact ⟨(ha.read k hk).1.mono _, (ha.read k hk).2⟩
  case front =>
    intro k hk
    rcases hcursor k hk with ⟨a, hpage, rfl⟩ | hk
    · obtain ⟨hrows, -, hplaced⟩ := mem_visiting.mp (mem_pageRows hpage).1
      exact ⟨a, hrows, _, hs ▸ ha.scans.number?_sort hrows hplaced, Int64.le_refl _⟩
    · exact ha.front k hk
  case each =>
    intro r hr u hu hcutoff
    rcases hwhere r hr u hu hcutoff with hcompared | hovertaken | htodo | ⟨hfull, hlater⟩
    · exact .inl (hcompared.mono _)
    · exact .inr (.inl (hovertaken.snoc fun _ hx => nomatch hx))
    · exact .inr (.inr (.inl htodo))
    · refine .inr (.inr (.inr fun k hk => ?_))
      unfold cursorAfter at hk
      cases hlast : (p.pageRows t c).getLast? with
      | none =>
        have hpos := p.batch_pos
        rw [List.getLast?_eq_none_iff.mp hlast] at hfull
        simp at hfull
        omega
      | some a =>
        rw [hlast] at hk
        rw [← Option.some.inj hk]
        exact hlater a (List.mem_of_getLast? hlast)
  case settled =>
    refine Settled.snoc (ha.settled.imp fun before v hv => ?_) ?_
    · exact .inr (.inl (hv.resolve_right List.not_mem_nil))
    · intro tables' s' rows hx hshort r hr u hu hcutoff
      obtain ⟨rfl, hrows⟩ := Happening.asked.inj hx
      subst ht
      have hlength : rows.length = (p.pageRows (tables p.base) c).length := by
        cases hrows
        rw [List.length_map]
      rcases hwhere r hr u hu hcutoff with hcompared | hovertaken | htodo | ⟨hfull, -⟩
      · exact .inl hcompared
      · exact .inr (.inl hovertaken)
      · exact .inr (.inr htodo)
      · omega
  case covered => exact ha.covered.snoc fun _ _ _ hx => nomatch hx

theorem abreast_nil {t : Table} (ht : p.Scans t) : p.Abreast t [] none [] where
  scans := ht
  read _ hk := nomatch hk
  front _ hk := nomatch hk
  each _ _ _ _ _ := .inr (.inr (.inr fun _ hk => nomatch hk))
  settled := settled_nil
  covered := covered_nil

end

/-! ## A pass -/

section
variable {w w' : Watch} {c : Option Cursor} {todo : List Record} {rows : List Row}

theorem exchanges_watched {r : Scanning.Request} {reply : Scanning.Reply r}
    (hw : p.watched w r reply w') :
    exchanges w'.history = exchanges w.history ++ [⟨r, reply⟩] := by
  obtain ⟨vs, -, -, -, hhistory⟩ := hw
  have hwrites : exchanges (vs.map .wrote) = [] := by simp [exchanges]
  rw [hhistory, exchanges_append, exchanges_append, hwrites, List.append_nil, exchanges_asked]

/-- A scan is abreast of the base as it is watched. -/
abbrev StaysAbreast (p : Plan) (c : Option Cursor) (todo : List Record) (w : Watch) : Prop :=
  p.Abreast (w.tables p.base) w.history c todo

/-- The page read last stays the same while no other rows are asked for. -/
theorem Reading.answered {r : Scanning.Request} {reply : Scanning.Reply r}
    (hread : p.Reading (exchanges w.history) rows) (hw : p.watched w r reply w')
    (hquery : r.isQuery = false) : p.Reading (exchanges w'.history) rows := by
  rw [exchanges_watched hw]
  refine hread.snoc ?_
  rintro ⟨s, rfl⟩
  cases hquery

variable (hs : p.sort = p.table.utimeColumn)
include hs

/-- An answer to a request that is not for a page. -/
theorem Abreast.answered {r : Scanning.Request} {reply : Scanning.Reply r}
    (ha : p.StaysAbreast c todo w) (hw : p.watched w r reply w') (hquery : r.isQuery = false)
    (hrest : r.isRest = false ∨ todo = []) : p.StaysAbreast c todo w' := by
  obtain ⟨vs, hwritten, -, -, hhistory⟩ := hw
  have hafter := Abreast.written hs hwritten ha
  rw [StaysAbreast, hhistory]
  refine hafter.asked ?_ ?_
  · rintro ⟨s, rfl⟩
    cases hquery
  · rintro d rfl
    rcases hrest with hno | hnone
    · cases hno
    · exact hnone

omit hs in
/-- A table that fits is looked up with a verdict. -/
theorem difference_eq_ok {target : Table} (ht : target.Fits p.table) (v : Record) :
    ∃ kind, p.difference v ((target.lookup p.table v.id).map (target.shown none)) = .ok kind := by
  cases hl : target.lookup p.table v.id with
  | none => exact ⟨_, rfl⟩
  | some r' =>
    have hr' := (ht.lookup_eq_some.mp hl).1
    rw [Option.map_some, difference, ofRow?_shown ht hr']
    exact ⟨_, rfl⟩

/-- **A row of the page is compared**, whatever is written meanwhile. -/
theorem ensures_compareRow_watched {t : Table} (ht : p.Scans t) {r : List Value} (hr : r ∈ t.rows)
    (hrow : (t.recordOf p.table r).row ∈ rows)
    (ha : p.StaysAbreast c (t.recordOf p.table r :: todo) w)
    (hread : p.Reading (exchanges w.history) rows) (tally : Tally) :
    (p.compareRow (p.shownRow t false r) tally).Ensures p.watched
      (fun _ w' => p.StaysAbreast c todo w' ∧ p.Reading (exchanges w'.history) rows) w := by
  have hrecord : Record.ofRow? (p.shownRow t false r) p.table.idColumn =
      .ok (t.recordOf p.table r) := ofRow?_shown ht.toFits hr
  rw [compareRow, hrecord]
  refine ensures_request_bind.mpr ?_
  intro reply w₁ hw₁
  obtain ⟨-, -, hfits, hreply, -⟩ := id hw₁
  have hlookup := exchanges_watched hw₁
  have ha₁ := ha.answered hs hw₁ rfl (.inl rfl)
  -- the target answers with the row it has under this identity
  have hfound : reply = some (.ok (((w₁.tables p.target).lookup p.table
      (t.recordOf p.table r).id).map ((w₁.tables p.target).shown none))) :=
    hreply.trans (congrArg some (answeredRows_byId hfits _))
  subst hfound
  obtain ⟨kind, hkind⟩ := difference_eq_ok hfits (t.recordOf p.table r)
  simp only [hkind]
  cases kind with
  | none =>
    have hcompared : p.Compared w₁.history (t.recordOf p.table r) :=
      hread.compared hrow hkind hlookup
    exact ⟨ha₁.compared hcompared, hread.answered hw₁ rfl⟩
  | some kind =>
    intro reply w₂ hw₂
    obtain ⟨-, -, -, hreply, -⟩ := id hw₂
    have hpublish := exchanges_watched hw₂
    obtain rfl : reply = some (.ok ()) := hreply
    have hcompared : p.Compared w₂.history (t.recordOf p.table r) := by
      refine hread.compared hrow hkind ?_
      rw [hpublish, hlookup, List.append_assoc]
      rfl
    have ha₂ := ha₁.answered hs hw₂ rfl (.inl rfl)
    exact ⟨ha₂.compared hcompared, (hread.answered hw₁ rfl).answered hw₂ rfl⟩

/-- The rows of a page are compared one after the other. -/
theorem ensures_compareRows_watched {t : Table} (ht : p.Scans t) {rs : List (List Value)}
    (hrs : ∀ r ∈ rs, r ∈ p.visiting t) (hrows : ∀ r ∈ rs, (t.recordOf p.table r).row ∈ rows)
    (g : Progress) (ha : p.StaysAbreast c (rs.map (t.recordOf p.table)) w)
    (hread : p.Reading (exchanges w.history) rows) :
    (p.compareRows (rs.map (p.shownRow t false)) g).Ensures p.watched
      (fun e w' => ∃ tally, e = .through ⟨tally, p.cursorAfter t rs g.cursor⟩ ∧
        p.StaysAbreast c [] w') w := by
  induction rs generalizing g w with
  | nil => exact ⟨g.tally, rfl, ha⟩
  | cons r rs ih =>
    have hr := hrs r List.mem_cons_self
    rw [List.map_cons, compareRows]
    refine ensures_request_bind.mpr ?_
    intro reply w₁ hw₁
    obtain ⟨-, -, -, hreply, -⟩ := id hw₁
    obtain rfl : reply = false := hreply
    have ha₁ := ha.answered hs hw₁ rfl (.inl rfl)
    have hread₁ := hread.answered hw₁ rfl
    simp only [Bool.false_eq_true, if_false, ht.cursorOf_shownRow false hr]
    refine (ensures_compareRow_watched hs ht (mem_visiting.mp hr).1 (hrows r List.mem_cons_self) ha₁
      hread₁ _).bind ?_
    rintro tally w₂ ⟨ha₂, hread₂⟩
    refine (ih (fun r' hr' => hrs r' (List.mem_cons_of_mem _ hr'))
      (fun r' hr' => hrows r' (List.mem_cons_of_mem _ hr')) _ ha₂ hread₂).mono ?_
    rintro e w₃ ⟨tally', rfl, ha₃⟩
    exact ⟨tally', by rw [cursorAfter_cons], ha₃⟩

/-- How a pass ends: the scan goes on, abreast of the base. -/
def GoesOn (p : Plan) : Verdict → Watch → Prop :=
  (p.scan .forward).Turns (fun g w => p.StaysAbreast g.cursor [] w) fun _ _ => False

theorem ensures_afterPage_watched (hincremental : p.isFull = false) (length : Nat) (g : Progress)
    (ha : p.StaysAbreast g.cursor [] w) : (p.afterPage length g).Ensures p.watched p.GoesOn w := by
  rw [afterPage]
  split
  · rw [hincremental]
    refine ensures_request_bind.mpr ?_
    intro reply w₁ hw₁
    obtain ⟨-, -, -, hreply, -⟩ := id hw₁
    obtain rfl : reply = some () := hreply
    exact ha.answered hs hw₁ rfl (.inr rfl)
  · exact ha

theorem ensures_throttle_watched (ha : p.StaysAbreast c [] w) :
    p.throttle.Ensures p.watched (fun go w' => go = true ∧ p.StaysAbreast c [] w') w := by
  unfold throttle
  cases p.loadPause with
  | none => exact ⟨rfl, ha⟩
  | some d =>
    refine ensures_request_bind.mpr ?_
    intro loaded w₁ hw₁
    have ha₁ := ha.answered hs hw₁ rfl (.inl rfl)
    cases loaded with
    | false => exact ⟨rfl, ha₁⟩
    | true =>
      refine ensures_request_bind.mpr ?_
      intro reply w₂ hw₂
      obtain ⟨-, -, -, hreply, -⟩ := id hw₂
      obtain rfl : reply = some () := hreply
      exact ⟨rfl, ha₁.answered hs hw₂ rfl (.inr rfl)⟩

/-- **A page is read and compared.** -/
theorem ensures_forwardPage_watched (hincremental : p.isFull = false) (g : Progress)
    (ha : p.StaysAbreast g.cursor [] w) : (p.forwardPage g).Ensures p.watched p.GoesOn w := by
  have hname : Sql.IsName p.sort := hs ▸ p.table.utime_valid
  rw [forwardPage, pageStatement_eq hname]
  refine ensures_request_bind.mpr ?_
  intro reply w₁ hw₁
  obtain ⟨vs, hwritten, -, hreply, hhistory⟩ := id hw₁
  have hbefore := Abreast.written hs hwritten ha
  obtain ⟨s, hstatement, hanswer⟩ := hbefore.scans.answeredRows_page hname g.cursor false
  rw [pageStatement_eq hname] at hstatement
  obtain rfl := Except.ok.inj hstatement
  obtain rfl := hreply.trans (congrArg some hanswer)
  -- the page as it is read from the base of this moment
  have hpaged : p.StaysAbreast
      (p.cursorAfter (w₁.tables p.base) (p.pageRows (w₁.tables p.base) g.cursor) g.cursor)
      (p.pageRecords (w₁.tables p.base) g.cursor) w₁ := by
    rw [StaysAbreast, hhistory]
    exact hbefore.paged hs rfl _
  have hread : p.Reading (exchanges w₁.history)
      ((p.pageRows (w₁.tables p.base) g.cursor).map (p.shownRow (w₁.tables p.base) false)) :=
    ⟨exchanges w.history, _, [], exchanges_watched hw₁, by simp⟩
  refine (ensures_compareRows_watched hs hbefore.scans (fun r hr => (mem_pageRows hr).1)
    (fun r hr => List.mem_map.mpr ⟨r, hr, rfl⟩) g hpaged hread).bind ?_
  rintro e w₂ ⟨tally, rfl, ha₂⟩
  exact ensures_afterPage_watched hs hincremental _ _ ha₂

/-- **A pass leaves a scan abreast of the base, and is followed by another.** -/
theorem ensures_pass_watched (hincremental : p.isFull = false) (g : Progress)
    (ha : p.StaysAbreast g.cursor [] w) : (p.pass .forward g).Ensures p.watched p.GoesOn w := by
  unfold pass
  refine ensures_request_bind.mpr ?_
  intro reply w₁ hw₁
  obtain ⟨-, -, -, hreply, -⟩ := id hw₁
  obtain rfl : reply = false := hreply
  have ha₁ := ha.answered hs hw₁ rfl (.inl rfl)
  simp only [Bool.false_eq_true, if_false]
  refine (ensures_throttle_watched hs ha₁).bind ?_
  rintro go w₂ ⟨rfl, ha₂⟩
  exact ensures_forwardPage_watched hs hincremental g ha₂

end

end Plan
end Cutover
