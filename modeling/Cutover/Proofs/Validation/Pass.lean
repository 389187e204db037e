import Cutover.Proofs.Scan.Page
import Cutover.Proofs.Table.Lookup
import Cutover.Proofs.Validation.Run

/-! # Passes over tables that stay as they are

While the two tables do not change and no call fails, a pass is determined but for its rests: it
comes to the rows of its page one after the other and *finds* of each whether the other table agrees
(`Plan.finding`).  Of both ways the same is shown: a pass that begins behind the rows visited so
far, having published and counted what it found of them, ends behind the rows of its page, having
published and counted what it found of these as well; and the scan ends when there is nothing behind
them (`ensures_pass`).
-/

namespace Cutover

open Dialogue

/-! ## Surroundings in which nothing changes -/

namespace Scanning

/-- What a call comes to on tables that stay as they are, nothing failing. -/
def Call.answered (tables : Side → Table) : (c : Scanning.Call) → c.Result
  | .query on s => (tables on).answeredRows s
  | .queryRow on s => ((tables on).answeredRows s).map List.head?
  | .publish _ => .ok ()
  | .rest _ => ()

/-- The replies of tables that stay as they are to a scan that is not cancelled, nothing failing.
Whether the load is high is left open. -/
def Undisturbed (tables : Side → Table) : (r : Scanning.Request) → Scanning.Reply r → Prop
  | .cancelled, reply => reply = false
  | .loaded, _ => True
  | .guarded c, reply => reply = some (c.answered tables)
  | .awaited c, reply => reply = c.answered tables

/-- What a request publishes. -/
def Request.published : Scanning.Request → List Event
  | .publish e | .awaited (.publish e) => [e]
  | _ => []

/-- Surroundings of a single scan: tables that stay as they are, and the events it has published. -/
def undisturbed (tables : Side → Table) : Surroundings Scanning (List Event) :=
  fun es r reply es' => Undisturbed tables r reply ∧ es' = es ++ r.published

/-- The replies of tables that stay as they are, under a low load. -/
def replies (tables : Side → Table) : (r : Interface.Request Scanning) → Scanning.Reply r
  | .cancelled => false
  | .loaded => false
  | .guarded c => some (c.answered tables)
  | .awaited c => c.answered tables

theorem undisturbed_replies (tables : Side → Table) (r : Interface.Request Scanning) :
    Undisturbed tables r (replies tables r) := by
  cases r with
  | loaded => trivial
  | cancelled | guarded c | awaited c => rfl

theorem exists_undisturbed (tables : Side → Table) (r : Scanning.Request) :
    ∃ reply, Undisturbed tables r reply := ⟨replies tables r, undisturbed_replies tables r⟩

end Scanning

/-! ## Findings -/

/-- The record of a stored row. -/
def Table.recordOf (t : Table) (s : TableSpec) (r : List Value) : Record :=
  ⟨t.idOf s r, t.shown none r⟩

/-- What a scan finds of a row: its identity, and how the other table differs there, if it does. -/
structure Finding where
  id : Int64
  kind : Option EventKind

/-- The tally behind a row of which this was found. -/
def Tally.count (t : Tally) (f : Finding) : Tally :=
  match f.kind with
  | none => t.scan
  | some k => t.scan.report k

namespace Plan

variable (p : Plan) (tables : Side → Table)

/-- The table whose rows the scan of a way visits. -/
def scanned : Way → Table
  | .forward => tables p.base
  | .backward => tables p.target

/-- How the target differs from a row of the base. -/
def forwardKind (r : List Value) : Option EventKind :=
  match (tables p.target).lookup p.table ((tables p.base).idOf p.table r) with
  | none => some .targetMissing
  | some r' =>
    if ((tables p.base).recordOf p.table r).equals ((tables p.target).recordOf p.table r') then none
    else some .notEqual

/-- How the base differs from the identity of a row of the target. -/
def backwardKind (id : Int64) : Option EventKind :=
  match (tables p.base).lookup p.table id with
  | none => some .baseMissing
  | some _ => none

/-- What the scan of a way finds of a row. -/
def finding : Way → List Value → Finding
  | .forward, r => ⟨(tables p.base).idOf p.table r, p.forwardKind tables r⟩
  | .backward, r =>
    ⟨(tables p.target).idOf p.table r, p.backwardKind tables ((tables p.target).idOf p.table r)⟩

/-- The event that reports a finding, if there is something to report. -/
def eventOf (f : Finding) : Option Event := f.kind.map fun k => ⟨f.id, k, p.direction⟩

/-- The events that report what is found of rows. -/
def eventsOf (way : Way) (rows : List (List Value)) : List Event :=
  rows.filterMap fun r => p.eventOf (p.finding tables way r)

/-- The tally behind rows. -/
def tallyOf (way : Way) (rows : List (List Value)) (t : Tally) : Tally :=
  rows.foldl (fun t r => t.count (p.finding tables way r)) t

/-- The place of the last of the rows, or where the scan was before. -/
def cursorAfter (t : Table) (rows : List (List Value)) (cursor : Option Cursor) : Option Cursor :=
  match rows.getLast? with
  | some r => some (p.keyOf t r)
  | none => cursor

variable {p tables}

@[simp]
theorem eventsOf_cons (way : Way) (r : List Value) (rows : List (List Value)) :
    p.eventsOf tables way (r :: rows) =
      (p.eventOf (p.finding tables way r)).toList ++ p.eventsOf tables way rows := by
  cases h : p.eventOf (p.finding tables way r) <;> simp [eventsOf, h]

@[simp]
theorem eventsOf_append (way : Way) (as bs : List (List Value)) :
    p.eventsOf tables way (as ++ bs) = p.eventsOf tables way as ++ p.eventsOf tables way bs :=
  List.filterMap_append

@[simp]
theorem tallyOf_cons (way : Way) (r : List Value) (rows : List (List Value)) (t : Tally) :
    p.tallyOf tables way (r :: rows) t =
      p.tallyOf tables way rows (t.count (p.finding tables way r)) := rfl

@[simp]
theorem tallyOf_append (way : Way) (as bs : List (List Value)) (t : Tally) :
    p.tallyOf tables way (as ++ bs) t = p.tallyOf tables way bs (p.tallyOf tables way as t) :=
  List.foldl_append

theorem cursorAfter_cons (t : Table) (r : List Value) (rows : List (List Value))
    (cursor : Option Cursor) :
    p.cursorAfter t (r :: rows) cursor = p.cursorAfter t rows (some (p.keyOf t r)) := by
  cases rows with
  | nil => rfl
  | cons s rows =>
    obtain ⟨last, hlast⟩ : ∃ last, (s :: rows).getLast? = some last :=
      ⟨_, List.getLast?_eq_some_getLast (List.cons_ne_nil s rows)⟩
    simp [cursorAfter, List.getLast?_cons_cons, hlast]

/-! ## The forward pass -/

/-- A table answers an identity by its row. -/
theorem answeredRows_byId {t : Table} (h : t.Fits p.table) (id : Int64) :
    (t.answeredRows ((p.table.byId id).statement p.dialect)).map List.head? =
      .ok ((t.lookup p.table id).map (t.shown none)) := by
  rw [Table.answeredRows, h.byId_answer]
  cases t.lookup p.table id <;> rfl

theorem ofRow?_shown {t : Table} (h : t.Fits p.table) {r : List Value} (hr : r ∈ t.rows) :
    Record.ofRow? (t.shown none r) p.table.idColumn = .ok (t.recordOf p.table r) := by
  have hid : (t.shown none r).getInt64 p.table.idColumn = .ok (t.idOf p.table r) :=
    Row.getInt64_eq_ok (Table.get?_shown (h.width r hr) h.id_column (by rintro l ⟨⟩))
      (h.number?_id hr)
  rw [Record.ofRow?, hid]
  rfl

/-- Publishing a difference that is found. -/
theorem ensures_emit {id : Int64} {kind : EventKind} {t : Tally} {es : List Event} :
    (p.emit id kind t).Ensures (Scanning.undisturbed tables)
      (fun t' es' => t' = t.report kind ∧ es' = es ++ [⟨id, kind, p.direction⟩]) es := by
  rintro reply es' ⟨rfl, rfl⟩
  exact ⟨rfl, rfl⟩

theorem difference_recordOf (htarget : (tables p.target).Fits p.table) (r : List Value) :
    p.difference ((tables p.base).recordOf p.table r)
      (((tables p.target).lookup p.table ((tables p.base).idOf p.table r)).map
        ((tables p.target).shown none)) = .ok (p.forwardKind tables r) := by
  unfold forwardKind
  cases hl : (tables p.target).lookup p.table ((tables p.base).idOf p.table r) with
  | none => rfl
  | some r' =>
    have hr' := (htarget.lookup_eq_some.mp hl).1
    simp only [Option.map_some, difference, ofRow?_shown htarget hr']
    rfl

/-- **One row of the base is compared with the target.** -/
theorem ensures_compareRow (hbase : p.Scans (tables p.base))
    (htarget : (tables p.target).Fits p.table) {r : List Value} (hr : r ∈ (tables p.base).rows)
    {t : Tally} {es : List Event} :
    (p.compareRow (p.shownRow (tables p.base) false r) t.scan).Ensures (Scanning.undisturbed tables)
      (fun t' es' => t' = t.count (p.finding tables .forward r) ∧
        es' = es ++ (p.eventOf (p.finding tables .forward r)).toList) es := by
  have hrecord : Record.ofRow? (p.shownRow (tables p.base) false r) p.table.idColumn =
      .ok ((tables p.base).recordOf p.table r) := ofRow?_shown hbase.toFits hr
  rw [compareRow, hrecord]
  refine ensures_request_bind.mpr ?_
  rintro reply es' ⟨hreply, rfl⟩
  -- the target answers with the row it has under this identity
  have hfound : reply = some (.ok (((tables p.target).lookup p.table
      ((tables p.base).idOf p.table r)).map ((tables p.target).shown none))) :=
    hreply.trans (congrArg some (answeredRows_byId htarget _))
  subst hfound
  simp only [difference_recordOf htarget r, finding, Tally.count, eventOf]
  cases hk : p.forwardKind tables r with
  | none => simp [Scanning.Request.published]
  | some k =>
    refine ensures_emit.mono ?_
    rintro t' es' ⟨rfl, rfl⟩
    simp [Table.recordOf, Scanning.Request.published]

/-- The rows of a page are compared one after the other. -/
theorem ensures_compareRows (hbase : p.Scans (tables p.base))
    (htarget : (tables p.target).Fits p.table) {rows : List (List Value)}
    (hrows : ∀ r ∈ rows, r ∈ p.visiting (tables p.base)) {g : Progress} {es : List Event} :
    (p.compareRows (rows.map (p.shownRow (tables p.base) false)) g).Ensures
      (Scanning.undisturbed tables)
      (fun e es' => e = .through ⟨p.tallyOf tables .forward rows g.tally,
          p.cursorAfter (tables p.base) rows g.cursor⟩ ∧
        es' = es ++ p.eventsOf tables .forward rows) es := by
  induction rows generalizing g es with
  | nil => exact ⟨rfl, (List.append_nil _).symm⟩
  | cons r rows ih =>
    have hr := hrows r List.mem_cons_self
    rw [List.map_cons, compareRows]
    refine ensures_request_bind.mpr ?_
    rintro reply es' ⟨rfl, rfl⟩
    simp only [hbase.cursorOf_shownRow false hr]
    refine (ensures_compareRow hbase htarget (mem_visiting.mp hr).1).bind ?_
    rintro t es' ⟨rfl, rfl⟩
    refine (ih fun r' hr' => hrows r' (List.mem_cons_of_mem _ hr')).mono ?_
    rintro e es' ⟨rfl, rfl⟩
    simp [cursorAfter_cons, Scanning.Request.published]

/-! ## The backward pass -/

theorem backwardKind_eq {id : Int64} :
    p.backwardKind tables id =
      if ((tables p.base).lookup p.table id).isSome then none else some .baseMissing := by
  unfold backwardKind
  cases (tables p.base).lookup p.table id <;> rfl

/-- The identities that the base has are told apart from the others. -/
theorem ensures_reportAbsent {rows : List (List Value)} {present : List Int64}
    (hpresent : ∀ r ∈ rows, present.contains ((tables p.target).idOf p.table r) =
      ((tables p.base).lookup p.table ((tables p.target).idOf p.table r)).isSome)
    (t : Tally) (es : List Event) :
    (p.reportAbsent present (rows.map ((tables p.target).idOf p.table)) t).Ensures
      (Scanning.undisturbed tables)
      (fun e es' => e = (p.tallyOf tables .backward rows t, true) ∧
        es' = es ++ p.eventsOf tables .backward rows) es := by
  induction rows generalizing t es with
  | nil => exact ⟨rfl, (List.append_nil _).symm⟩
  | cons r rows ih =>
    have htail := ih fun r' hr' => hpresent r' (List.mem_cons_of_mem _ hr')
    rw [List.map_cons, reportAbsent]
    refine ensures_request_bind.mpr ?_
    rintro reply es' ⟨rfl, rfl⟩
    simp only [hpresent r List.mem_cons_self, tallyOf_cons, eventsOf_cons, finding, Tally.count,
      eventOf, backwardKind_eq]
    by_cases hfound :
        ((tables p.base).lookup p.table ((tables p.target).idOf p.table r)).isSome = true
    · simpa [hfound, Scanning.Request.published] using htail t.scan es
    · rw [Bool.not_eq_true] at hfound
      simp only [hfound, Bool.false_eq_true, if_false]
      refine ensures_emit.bind ?_
      rintro t' es' ⟨rfl, rfl⟩
      refine (htail _ _).mono ?_
      rintro e es' ⟨rfl, rfl⟩
      simp [Scanning.Request.published]

/-- A table answers several identities by those it holds. -/
theorem answeredRows_idsIn {t : Table} (h : t.Fits p.table) (ids : List Int64) :
    t.answeredRows ((p.table.idsIn ids).statement p.dialect) =
      .ok ((t.rows.filter fun r => ids.contains (t.idOf p.table r)).map
        (t.shown (some [p.table.idColumn]))) := by
  rw [Table.answeredRows, h.idsIn_answer p.dialect ids]
  rfl

/-- Of the identities asked for, those are present that the table holds. -/
theorem contains_present {t : Table} (h : t.Fits p.table) {ids : List Int64} {id : Int64}
    (hid : id ∈ ids) :
    ((t.rows.filter fun r => ids.contains (t.idOf p.table r)).map (t.idOf p.table)).contains id =
      (t.lookup p.table id).isSome := by
  rw [Bool.eq_iff_iff, List.contains_iff_mem, Option.isSome_iff_exists]
  constructor
  · intro hmem
    obtain ⟨r, hr, he⟩ := List.mem_map.mp hmem
    exact ⟨r, h.lookup_eq_some.mpr ⟨(List.mem_filter.mp hr).1, he⟩⟩
  · rintro ⟨r, hr⟩
    obtain ⟨hrows, rfl⟩ := h.lookup_eq_some.mp hr
    exact List.mem_map.mpr ⟨r, List.mem_filter.mpr ⟨hrows, List.contains_iff_mem.mpr hid⟩, rfl⟩

/-- The identities in the answer to a lookup of several. -/
theorem filterMap_getInt64_shown {t : Table} (h : t.Fits p.table) (q : List Value → Bool) :
    ((t.rows.filter q).map (t.shown (some [p.table.idColumn]))).filterMap
      (fun row => (row.getInt64 p.table.idColumn).toOption) =
        (t.rows.filter q).map (t.idOf p.table) := by
  rw [List.filterMap_map, ← List.filterMap_eq_map]
  refine List.filterMap_congr fun r hr => ?_
  have hrows := (List.mem_filter.mp hr).1
  have hid : (t.shown (some [p.table.idColumn]) r).getInt64 p.table.idColumn =
      .ok (t.idOf p.table r) :=
    Row.getInt64_eq_ok (Table.get?_shown (h.width r hrows) h.id_column (by rintro l ⟨⟩; simp))
      (h.number?_id hrows)
  simp [hid, Except.toOption]

/-! ## Behind the rows visited so far -/

theorem getLast?_map_keyOf {t : Table} {rows : List (List Value)} (hne : rows ≠ [])
    (cursor : Option Cursor) :
    (rows.map (p.keyOf t)).getLast? = p.cursorAfter t rows cursor := by
  rw [cursorAfter, List.getLast?_map, List.getLast?_eq_some_getLast hne]
  rfl

theorem cursorAfter_append (t : Table) (as bs : List (List Value)) (cursor : Option Cursor) :
    p.cursorAfter t (as ++ bs) cursor = p.cursorAfter t bs (p.cursorAfter t as cursor) := by
  induction as generalizing cursor with
  | nil => rfl
  | cons a as ih => rw [List.cons_append, cursorAfter_cons, cursorAfter_cons, ih]

/-- Behind the last of the rows visited so far lie the others. -/
theorem Scans.filter_behind {t : Table} (h : p.Scans t) {done rest : List (List Value)}
    (he : p.visiting t = done ++ rest) :
    (p.visiting t).filter (p.behind t (p.cursorAfter t done none)) = rest := by
  have hordered := h.pairwise_visiting
  rw [he] at hordered ⊢
  obtain ⟨hdone, -, hacross⟩ := List.pairwise_append.mp hordered
  rcases List.eq_nil_or_concat done with rfl | ⟨init, last, rfl⟩
  · exact List.filter_eq_self.mpr fun _ _ => rfl
  · rw [List.concat_eq_append] at *
    have hcursor : p.cursorAfter t (init ++ [last]) none = some (p.keyOf t last) := by
      simp [cursorAfter]
    have hinit := (List.pairwise_append.mp hdone).2.2
    rw [hcursor, List.filter_append, List.filter_eq_nil_iff.mpr, List.nil_append]
    · refine List.filter_eq_self.mpr fun r hr => decide_eq_true ?_
      exact hacross last (by simp) r hr
    · intro r hr hb
      have hlast : p.Before (p.keyOf t last) (p.keyOf t r) := of_decide_eq_true hb
      rcases List.mem_append.mp hr with hr | hr
      · exact Before.irrefl ((hinit r hr last (by simp)).trans hlast)
      · obtain rfl := List.mem_singleton.mp hr
        exact Before.irrefl hlast

variable (p tables)

/-- A scan has come behind some of its rows, and has published and counted what it found of them. -/
def Visited (way : Way) (g : Progress) (es : List Event) : Prop :=
  ∃ done rest, p.visiting (p.scanned tables way) = done ++ rest ∧
    g = ⟨p.tallyOf tables way done {}, p.cursorAfter (p.scanned tables way) done none⟩ ∧
    es = p.eventsOf tables way done

/-- A scan has ended, and has published and counted what it found of all its rows. -/
def Completed (way : Way) (outcome : Except StoreError Tally) (es : List Event) : Prop :=
  outcome = .ok (p.tallyOf tables way (p.visiting (p.scanned tables way)) {}) ∧
    es = p.eventsOf tables way (p.visiting (p.scanned tables way))

/-- How many rows a scan has yet to visit. -/
def left (way : Way) (g : Progress) : Nat :=
  ((p.visiting (p.scanned tables way)).filter
    (p.behind (p.scanned tables way) g.cursor)).length

/-- A pass that renews the promise of a scan and comes nearer to its end. -/
def Renews (way : Way) (g : Progress) : Verdict → List Event → Prop :=
  (p.scan way).Turns
    (fun g' es => p.Visited tables way g' es ∧ p.left tables way g' < p.left tables way g)
    (p.Completed tables way)

variable {p tables}

/-- Behind a page the scan goes on with the next, or is over. -/
theorem ensures_afterPage (way : Way) (h : p.Scans (p.scanned tables way)) (hfull : p.isFull = true)
    {done rest : List (List Value)} (he : p.visiting (p.scanned tables way) = done ++ rest) :
    (p.afterPage (rest.take p.batch).length
      ⟨p.tallyOf tables way (rest.take p.batch) (p.tallyOf tables way done {}),
        p.cursorAfter (p.scanned tables way) (rest.take p.batch)
          (p.cursorAfter (p.scanned tables way) done none)⟩).Ensures
      (Scanning.undisturbed tables)
      (p.Renews tables way
        ⟨p.tallyOf tables way done {}, p.cursorAfter (p.scanned tables way) done none⟩)
      (p.eventsOf tables way done ++ p.eventsOf tables way (rest.take p.batch)) := by
  rw [← tallyOf_append, ← eventsOf_append, ← cursorAfter_append, afterPage]
  split
  · rename_i hshort
    have hall : rest.take p.batch = rest := by
      rw [List.length_take] at hshort
      exact List.take_of_length_le (by omega)
    rw [hall]
    exact ⟨by rw [he], by rw [he]⟩
  · rename_i hpage
    have hsplit : p.visiting (p.scanned tables way) =
        (done ++ rest.take p.batch) ++ rest.drop p.batch := by
      rw [List.append_assoc, List.take_append_drop, he]
    refine ⟨⟨_, _, hsplit, rfl, rfl⟩, ?_⟩
    unfold left
    rw [h.filter_behind hsplit, h.filter_behind he, List.length_drop]
    have hpos := p.batch_pos
    rw [List.length_take] at hpage
    omega

/-- What a page of the scan holds. -/
theorem Scans.pageRows_cursorAfter {t : Table} (h : p.Scans t) {done rest : List (List Value)}
    (he : p.visiting t = done ++ rest) :
    p.pageRows t (p.cursorAfter t done none) = rest.take p.batch := by
  rw [pageRows, h.filter_behind he]

/-! ## A pass -/

/-- Whatever the load is, the scan goes on after its rest. -/
theorem ensures_throttle {es : List Event} :
    p.throttle.Ensures (Scanning.undisturbed tables) (fun go es' => go = true ∧ es' = es) es := by
  unfold throttle
  cases p.loadPause with
  | none => exact ⟨rfl, rfl⟩
  | some d =>
    refine ensures_request_bind.mpr ?_
    rintro loaded es' ⟨-, rfl⟩
    cases loaded with
    | false => exact ⟨rfl, List.append_nil _⟩
    | true =>
      refine ensures_request_bind.mpr ?_
      rintro rested es' ⟨rfl, rfl⟩
      exact ⟨rfl, by simp [Scanning.Request.published]⟩

variable (hs : Sql.IsName p.sort) (hfull : p.isFull = true)
  (hbase : p.Scans (tables p.base)) (htarget : p.Scans (tables p.target))

include hs hfull hbase htarget

theorem ensures_forwardPage {g : Progress} {es : List Event} (hg : p.Visited tables .forward g es) :
    (p.forwardPage g).Ensures (Scanning.undisturbed tables) (p.Renews tables .forward g) es := by
  obtain ⟨done, rest, he, rfl, rfl⟩ := hg
  obtain ⟨s, hstatement, hanswer⟩ :=
    hbase.answeredRows_page hs (p.cursorAfter (tables p.base) done none) false
  rw [hbase.pageRows_cursorAfter he] at hanswer
  rw [forwardPage]
  simp only [scanned, hstatement]
  refine ensures_request_bind.mpr ?_
  rintro reply es' ⟨hreply, rfl⟩
  obtain rfl := hreply.trans (congrArg some hanswer)
  have hrows : ∀ r ∈ rest.take p.batch, r ∈ p.visiting (tables p.base) := fun r hr => by
    rw [show p.visiting (tables p.base) = done ++ rest from he]
    exact List.mem_append_right _ (List.mem_of_mem_take hr)
  refine (ensures_compareRows hbase htarget.toFits hrows).bind ?_
  rintro e es' ⟨rfl, rfl⟩
  have hafter := ensures_afterPage .forward hbase hfull he
  simpa [Scanning.Request.published, scanned] using hafter

omit hs in
/-- The lookup of the identities of a page. -/
theorem ensures_compareIds {done rest : List (List Value)}
    (he : p.visiting (tables p.target) = done ++ rest) (hne : rest ≠ []) :
    (p.compareIds (rest.take p.batch).length ((rest.take p.batch).map (p.keyOf (tables p.target)))
      ⟨p.tallyOf tables .backward done {},
        p.cursorAfter (tables p.target) done none⟩).Ensures
      (Scanning.undisturbed tables)
      (p.Renews tables .backward ⟨p.tallyOf tables .backward done {},
        p.cursorAfter (tables p.target) done none⟩) (p.eventsOf tables .backward done) := by
  have hpage : rest.take p.batch ≠ [] := by
    have hpos := p.batch_pos
    simp [hne, Nat.ne_of_gt hpos]
  have hids : ((rest.take p.batch).map (p.keyOf (tables p.target))).map (·.id) =
      (rest.take p.batch).map ((tables p.target).idOf p.table) := by
    rw [List.map_map]
    rfl
  have hanswer := answeredRows_idsIn (p := p) hbase.toFits
    (((rest.take p.batch).map (p.keyOf (tables p.target))).map (·.id))
  rw [compareIds]
  refine ensures_request_bind.mpr ?_
  rintro reply es' ⟨hreply, rfl⟩
  obtain rfl := hreply.trans (congrArg some hanswer)
  simp only [filterMap_getInt64_shown hbase.toFits, hids]
  have hpresent : ∀ r ∈ rest.take p.batch, _ = _ := fun r hr =>
    contains_present (p := p) hbase.toFits
      (List.mem_map_of_mem (f := (tables p.target).idOf p.table) hr)
  refine (ensures_reportAbsent hpresent _ _).bind ?_
  rintro e es' ⟨rfl, rfl⟩
  have hafter := ensures_afterPage .backward htarget hfull he
  simp only [if_true, getLast?_map_keyOf hpage (p.cursorAfter (tables p.target) done none)]
  simpa [Scanning.Request.published, scanned] using hafter

theorem ensures_backwardPage {g : Progress} {es : List Event}
    (hg : p.Visited tables .backward g es) :
    (p.backwardPage g).Ensures (Scanning.undisturbed tables) (p.Renews tables .backward g) es := by
  obtain ⟨done, rest, he, rfl, rfl⟩ := hg
  obtain ⟨s, hstatement, hanswer⟩ :=
    htarget.answeredRows_page hs (p.cursorAfter (tables p.target) done none) true
  rw [htarget.pageRows_cursorAfter he] at hanswer
  rw [backwardPage]
  simp only [scanned, hstatement]
  refine ensures_request_bind.mpr ?_
  rintro reply es' ⟨hreply, rfl⟩
  obtain rfl := hreply.trans (congrArg some hanswer)
  cases rest with
  | nil =>
    have hafter := ensures_afterPage .backward htarget hfull he
    simpa [Scanning.Request.published, scanned, tallyOf, eventsOf, cursorAfter] using hafter
  | cons r rest =>
    have hne : (r :: rest).take p.batch ≠ [] := by
      have hpos := p.batch_pos
      simp [Nat.ne_of_gt hpos]
    have hkeys : (((r :: rest).take p.batch).map (p.shownRow (tables p.target) true)).mapM
        p.cursorOf = .ok (((r :: rest).take p.batch).map (p.keyOf (tables p.target))) := by
      rw [List.mapM_map]
      refine mapM_eq_ok fun r' hr' => htarget.cursorOf_shownRow true ?_
      rw [show p.visiting (tables p.target) = done ++ r :: rest from he]
      exact List.mem_append_right _ (List.mem_of_mem_take hr')
    have hids := ensures_compareIds hfull hbase htarget he (List.cons_ne_nil r rest)
    have hshown : ((r :: rest).take p.batch).map (p.shownRow (tables p.target) true) ≠ [] := by
      simpa using hne
    obtain ⟨row, rows, hrows⟩ := List.exists_cons_of_ne_nil hshown
    have hlength : (row :: rows).length = ((r :: rest).take p.batch).length := by
      rw [← hrows, List.length_map]
    rw [hrows] at hkeys ⊢
    simp only [hkeys, hlength]
    simpa [Scanning.Request.published, scanned] using hids

/-- **A pass renews the promise of its scan and comes nearer to the end.** -/
theorem ensures_pass (way : Way) {g : Progress} {es : List Event} (hg : p.Visited tables way g es) :
    (p.pass way g).Ensures (Scanning.undisturbed tables) (p.Renews tables way g) es := by
  unfold pass
  refine ensures_request_bind.mpr ?_
  rintro reply es' ⟨rfl, rfl⟩
  refine ensures_throttle.bind ?_
  rintro go es' ⟨rfl, rfl⟩
  cases way with
  | forward =>
    simpa [Scanning.Request.published] using ensures_forwardPage hs hfull hbase htarget hg
  | backward =>
    simpa [Scanning.Request.published] using ensures_backwardPage hs hfull hbase htarget hg

end Plan
end Cutover
