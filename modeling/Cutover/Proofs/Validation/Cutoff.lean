import Cutover.Proofs.Dialogue.Path
import Cutover.Proofs.Validation.Observed
import Cutover.Proofs.Validation.Requests

/-! # The cutoff of a validation

A page asks for rows that were changed after the cutoff only if the cutoff is above zero.  Then
every row that a page brings is such a row, whatever the table is like, and since a scan asks for
nothing but pages and what has to do with the rows they have brought, neither scan looks up or
reports any other (`Plan.cutoff_bounds_only_above_zero`).  A cutoff of zero or less asks for
nothing, and a validation with one goes like one without a cutoff: rows that were changed before a
time below zero, and rows without a time of change, are visited and reported.
-/

namespace Cutover

open Dialogue Sql

/-! ## Answered readings -/

theorem Row.toInt64?_of_getInt64 {r : Row} {c : String} {n : Int64} (h : r.getInt64 c = .ok n)
    {v : Value} (hv : r.get? c = some v) : v.toInt64? = some n := by
  rw [getInt64, hv] at h
  dsimp only at h
  split at h
  · cases h
  · rename_i m hm
    cases h
    exact hm

namespace Table

variable {t : Table} {s : Select} {args : Args} {rows : List Row} {row : Row}

theorem HasColumn.of_checkColumns {cs : List String} (h : t.checkColumns cs = .ok ()) {c : String}
    (hc : c ∈ cs) : t.HasColumn c := by
  unfold checkColumns at h
  split at h
  · rename_i hall
    exact List.all_eq_true.mp hall c hc
  · cases h

/-- The columns that an answered reading names are there, and each of its rows is one of those it
selects. -/
theorem exists_of_select_eq_ok (h : t.select s args = .ok rows) :
    (∀ c ∈ s.columns.getD [] ++ s.conditions.flatMap Condition.columns ++ s.order, t.HasColumn c) ∧
      ∀ row ∈ rows, ∃ r ∈ t.selected s args, t.resultRow s r = .ok row := by
  unfold select at h
  cases hcheck : t.checkSelect s with
  | error e =>
    rw [hcheck] at h
    cases h
  | ok u =>
    rw [hcheck] at h
    refine ⟨fun c hc => ?_, fun row hrow => exists_of_mem_mapM h hrow⟩
    unfold checkSelect at hcheck
    cases hname : t.checkName s.table with
    | error e =>
      rw [hname] at hcheck
      cases hcheck
    | ok u =>
      rw [hname] at hcheck
      exact .of_checkColumns hcheck hc

/-- An answered row shows the stored one, which is complete if it is shown whole. -/
theorem eq_shown_of_resultRow {r : List Value} (h : t.resultRow s r = .ok row) :
    row = t.shown s.columns r ∧ (s.columns = none → r.length = t.columns.length) := by
  unfold resultRow at h
  cases hcolumns : s.columns with
  | some cs =>
    rw [hcolumns] at h
    cases h
    refine ⟨?_, nofun⟩
    simp only [resultNames, hcolumns]
    rfl
  | none =>
    rw [hcolumns] at h
    simp only [Row.ofColumns?] at h
    split at h
    · rename_i hlength
      cases h
      exact ⟨rfl, fun _ => hlength.symm⟩
    · cases h

/-- **An answered row holds in a column it shows what the stored one holds there.** -/
theorem get?_of_resultRow {r : List Value} (h : t.resultRow s r = .ok row) {c : String}
    (hcolumn : t.HasColumn c) (hshown : ∀ cs, s.columns = some cs → c ∈ cs) :
    row.get? c = some (t.cell r c) := by
  obtain ⟨rfl, hwidth⟩ := eq_shown_of_resultRow h
  cases hcolumns : s.columns with
  | some cs => exact get?_projected (hshown cs hcolumns)
  | none => exact get?_shown (hwidth hcolumns) hcolumn nofun

end Table

namespace Plan

variable {p : Plan} {t : Table}

/-! ## Pages with a cutoff -/

/-- A stored row was changed after the cutoff. -/
def ChangedSince (p : Plan) (t : Table) (r : List Value) : Prop :=
  ∃ u, t.number? r p.table.utimeColumn = some u ∧ p.utimeAfter < u

theorem isName_of_pageStatement {cursor : Option Cursor} {idsOnly : Bool} {s : Statement}
    (h : p.pageStatement cursor idsOnly = .ok s) : IsName p.sort := by
  by_contra hname
  have hcheck : checkIdentifier p.sort = .error (.invalidIdentifier p.sort) := if_neg hname
  rw [pageStatement, TableSpec.page, hcheck] at h
  cases h

/-- The rows that a page with a cutoff selects were changed after it. -/
theorem changedSince_of_selected (hcutoff : 0 < p.utimeAfter) {cursor : Option Cursor}
    {idsOnly : Bool} {r : List Value} {s : Select} {args : Args}
    (hpage : p.table.pageCommand (p.pageOf cursor idsOnly) = ⟨.select s, args⟩)
    (hr : r ∈ t.selected s args) : r ∈ t.rows ∧ p.ChangedSince t r := by
  obtain ⟨hrows, hall⟩ := Table.mem_selected hr
  refine ⟨hrows, ?_⟩
  cases hpage
  have hargs : (p.pageOf cursor idsOnly).cutoffArgs = [.int p.utimeAfter] := if_pos hcutoff
  have hconditions : p.table.cutoffConditions (p.pageOf cursor idsOnly) =
      [.above p.table.utimeColumn 1] :=
    if_pos hcutoff
  have habove : Table.greater (t.number? r p.table.utimeColumn) (some p.utimeAfter) = true := by
    simp only [hconditions, List.cons_append, List.nil_append, List.all_cons, Bool.and_eq_true]
      at hall
    simpa [hargs, Table.holds, Table.argumentNumber?, Table.argument, Value.toInt64?] using hall.1
  cases hu : t.number? r p.table.utimeColumn with
  | none =>
    rw [hu] at habove
    cases habove
  | some u =>
    rw [hu] at habove
    exact ⟨u, hu, of_decide_eq_true habove⟩

/-- A page shows the identity of its rows. -/
theorem mem_pageColumns {idsOnly : Bool} {cs : List String} (h : p.pageColumns idsOnly = some cs) :
    p.table.idColumn ∈ cs := by
  unfold pageColumns at h
  split at h
  · cases h
    split <;> simp
  · cases h

/-- **Whatever a table is like, each row of a page with a cutoff is a stored row that was changed
after it.** -/
theorem exists_changedSince_of_page (hcutoff : 0 < p.utimeAfter) {cursor : Option Cursor}
    {idsOnly : Bool} {s : Statement} (hpage : p.pageStatement cursor idsOnly = .ok s)
    {rows : List Row} (hrows : t.answeredRows s = .ok rows) {row : Row} (hrow : row ∈ rows) :
    ∃ r ∈ t.rows, p.ChangedSince t r ∧ row = p.shownRow t idsOnly r ∧
      ∀ id, row.getInt64 p.table.idColumn = .ok id → t.number? r p.table.idColumn = some id := by
  have hname := isName_of_pageStatement hpage
  obtain rfl := Except.ok.inj ((pageStatement_eq hname cursor idsOnly).symm.trans hpage)
  have hreadable :=
    p.table.readable_pageCommand (g := .tolerant) (p := p.pageOf cursor idsOnly) hname
  rw [Table.answeredRows, t.runStatement_statement p.dialect hreadable] at hrows
  obtain ⟨select, args, hcommand⟩ : ∃ select args,
      p.table.pageCommand (p.pageOf cursor idsOnly) = ⟨.select select, args⟩ := ⟨_, _, rfl⟩
  have hcolumns : select.columns = p.pageColumns idsOnly := by
    cases hcommand
    rfl
  have horder : p.table.idColumn ∈ select.order := by
    cases hcommand
    dsimp only
    split <;> simp
  rw [hcommand, Table.run] at hrows
  cases hselect : t.select select args with
  | error e =>
    rw [hselect] at hrows
    cases hrows
  | ok found =>
    rw [hselect] at hrows
    cases hrows
    obtain ⟨hnamed, hstored⟩ := Table.exists_of_select_eq_ok hselect
    obtain ⟨r, hr, hresult⟩ := hstored row hrow
    obtain ⟨hmem, hchanged⟩ := changedSince_of_selected hcutoff hcommand hr
    have hshown := (Table.eq_shown_of_resultRow hresult).1
    rw [hcolumns] at hshown
    have hcell : row.get? p.table.idColumn = some (t.cell r p.table.idColumn) := by
      apply Table.get?_of_resultRow hresult
      · exact hnamed _ (List.mem_append_right _ horder)
      · exact fun cs hcs => mem_pageColumns (hcolumns.symm.trans hcs)
    exact ⟨r, hmem, hchanged, hshown, fun id hid => Row.toInt64?_of_getInt64 hid hcell⟩

/-! ## Cutoffs that ask for nothing -/

/-- The plan without its cutoff. -/
def uncut (p : Plan) : Plan := { p with utimeAfter := 0 }

theorem compareRows_uncut (rows : List Row) (s : Progress) :
    p.uncut.compareRows rows s = p.compareRows rows s := by
  induction rows generalizing s with
  | nil => rfl
  | cons r rs ih =>
    unfold compareRows
    simp only [ih]
    rfl

theorem compareIds_uncut (length : Nat) (cursors : List Cursor) (s : Progress) :
    p.uncut.compareIds length cursors s = p.compareIds length cursors s := by
  have habsent : ∀ present ids t, p.uncut.reportAbsent present ids t =
      p.reportAbsent present ids t := by
    intro present ids t
    induction ids generalizing t with
    | nil => rfl
    | cons id ids ih =>
      unfold reportAbsent
      simp only [ih]
      rfl
  unfold compareIds
  simp only [habsent]
  rfl

section
variable (hcutoff : p.utimeAfter ≤ 0)
include hcutoff

theorem pageStatement_uncut (cursor : Option Cursor) (idsOnly : Bool) :
    p.uncut.pageStatement cursor idsOnly = p.pageStatement cursor idsOnly := by
  have hnone : ¬ 0 < p.utimeAfter := Int64.not_lt.mpr hcutoff
  have hzero : ¬ (0 : Int64) < 0 := Int64.lt_irrefl
  have hpage : p.table.pageCommand (p.uncut.pageOf cursor idsOnly) =
      p.table.pageCommand (p.pageOf cursor idsOnly) := by
    simp only [TableSpec.pageCommand, TableSpec.cutoffConditions, Page.cutoffArgs, pageOf, uncut,
      hnone, hzero, if_false]
    rfl
  by_cases hname : IsName p.sort
  · rw [pageStatement_eq hname, pageStatement_eq (p := p.uncut) hname]
    exact congrArg (fun c => Except.ok (c.statement p.dialect)) hpage
  · have hcheck : checkIdentifier p.sort = .error (.invalidIdentifier p.sort) := if_neg hname
    simp only [pageStatement, TableSpec.page, uncut, hcheck]
    rfl

theorem pass_uncut (way : Way) (s : Progress) : p.uncut.pass way s = p.pass way s := by
  have hforward : p.uncut.forwardPage s = p.forwardPage s := by
    unfold forwardPage
    simp only [pageStatement_uncut hcutoff, compareRows_uncut]
    rfl
  have hbackward : p.uncut.backwardPage s = p.backwardPage s := by
    unfold backwardPage
    simp only [pageStatement_uncut hcutoff, compareIds_uncut]
    rfl
  unfold pass
  rw [hforward, hbackward]
  rfl

/-- **A scan with a cutoff of zero or less is the scan without a cutoff.** -/
theorem scan_uncut (way : Way) : p.uncut.scan way = p.scan way := by
  have hround : p.uncut.pass way = p.pass way := funext (pass_uncut hcutoff way)
  rw [scan, scan, hround]

end

end Plan

/-! ## What a run has asked for -/

/-- The observer who takes down every exchange. -/
def recorder : Observer (List (Exchange Scanning)) where
  start := []
  note _ es r reply := es ++ [⟨r, reply⟩]

namespace Scanning

/-- What a request may get while the token may be cancelled in front of any reply. -/
def MayReply (stores : Supervision.Replies) (r : Interface.Request Scanning)
    (reply : Scanning.Reply r) : Prop :=
  ∃ cancelled, Heeds cancelled r reply ∧ (cancelled = false → stores r reply)

/-- A query that is answered is answered by the stores. -/
theorem MayReply.answered {stores : Supervision.Replies} {on : Side} {s : Statement}
    {result : Except StoreError (List Row)} (h : MayReply stores (.query on s) (some result)) :
    stores (.query on s) (some result) := by
  obtain ⟨cancelled, hheeds, hstores⟩ := h
  have hfree : cancelled = false := hheeds.symm
  exact hstores hfree

end Scanning

namespace Plan

variable {p : Plan} {stores : Supervision.Replies} {visited : Way → Int64 → Prop}
  {v v' : Validating (Observed (List (Exchange Scanning)))}

/-- What is left of a scan asks only as said, and so did what has been taken down of it. -/
structure Recorded (p : Plan) (stores : Supervision.Replies) (visited : Int64 → Prop) (way : Way)
    (v : Validating (Observed (List (Exchange Scanning)))) : Prop where
  left : Loop.AsksGiven (Scanning.MayReply stores) (p.MayAsk visited way) (v.scanner way)
  asked : ∀ e ∈ v.shared.notes way, p.MayAsk visited way e.request ∧
    Scanning.MayReply stores e.request e.reply

section
variable (hpages : ∀ way, p.Brings (Scanning.MayReply stores) (visited way) way)
include hpages

/-- A step of a scan asks only as said, and what is taken down of it is what was asked. -/
theorem recorded_step (hstep : recorder.Step p stores v v')
    (hv : ∀ way, p.Recorded stores (visited way) way v) (way : Way) :
    p.Recorded stores (visited way) way v' := by
  cases hstep with
  | cancelled _ => exact ⟨(hv way).left, (hv way).asked⟩
  | scanned hstep =>
    obtain ⟨other, -, hscan⟩ := hstep
    by_cases hw : way = other
    · subst hw
      have hleft := (hv way).left
      generalize hc : v.scanner way = c at hscan hleft
      cases hscan with
      | rounded _ verdict =>
        refine ⟨?_, (hv way).asked⟩
        dsimp only
        rw [Function.update_self]
        exact Loop.asksGiven_next (asks_pass (hpages way)) verdict
      | @answered _ _ r next reply hg =>
        obtain ⟨hheeds, hreplies, rfl⟩ := hg
        have hreply : Scanning.MayReply stores r reply := ⟨_, hheeds, hreplies⟩
        constructor
        · dsimp only
          rw [Function.update_self]
          exact hleft.2 reply hreply
        · intro e he
          dsimp only at he
          rw [Function.update_self] at he
          rcases List.mem_append.mp he with he | he
          · exact (hv way).asked e he
          · obtain rfl := List.mem_singleton.mp he
            exact ⟨hleft.1, hreply⟩
    · obtain ⟨-, -, hnotes⟩ := Observer.scan_step_alone hscan (fun h : false = true => nomatch h)
      constructor
      · dsimp only
        rw [Function.update_of_ne hw]
        exact (hv way).left
      · dsimp only
        rw [hnotes way hw]
        exact (hv way).asked

/-- **Whatever a run has asked for is a page, or has to do with a row that a page has brought.** -/
theorem recorded_reaches (hrun : recorder.Reaches p stores (recorder.begin p) v) (way : Way) :
    p.Recorded stores (visited way) way v := by
  induction hrun generalizing way with
  | refl => exact ⟨asks_pass (hpages way) {}, nofun⟩
  | tail _ hstep ih => exact recorded_step hpages hstep ih way

end

/-! ## Every run -/

/-- A row of one of these states of a side, changed after the cutoff, has this identity. -/
def HasChanged (p : Plan) (held : Side → Table → Prop) (way : Way) (id : Int64) : Prop :=
  ∃ t, held (p.paged way) t ∧ ∃ r ∈ t.rows, p.ChangedSince t r ∧
    t.number? r p.table.idColumn = some id

/-- The exchange is a page that brought these rows. -/
def IsPageOf (p : Plan) (way : Way) (e : Exchange Scanning) (rows : List Row) : Prop :=
  ∃ cursor s, p.pageStatement cursor (way == .backward) = .ok s ∧
    e = ⟨.query (p.paged way) s, some (.ok rows)⟩

/-- **A cutoff bounds a validation if it is above zero, and only then.**  The tables may be like
anything and change in any way, calls may fail, and the token may be cancelled at any moment.  With
a cutoff above zero, each row that a page of either scan brings was changed after it, and whatever
else a scan asks for, be it the other store's row of an identity or that a difference is published,
has to do with such a row.  With a cutoff of zero or less each scan is the scan without a cutoff. -/
theorem cutoff_bounds_only_above_zero (held : Side → Table → Prop)
    (hstores : ∀ on s rows, stores (.query on s) (some (.ok rows)) → ∃ t, held on t ∧
      t.answeredRows s = .ok rows) :
    (0 < p.utimeAfter → ∀ v, recorder.Reaches p stores (recorder.begin p) v →
      ∀ way, ∀ e ∈ v.shared.notes way, p.MayAsk (p.HasChanged held way) way e.request ∧
        ∀ rows, p.IsPageOf way e rows → ∀ row ∈ rows, ∃ t, held (p.paged way) t ∧
          ∃ r ∈ t.rows, p.ChangedSince t r ∧ row = p.shownRow t (way == .backward) r) ∧
      (p.utimeAfter ≤ 0 → ∀ way, p.uncut.scan way = p.scan way) := by
  constructor
  · intro hcutoff v hrun way e he
    have hpages : ∀ way, p.Brings (Scanning.MayReply stores) (p.HasChanged held way) way := by
      intro way cursor s rows hs hreply row hrow id hid
      obtain ⟨t, ht, hrows⟩ := hstores _ _ _ hreply.answered
      obtain ⟨r, hr, hchanged, -, hnumber⟩ := exists_changedSince_of_page hcutoff hs hrows hrow
      exact ⟨t, ht, r, hr, hchanged, hnumber id hid⟩
    obtain ⟨hasked, hreply⟩ := (recorded_reaches hpages hrun way).asked e he
    refine ⟨hasked, ?_⟩
    rintro rows ⟨cursor, s, hs, rfl⟩ row hrow
    obtain ⟨t, ht, hrows⟩ := hstores _ _ _ hreply.answered
    obtain ⟨r, hr, hchanged, hshown, -⟩ := exists_changedSince_of_page hcutoff hs hrows hrow
    exact ⟨t, ht, r, hr, hchanged, hshown⟩
  · exact fun hcutoff => scan_uncut hcutoff

/-! ## Validations of an empty target -/

/-- A base with these rows, and an empty target. -/
def dated (rows : List (List Value)) : Side → Table
  | .src => ⟨"items", "id", ["id", "utime"], rows⟩
  | .dst => ⟨"items", "id", ["id", "utime"], []⟩

/-- A full validation of the rows that were changed after a time. -/
def since (utime : Int64) : Plan where
  base := .src
  target := .dst
  direction := .src
  table := .items
  sort := "id"
  utimeAfter := utime
  batch := 16
  batch_pos := by decide

/-- The validation when its forward scan has gone some steps. -/
def goneForward (utime : Int64) (rows : List (List Value)) (n : Nat) :
    Validating (Observed (List (Exchange Scanning))) :=
  (List.replicate n Way.forward).foldl (recorder.goOn (since utime) (Scanning.replies (dated rows)))
    (recorder.begin (since utime))

theorem reaches_goneForward (utime : Int64) (rows : List (List Value)) (n : Nat) :
    recorder.Reaches (since utime) (Scanning.Undisturbed (dated rows))
    (recorder.begin (since utime))
      (goneForward utime rows n) :=
  Observer.reaches_moves
    (fun r => ⟨Scanning.heeds_replies (dated rows) r, Scanning.undisturbed_replies (dated rows) r⟩)
      rfl _

/-- Of three rows one was changed at the time of the cutoff, one at a later time, and one at no
known time. -/
def threeDated : List (List Value) := [[.int 1, .int 5], [.int 2, .int 6], [.int 3, .null]]

theorem cutoff_bounds_only_above_zero_sample :
    (∀ on s rows, Scanning.Undisturbed (dated threeDated) (.query on s) (some (.ok rows)) →
      ∃ t, t = dated threeDated on ∧ t.answeredRows s = .ok rows) ∧
    (0 : Int64) < 5 ∧
    Scanning.Request.publish ⟨2, .targetMissing, .src⟩ ∈
      ((goneForward 5 threeDated 12).shared.notes .forward).map (·.request) ∧
    ∀ e ∈ (goneForward 5 threeDated 12).shared.notes .forward,
      (since 5).MayAsk ((since 5).HasChanged (fun on t => t = dated threeDated on) .forward)
        .forward e.request := by
  have hstores : ∀ on s rows, Scanning.Undisturbed (dated threeDated) (.query on s)
    (some (.ok rows)) →
      ∃ t, t = dated threeDated on ∧ t.answeredRows s = .ok rows := by
    intro on s rows hreply
    exact ⟨_, rfl, (Option.some.inj hreply).symm⟩
  have hbounds :=
    (cutoff_bounds_only_above_zero (p := since 5) (fun on t => t = dated threeDated on) hstores).1
    (by decide)
  refine ⟨hstores, by decide, by decide +kernel, fun e he => ?_⟩
  exact (hbounds _ (reaches_goneForward 5 threeDated 12) .forward e he).1

/-- **A cutoff below zero bounds nothing**: a row is reported that was changed before it. -/
theorem cutoff_below_zero_bounds_nothing :
    ¬ ∀ (p : Plan) (tables : Side → Table) (v : Validating (Observed (List (Exchange Scanning)))),
      p.utimeAfter ≠ 0 → recorder.Reaches p (Scanning.Undisturbed tables) (recorder.begin p) v →
        ∀ way id kind, Scanning.Request.publish ⟨id, kind, p.direction⟩ ∈ (v.shared.notes way).map
          (·.request) → p.HasChanged (fun on t => t = tables on) way id := by
  intro hall
  let rows : List (List Value) := [[.int 1, .int (-5000)]]
  have hpublished : Scanning.Request.publish ⟨1, .targetMissing, .src⟩ ∈
      ((goneForward (-1000) rows 12).shared.notes .forward).map (·.request) := by decide +kernel
  obtain ⟨t, rfl, r, hr, ⟨u, hu, hlater⟩, -⟩ := hall (since (-1000)) (dated rows) _ (by decide)
    (reaches_goneForward (-1000) rows 12) .forward 1 .targetMissing hpublished
  obtain rfl : r = [.int 1, .int (-5000)] := List.mem_singleton.mp hr
  have hcell : (dated rows .src).number? [.int 1, .int (-5000)] "utime" = some (-5000) := by
    decide +kernel
  obtain rfl := Option.some.inj (hcell.symm.trans hu)
  exact absurd hlater (by decide)

end Plan
end Cutover
