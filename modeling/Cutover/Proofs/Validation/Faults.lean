import Cutover.Proofs.Scheduler.Supervision
import Cutover.Proofs.Validation.Counting
import Cutover.Proofs.Validation.Report

/-! # Passes in which calls fail

The tables stay as they are, but a query of a page or of the identities of a page may fail, and the
token may be cancelled at any moment (`Scanning.Meets`).  Of each scan it is noted what it has
published, how many of its calls have failed, and what it had published when it came to rest at the
end of the data (`Scanning.Notes`).

A scan that meets a failed call has not moved: it rests and repeats the pass from the place where it
was.  A page of which every row has been looked at moves it behind the last of them.  So at the
beginning of a pass the scan has published what it found of the rows in front of its cursor, each
once, and has counted the failed calls (`Plan.Resumes`); a pass leaves it so
(`Plan.ensures_pass_tried`), and with fewer rows in front of it or fewer failures to come, if it has
not come to the end.
-/

namespace Cutover

open Dialogue Sql

namespace Scanning

/-- What is noted of one scan. -/
structure Notes where
  /-- Whether a reply has shown it that the token is cancelled. -/
  noticed : Bool := false
  /-- The events that it has published. -/
  events : List Event := []
  /-- The number of its calls that have failed. -/
  failed : Nat := 0
  /-- The length of the page that it has read, as long as no call has failed since and it has not
  rested. -/
  page : Option Nat := none
  /-- What it had published when it first came to rest behind a page that was not full. -/
  ended : Option (List Event) := none
  deriving DecidableEq

namespace Notes

variable (a : Notes)

/-- The cancellation shows. -/
def notice : Notes := { a with noticed := true }

/-- Events are published. -/
def publish (es : List Event) : Notes := { a with events := a.events ++ es }

/-- A call fails. -/
def fail : Notes := { a with failed := a.failed + 1, page := none }

/-- A page of this length is read. -/
def read (length : Nat) : Notes := { a with page := some length }

/-- Whether the last page was not full. -/
def atEnd (batch : Nat) : Bool := a.page.any (· < batch)

/-- The scan comes to rest. -/
def rest (batch : Nat) : Notes :=
  { a with
    page := none
    ended := if a.ended.isNone && !a.noticed && a.atEnd batch then some a.events else a.ended }

/-- Nothing has come about. -/
structure Alike (a a' : Notes) : Prop where
  events : a'.events = a.events
  failed : a'.failed = a.failed
  ended : a'.ended = a.ended

variable {a} {a' : Notes} {batch : Nat}

theorem Alike.refl (a : Notes) : a.Alike a := ⟨rfl, rfl, rfl⟩

theorem Alike.notice (h : a.Alike a') : a.Alike a'.notice := ⟨h.events, h.failed, h.ended⟩

theorem notice_eq_self (h : a.noticed = true) : a.notice = a := by rw [notice, ← h]

/-- Behind a page that is not full there is the end. -/
theorem ended_rest_ne_none (hfree : a.noticed = false) (hend : a.atEnd batch = true) :
    (a.rest batch).ended ≠ none := by
  cases hended : a.ended <;> simp [rest, hfree, hend, hended]

/-- A rest behind a full page or behind no page, or one that is cut short. -/
theorem Alike.rest (h : a.noticed = true ∨ a.atEnd batch = false) : a.Alike (a.rest batch) where
  events := rfl
  failed := rfl
  ended := by rcases h with h | h <;> simp [Notes.rest, h]

end Notes

/-- How a request may be answered: as the tables have it; by a failure, if it is a query; or as a
cancelled token has it. -/
inductive Meets (tables : Side → Table) (mayFail : Prop) :
    Bool → (r : Scanning.Request) → Scanning.Reply r → Prop
  | answered {r : Scanning.Request} {reply : Scanning.Reply r} : Undisturbed tables r reply →
      Meets tables mayFail false r reply
  | failed (on : Side) (s : Statement) (e : StoreError) : mayFail →
      Meets tables mayFail false (.query on s) (some (.error e))
  | cut {r : Scanning.Request} {reply : Scanning.Reply r} : Heeds true r reply →
      Meets tables mayFail true r reply

end Scanning

namespace Plan

open Scanning (Notes Meets)

variable (p : Plan) (tables : Side → Table) (faults : Nat)

/-- The notes on the scan of a way after a reply. -/
def note (way : Way) (a : Notes) : (r : Scanning.Request) → Scanning.Reply r → Notes
  | .cancelled, true => a.notice
  | .cancelled, false => a
  | .loaded, _ | .awaited _, _ => a
  | .query on _, some (.ok rows) => if on = p.paged way then a.read rows.length else a
  | .query .., some (.error _) => a.fail
  | .publish e, some (.ok _) => a.publish [e]
  | .publish _, some (.error _) => a
  | .queryRow .., some _ => a
  | .rest _, some _ => a.rest p.batch
  | .rest _, none => (a.rest p.batch).notice
  | .query .., none | .queryRow .., none | .publish _, none => a.notice

/-- The surroundings of a single scan: of its calls this number may fail, and the token may be
cancelled in front of any reply. -/
def trying (way : Way) : Surroundings Scanning Notes := fun a r reply a' =>
  (∃ cancelled, (a.noticed = true → cancelled = true) ∧
    Meets tables (a.failed < faults) cancelled r reply) ∧ a' = p.note way a r reply

variable {p tables faults} {way : Way} {a : Notes} {t : Tally}

/-! ## Single requests -/

theorem ensures_isCancelled_tried :
    isCancelled.Ensures (p.trying tables faults way)
      (fun stop a' => stop = false ∧ a.noticed = false ∧ a' = a ∨ stop = true ∧
        a' = a.notice) a := by
  rintro reply a' ⟨⟨cancelled, hnoticed, hmeets⟩, rfl⟩
  cases hmeets with
  | answered hreply =>
    obtain rfl : reply = false := hreply
    exact .inl ⟨rfl, Bool.eq_false_of_not_eq_true (mt hnoticed Bool.false_ne_true), rfl⟩
  | cut hheeds =>
    obtain rfl : reply = true := hheeds
    exact .inr ⟨rfl, rfl⟩

theorem ensures_rest_tried (d : Duration) :
    (rest d).Ensures (p.trying tables faults way)
      (fun slept a' => slept = true ∧ a.noticed = false ∧ a' = a.rest p.batch ∨
        slept = false ∧ a' = (a.rest p.batch).notice) a := by
  rintro reply a' ⟨⟨cancelled, hnoticed, hmeets⟩, rfl⟩
  cases hmeets with
  | answered hreply =>
    obtain rfl : reply = some () := hreply
    exact .inl ⟨rfl, Bool.eq_false_of_not_eq_true (mt hnoticed Bool.false_ne_true), rfl⟩
  | cut hheeds =>
    obtain rfl : reply = none := Option.isNone_iff_eq_none.mp hheeds
    exact .inr ⟨rfl, rfl⟩

/-- A query that the tables answer is answered so, or fails, or is cut short. -/
theorem ensures_query_tried {on : Side} {st : Statement} {rows : List Row}
    (hanswer : (tables on).answeredRows st = .ok rows) :
    (askScanning (.query on st)).Ensures (p.trying tables faults way)
      (fun reply a' => reply = some (.ok rows) ∧ a.noticed = false ∧
          a' = (if on = p.paged way then a.read rows.length else a) ∨
        (∃ e, reply = some (.error e)) ∧ a.noticed = false ∧ a.failed < faults ∧ a' = a.fail ∨
        reply = none ∧ a' = a.notice) a := by
  rintro reply a' ⟨⟨cancelled, hnoticed, hmeets⟩, rfl⟩
  cases hmeets with
  | answered hreply =>
    obtain rfl := hreply.trans (congrArg some hanswer)
    exact .inl ⟨rfl, Bool.eq_false_of_not_eq_true (mt hnoticed Bool.false_ne_true), rfl⟩
  | failed _ _ e hfails =>
    exact .inr (.inl ⟨⟨e, rfl⟩, Bool.eq_false_of_not_eq_true (mt hnoticed Bool.false_ne_true),
      hfails, rfl⟩)
  | cut hheeds =>
    obtain rfl : reply = none := Option.isNone_iff_eq_none.mp hheeds
    exact .inr (.inr ⟨rfl, rfl⟩)

/-- A difference is published and counted, or that is cut short. -/
theorem ensures_emit_tried (id : Int64) (kind : EventKind) :
    (p.emit id kind t).Ensures (p.trying tables faults way)
      (fun t' a' => a.noticed = false ∧ t' = t.report kind ∧
        a' = a.publish [⟨id, kind, p.direction⟩] ∨ t' = t ∧ a' = a.notice) a := by
  rintro reply a' ⟨⟨cancelled, hnoticed, hmeets⟩, rfl⟩
  cases hmeets with
  | answered hreply =>
    obtain rfl : reply = some (.ok ()) := hreply
    exact .inl ⟨Bool.eq_false_of_not_eq_true (mt hnoticed Bool.false_ne_true), rfl, rfl⟩
  | cut hheeds =>
    obtain rfl : reply = none := Option.isNone_iff_eq_none.mp hheeds
    exact .inr ⟨rfl, rfl⟩

/-- The rest for a high load brings nothing about. -/
theorem ensures_throttle_tried (ha : a.noticed = false) (hpage : a.atEnd p.batch = false) :
    p.throttle.Ensures (p.trying tables faults way)
      (fun goOn a' => a.Alike a' ∧ a'.noticed = !goOn) a := by
  unfold throttle
  cases p.loadPause with
  | none => exact ⟨.refl _, ha⟩
  | some d =>
    rintro loaded _ ⟨-, rfl⟩
    cases loaded with
    | false => exact ⟨.refl _, ha⟩
    | true =>
      refine (ensures_rest_tried d).mono ?_
      rintro slept _ (⟨rfl, hfree, rfl⟩ | ⟨rfl, rfl⟩)
      · exact ⟨.rest (.inr hpage), hfree⟩
      · exact ⟨(Notes.Alike.rest (.inr hpage)).notice, rfl⟩

/-! ## Rows -/

/-- The scan has been cut short among these rows, having published what it found of the first of
them. -/
def CutShort (p : Plan) (tables : Side → Table) (way : Way) (rows : List (List Value))
    (a a' : Notes) : Prop :=
  ∃ es, es <+: p.eventsOf tables way rows ∧ a' = (a.publish es).notice

theorem CutShort.of_notice (rows : List (List Value)) (a : Notes) :
    p.CutShort tables way rows a a.notice :=
  ⟨[], List.nil_prefix, by simp [Notes.publish]⟩

/-- Having come behind the first row the scan may be cut short among the others. -/
theorem CutShort.cons {r : List Value} {rows : List (List Value)} {a' : Notes}
    (h : p.CutShort tables way rows (a.publish (p.eventOf (p.finding tables way r)).toList) a') :
    CutShort p tables way (r :: rows) a a' := by
  obtain ⟨es, hes, rfl⟩ := h
  refine ⟨(p.eventOf (p.finding tables way r)).toList ++ es, ?_, ?_⟩
  · rw [eventsOf_cons]
    exact (List.prefix_append_right_inj _).mpr hes
  · simp [Notes.publish]

/-- One row of the base is compared with the target, or that is cut short. -/
theorem ensures_compareRow_tried (hbase : p.Scans (tables p.base))
    (htarget : (tables p.target).Fits p.table) {r : List Value} (hr : r ∈ (tables p.base).rows) :
    (p.compareRow (p.shownRow (tables p.base) false r) t.scan).Ensures
    (p.trying tables faults .forward)
      (fun t' a' => t' = t.count (p.finding tables .forward r) ∧
          a' = a.publish (p.eventOf (p.finding tables .forward r)).toList ∨
        t'.errors = t.errors ∧ a' = a.notice) a := by
  have hrecord : Record.ofRow? (p.shownRow (tables p.base) false r) p.table.idColumn =
      .ok ((tables p.base).recordOf p.table r) := ofRow?_shown hbase.toFits hr
  rw [compareRow, hrecord]
  refine ensures_request_bind.mpr ?_
  rintro reply a' ⟨⟨cancelled, hnoticed, hmeets⟩, rfl⟩
  cases hmeets with
  | cut hheeds =>
    obtain rfl : reply = none := Option.isNone_iff_eq_none.mp hheeds
    exact .inr ⟨rfl, rfl⟩
  | answered hreply =>
    -- the target answers with the row it has under this identity
    obtain rfl : reply = some (.ok (((tables p.target).lookup p.table
        ((tables p.base).idOf p.table r)).map ((tables p.target).shown none))) :=
      hreply.trans (congrArg some (answeredRows_byId htarget _))
    simp only [difference_recordOf htarget r, finding, Tally.count, eventOf]
    cases hk : p.forwardKind tables r with
    | none => exact .inl ⟨rfl, by simp [note, Notes.publish]⟩
    | some k =>
      refine (ensures_emit_tried _ k).mono ?_
      rintro t' a' (⟨-, rfl, rfl⟩ | ⟨rfl, rfl⟩)
      · exact .inl ⟨rfl, rfl⟩
      · exact .inr ⟨rfl, rfl⟩

/-- A scan that has noticed the cancellation looks at no row any more. -/
theorem ensures_compareRows_noticed (ha : a.noticed = true) (rows : List Row) (g : Progress) :
    (p.compareRows rows g).Ensures (p.trying tables faults way)
      (fun e a' => a' = a ∧ (e = .through g ∨ e = .stopped g.tally)) a := by
  cases rows with
  | nil => exact ⟨rfl, .inl rfl⟩
  | cons row rows =>
    refine ensures_isCancelled_tried.bind ?_
    rintro stop a' (⟨-, hfree, -⟩ | ⟨rfl, rfl⟩)
    · exact absurd (hfree.symm.trans ha) Bool.false_ne_true
    · exact ⟨Notes.notice_eq_self ha, .inr rfl⟩

/-- **The rows of a page are compared one after the other**, or that is cut short. -/
theorem ensures_compareRows_tried (hbase : p.Scans (tables p.base))
    (htarget : (tables p.target).Fits p.table) {rows : List (List Value)}
    (hrows : ∀ r ∈ rows, r ∈ p.visiting (tables p.base)) {g : Progress} (ha : a.noticed = false) :
    (p.compareRows (rows.map (p.shownRow (tables p.base) false)) g).Ensures
      (p.trying tables faults .forward)
      (fun e a' => e = .through ⟨p.tallyOf tables .forward rows g.tally,
            p.cursorAfter (tables p.base) rows g.cursor⟩ ∧
          a' = a.publish (p.eventsOf tables .forward rows) ∨
        (∃ g', g'.tally.errors = g.tally.errors ∧ (e = .through g' ∨ e = .stopped g'.tally)) ∧
          p.CutShort tables .forward rows a a') a := by
  induction rows generalizing g a with
  | nil => exact .inl ⟨rfl, by simp [Notes.publish, eventsOf]⟩
  | cons r rows ih =>
    have hr := hrows r List.mem_cons_self
    have herrors := (tally_count g.tally (p.finding tables .forward r)).2
    rw [List.map_cons, compareRows]
    refine ensures_isCancelled_tried.bind ?_
    rintro stop a (⟨rfl, -, rfl⟩ | ⟨rfl, rfl⟩)
    · simp only [hbase.cursorOf_shownRow false hr]
      refine (ensures_compareRow_tried hbase htarget (mem_visiting.mp hr).1).bind ?_
      rintro t a₁ (⟨rfl, rfl⟩ | ⟨ht, rfl⟩)
      · refine (ih (fun r' hr' => hrows r' (List.mem_cons_of_mem _ hr')) ?_).mono ?_
        · exact ha
        rintro e a₂ (⟨rfl, rfl⟩ | ⟨⟨g', hg', he⟩, hcut⟩)
        · exact .inl ⟨by simp [cursorAfter_cons], by simp [Notes.publish]⟩
        · exact .inr ⟨⟨g', hg'.trans herrors, he⟩, hcut.cons⟩
      · refine (ensures_compareRows_noticed rfl _ _).mono ?_
        rintro e a₂ ⟨rfl, he⟩
        exact .inr ⟨⟨_, ht, he⟩, CutShort.of_notice _ _⟩
    · exact .inr ⟨⟨g, rfl, .inr rfl⟩, CutShort.of_notice _ _⟩

/-- A scan that has noticed the cancellation looks at no identity any more. -/
theorem ensures_reportAbsent_noticed (ha : a.noticed = true) (present ids : List Int64) :
    (p.reportAbsent present ids t).Ensures (p.trying tables faults way)
      (fun looked a' => a' = a ∧ looked.1 = t) a := by
  cases ids with
  | nil => exact ⟨rfl, rfl⟩
  | cons id ids =>
    refine ensures_isCancelled_tried.bind ?_
    rintro stop a' (⟨-, hfree, -⟩ | ⟨rfl, rfl⟩)
    · exact absurd (hfree.symm.trans ha) Bool.false_ne_true
    · exact ⟨Notes.notice_eq_self ha, rfl⟩

/-- An identity is looked at, and reported if it is not present. -/
def reportIfAbsent (p : Plan) (present : List Int64) (id : Int64) (t : Tally) :
    Dialogue Scanning Tally :=
  if present.contains id then return t.scan else p.emit id .baseMissing t.scan

/-- The identities are looked at one after the other, as long as the scan is not cancelled. -/
theorem reportAbsent_cons (present ids : List Int64) (id : Int64) (t : Tally) :
    p.reportAbsent present (id :: ids) t = (do
      if ← isCancelled then return (t, false)
      else p.reportAbsent present ids (← p.reportIfAbsent present id t)) := by
  rw [reportAbsent]
  congr 1
  funext stop
  unfold reportIfAbsent
  cases stop <;> cases present.contains id <;> rfl

/-- One identity of the target is looked at, or that is cut short. -/
theorem ensures_reportIfAbsent_tried {r : List Value} {present : List Int64}
    (hpresent : present.contains ((tables p.target).idOf p.table r) =
      ((tables p.base).lookup p.table ((tables p.target).idOf p.table r)).isSome) :
    (p.reportIfAbsent present ((tables p.target).idOf p.table r) t).Ensures
      (p.trying tables faults .backward)
      (fun t' a' => t' = t.count (p.finding tables .backward r) ∧
          a' = a.publish (p.eventOf (p.finding tables .backward r)).toList ∨
        t'.errors = t.errors ∧ a' = a.notice) a := by
  rw [reportIfAbsent, hpresent]
  simp only [finding, Tally.count, eventOf, backwardKind_eq]
  cases ((tables p.base).lookup p.table ((tables p.target).idOf p.table r)).isSome with
  | true => exact .inl ⟨rfl, by simp [Notes.publish]⟩
  | false =>
    refine (ensures_emit_tried _ _).mono ?_
    rintro t' a' (⟨-, rfl, rfl⟩ | ⟨rfl, rfl⟩)
    · exact .inl ⟨rfl, rfl⟩
    · exact .inr ⟨rfl, rfl⟩

/-- **Of the identities of a page those are reported that the base does not have**, or that is cut
short. -/
theorem ensures_reportAbsent_tried {rows : List (List Value)} {present : List Int64}
    (hpresent : ∀ r ∈ rows, present.contains ((tables p.target).idOf p.table r) =
      ((tables p.base).lookup p.table ((tables p.target).idOf p.table r)).isSome)
    (ha : a.noticed = false) :
    (p.reportAbsent present (rows.map ((tables p.target).idOf p.table)) t).Ensures
      (p.trying tables faults .backward)
      (fun looked a' => looked = (p.tallyOf tables .backward rows t, true) ∧
          a' = a.publish (p.eventsOf tables .backward rows) ∨
        looked.1.errors = t.errors ∧ p.CutShort tables .backward rows a a') a := by
  induction rows generalizing t a with
  | nil => exact .inl ⟨rfl, by simp [Notes.publish, eventsOf]⟩
  | cons r rows ih =>
    have herrors := (tally_count t (p.finding tables .backward r)).2
    rw [List.map_cons, reportAbsent_cons]
    refine ensures_isCancelled_tried.bind ?_
    rintro stop a (⟨rfl, -, rfl⟩ | ⟨rfl, rfl⟩)
    · refine (ensures_reportIfAbsent_tried (hpresent r List.mem_cons_self)).bind ?_
      rintro t₁ a₁ (⟨rfl, rfl⟩ | ⟨ht, rfl⟩)
      · refine (ih (fun r' hr' => hpresent r' (List.mem_cons_of_mem _ hr')) ?_).mono ?_
        · exact ha
        rintro looked a₂ (⟨rfl, rfl⟩ | ⟨hlooked, hcut⟩)
        · exact .inl ⟨rfl, by simp [Notes.publish]⟩
        · exact .inr ⟨hlooked.trans herrors, hcut.cons⟩
      · refine (ensures_reportAbsent_noticed rfl _ _).mono ?_
        rintro looked a₂ ⟨rfl, rfl⟩
        exact .inr ⟨ht, CutShort.of_notice _ _⟩
    · exact .inr ⟨rfl, CutShort.of_notice _ _⟩

/-! ## Between two passes -/

/-- What a scan has to report. -/
def due (p : Plan) (tables : Side → Table) (way : Way) : List Event :=
  p.eventsOf tables way (p.visiting (p.scanned tables way))

/-- A scan has published no more than what is due, in this order, and all of it when it came to the
end; the failed calls are counted as errors. -/
structure Accurate (p : Plan) (tables : Side → Table) (way : Way) (t : Tally) (a : Notes) :
    Prop where
  part : a.events <+: p.due tables way
  errors : t.errors = a.failed
  ended : ∀ es ∈ a.ended, es = p.due tables way

/-- A scan stands behind the rows of which it has published what it found. -/
structure Stands (p : Plan) (tables : Side → Table) (way : Way) (done rest : List (List Value))
    (g : Progress) (a : Notes) : Prop where
  visiting : p.visiting (p.scanned tables way) = done ++ rest
  cursor : g.cursor = p.cursorAfter (p.scanned tables way) done none
  events : a.events = p.eventsOf tables way done

/-- A scan may begin a pass: it stands behind some of its rows, unless it has noticed the
cancellation. -/
structure Resumes (p : Plan) (tables : Side → Table) (way : Way) (g : Progress)
    (a : Notes) : Prop extends
    Accurate p tables way g.tally a where
  stands : a.noticed = false → a.atEnd p.batch = false ∧
    ∃ done rest, p.Stands tables way done rest g a

/-- How many more passes a scan may begin before it comes to the end: one for each row that it has
yet to visit, and one for each failure to come. -/
def toTry (p : Plan) (tables : Side → Table) (faults : Nat) (way : Way) (g : Progress) (a : Notes) :
    Nat :=
  p.left tables way g + (faults - a.failed)

/-- What a pass comes to: the next may begin, and fewer are to come if the end has not been reached;
or the scan is over, because it has noticed the cancellation. -/
def GoesOnFrom (p : Plan) (tables : Side → Table) (faults : Nat) (way : Way) (g : Progress)
    (a : Notes) : Verdict → Notes → Prop
  | .again g', a' => p.Resumes tables way g' a' ∧
      (a'.noticed = false → a'.ended = none →
        p.toTry tables faults way g' a' < p.toTry tables faults way g a)
  | .finished t, a' => p.Accurate tables way t a' ∧ a'.noticed = true
  | .failed _, _ => False

theorem Accurate.alike {a' : Notes} (h : p.Accurate tables way t a) (halike : a.Alike a') :
    p.Accurate tables way t a' where
  part := halike.events ▸ h.part
  errors := h.errors.trans halike.failed.symm
  ended := halike.ended ▸ h.ended

/-- A scan may come to the end when it has published all that is due. -/
theorem Accurate.rest (h : p.Accurate tables way t a) (hall : a.events = p.due tables way) :
    p.Accurate tables way t (a.rest p.batch) where
  part := h.part
  errors := h.errors
  ended es hes := by
    dsimp only [Notes.rest] at hes
    split at hes
    · exact (Option.some.inj hes).symm.trans hall
    · exact h.ended es hes

theorem Accurate.notice (h : p.Accurate tables way t a) : p.Accurate tables way t a.notice :=
  ⟨h.part, h.errors, h.ended⟩

theorem resumes_start : p.Resumes tables way {} {} where
  part := List.nil_prefix
  errors := rfl
  ended := nofun
  stands _ := ⟨rfl, [], _, rfl, rfl, rfl⟩

section
variable {done rest : List (List Value)} {g : Progress}

/-- What is found of the rows in front of a scan is due behind what it has published. -/
theorem Stands.prefix_due (h : p.Stands tables way done rest g a) {es : List Event}
    (hes : es <+: p.eventsOf tables way (rest.take p.batch)) :
    a.events ++ es <+: p.due tables way := by
  have hpage : p.eventsOf tables way (rest.take p.batch) <+: p.eventsOf tables way rest := by
    conv_rhs => rw [← List.take_append_drop p.batch rest, eventsOf_append]
    exact List.prefix_append _ _
  rw [due, h.visiting, h.events, eventsOf_append]
  exact (List.prefix_append_right_inj _).mpr (hes.trans hpage)

/-- A scan that is cut short on its page has published no more than what is due. -/
theorem Accurate.cutShort {a' : Notes} (h : p.Accurate tables way g.tally a)
    (hstands : p.Stands tables way done rest g a) {length : Nat}
    (hcut : p.CutShort tables way (rest.take p.batch) (a.read length) a')
    (ht : t.errors = g.tally.errors) : p.Accurate tables way t a' ∧ a'.noticed = true := by
  obtain ⟨es, hes, rfl⟩ := hcut
  exact ⟨⟨hstands.prefix_due hes, ht.trans h.errors, h.ended⟩, rfl⟩

variable (hincremental : p.isFull = false)
include hincremental

/-- After a failed call the scan stands where it was. -/
theorem ensures_onFailure_tried (e : StoreError) (h : p.Accurate tables way g.tally a)
    (hstands : p.Stands tables way done rest g a) (hfails : a.failed < faults) :
    (p.onFailure e g).Ensures (p.trying tables faults way) (p.GoesOnFrom tables faults way g a)
      a.fail := by
  have hcounted : p.Accurate tables way g.tally.fail a.fail :=
    ⟨h.part, congrArg (· + 1) h.errors, h.ended⟩
  have halike : a.fail.Alike (a.fail.rest p.batch) := .rest (.inr rfl)
  rw [onFailure, hincremental]
  refine (ensures_rest_tried _).bind ?_
  rintro slept a' (⟨rfl, -, rfl⟩ | ⟨rfl, rfl⟩)
  · refine ⟨⟨hcounted.alike halike, fun _ => ?_⟩, fun _ _ => ?_⟩
    · exact ⟨rfl, done, rest, hstands.visiting, hstands.cursor, hstands.events⟩
    · show p.left tables way g + (faults - (a.failed + 1)) <
        p.left tables way g + (faults - a.failed)
      omega
  · exact ⟨hcounted.alike halike.notice, rfl⟩

/-- Behind a page the scan goes on with the next one, or has come to the end. -/
theorem ensures_afterPage_tried (h : p.Accurate tables way g.tally a)
    (hstands : p.Stands tables way done rest g a) (hscans : p.Scans (p.scanned tables way))
    (hfree : a.noticed = false) (ht : t.errors = g.tally.errors) :
    (p.afterPage (rest.take p.batch).length
      ⟨t, p.cursorAfter (p.scanned tables way) (rest.take p.batch) g.cursor⟩).Ensures
      (p.trying tables faults way) (p.GoesOnFrom tables faults way g a)
      ((a.read (rest.take p.batch).length).publish
        (p.eventsOf tables way (rest.take p.batch))) := by
  have hcounted : p.Accurate tables way t
      ((a.read (rest.take p.batch).length).publish (p.eventsOf tables way (rest.take p.batch))) :=
    ⟨hstands.prefix_due (List.prefix_refl _), ht.trans h.errors, h.ended⟩
  have hcursor : p.cursorAfter (p.scanned tables way) (rest.take p.batch) g.cursor =
      p.cursorAfter (p.scanned tables way) (done ++ rest.take p.batch) none := by
    rw [cursorAfter_append, ← hstands.cursor]
  have hevents : a.events ++ p.eventsOf tables way (rest.take p.batch) =
      p.eventsOf tables way (done ++ rest.take p.batch) := by
    rw [eventsOf_append, hstands.events]
  rw [afterPage]
  split
  · rename_i hshort
    -- the page is the last one, and the scan has published all that is due
    have hall : rest.take p.batch = rest := by
      rw [List.length_take] at hshort
      exact List.take_of_length_le (by omega)
    have hdone : a.events ++ p.eventsOf tables way (rest.take p.batch) = p.due tables way := by
      rw [hevents, hall, due, hstands.visiting]
    rw [hincremental]
    refine (ensures_rest_tried _).bind ?_
    rintro slept a' (⟨rfl, -, rfl⟩ | ⟨rfl, rfl⟩)
    · refine ⟨⟨hcounted.rest hdone, fun _ => ⟨rfl, _, [], ?_, hcursor, hevents⟩⟩, fun _ hnone => ?_⟩
      · rw [List.append_nil, hall, hstands.visiting]
      · exact absurd hnone (Notes.ended_rest_ne_none hfree (decide_eq_true hshort))
    · exact ⟨(hcounted.rest hdone).notice, rfl⟩
  · rename_i hlong
    have hsplit : p.visiting (p.scanned tables way) =
        (done ++ rest.take p.batch) ++ rest.drop p.batch := by
      rw [List.append_assoc, List.take_append_drop, hstands.visiting]
    refine ⟨⟨hcounted, fun _ => ⟨?_, _, _, hsplit, hcursor, hevents⟩⟩, fun _ _ => ?_⟩
    · exact decide_eq_false hlong
    · have hpos := p.batch_pos
      unfold toTry left
      rw [hcursor, hstands.cursor, hscans.filter_behind hsplit,
        hscans.filter_behind hstands.visiting, List.length_drop]
      rw [List.length_take] at hlong
      simp only [Notes.publish, Notes.read]
      omega

/-- Behind a page on which it was cut short the scan goes on to notice it again, or is over. -/
theorem ensures_afterPage_noticed (length : Nat) {s : Progress} {a' : Notes}
    (h : p.Accurate tables way s.tally a') (hnoticed : a'.noticed = true) :
    (p.afterPage length s).Ensures (p.trying tables faults way) (p.GoesOnFrom tables faults way g a)
      a' := by
  have hnot : a'.noticed ≠ false := fun hfree => Bool.false_ne_true (hfree.symm.trans hnoticed)
  rw [afterPage]
  split
  · rw [hincremental]
    refine (ensures_rest_tried _).bind ?_
    rintro slept a₁ (⟨-, hfree, -⟩ | ⟨rfl, rfl⟩)
    · exact absurd hfree hnot
    · exact ⟨h.alike (Notes.Alike.rest (.inl hnoticed)).notice, rfl⟩
  · exact ⟨⟨h, fun hfree => absurd hfree hnot⟩, fun hfree => absurd hfree hnot⟩

end

/-! ## A pass -/

section
variable {done rest : List (List Value)} {g : Progress}
variable (hs : IsName p.sort) (hincremental : p.isFull = false) (hbase : p.Scans (tables p.base))
  (htarget : p.Scans (tables p.target))

include hs hincremental hbase htarget

theorem ensures_forwardPage_tried (h : p.Accurate tables .forward g.tally a)
    (hstands : p.Stands tables .forward done rest g a) (hfree : a.noticed = false) :
    (p.forwardPage g).Ensures (p.trying tables faults .forward)
    (p.GoesOnFrom tables faults .forward g a)
      a := by
  obtain ⟨st, hstatement, hanswer⟩ := hbase.answeredRows_page hs g.cursor false
  have hpage : p.pageRows (tables p.base) g.cursor = rest.take p.batch := by
    rw [hstands.cursor]
    exact hbase.pageRows_cursorAfter hstands.visiting
  rw [hpage] at hanswer
  rw [forwardPage, hstatement]
  refine (ensures_query_tried hanswer).bind ?_
  rintro reply a₁ (⟨rfl, -, rfl⟩ | ⟨⟨e, rfl⟩, -, hfails, rfl⟩ | ⟨rfl, rfl⟩)
  · rw [if_pos (show p.base = p.paged .forward from rfl), List.length_map]
    have hrows : ∀ r ∈ rest.take p.batch, r ∈ p.visiting (tables p.base) := fun r hr => by
      rw [show p.visiting (tables p.base) = done ++ rest from hstands.visiting]
      exact List.mem_append_right _ (List.mem_of_mem_take hr)
    refine (ensures_compareRows_tried hbase htarget.toFits hrows ?_).bind ?_
    · exact hfree
    rintro e a₂ (⟨rfl, rfl⟩ | ⟨⟨g', hg', he⟩, hcut⟩)
    · have ht : (p.tallyOf tables .forward (rest.take p.batch) g.tally).errors = g.tally.errors :=
        (tallyOf_scanned _ _ _).2
      simp only [List.length_map]
      exact ensures_afterPage_tried hincremental h hstands hbase hfree ht
    · obtain ⟨hcounted, hnoticed⟩ := h.cutShort hstands hcut hg'
      rcases he with rfl | rfl
      · exact ensures_afterPage_noticed hincremental _ hcounted hnoticed
      · exact ⟨hcounted, hnoticed⟩
  · exact ensures_onFailure_tried hincremental e h hstands hfails
  · exact ⟨h.notice, rfl⟩

variable (hsides : p.base ≠ p.target)
include hsides

omit hs in
/-- The base is asked which identities of the page it has. -/
theorem ensures_compareIds_tried (h : p.Accurate tables .backward g.tally a)
    (hstands : p.Stands tables .backward done rest g a) (hfree : a.noticed = false)
    (hne : rest.take p.batch ≠ []) :
    (p.compareIds (rest.take p.batch).length ((rest.take p.batch).map (p.keyOf (tables p.target)))
      g).Ensures (p.trying tables faults .backward) (p.GoesOnFrom tables faults .backward g a)
      (a.read (rest.take p.batch).length) := by
  have hids : ((rest.take p.batch).map (p.keyOf (tables p.target))).map (·.id) =
      (rest.take p.batch).map ((tables p.target).idOf p.table) := by
    rw [List.map_map]
    rfl
  have hanswer := answeredRows_idsIn (p := p) hbase.toFits
    (((rest.take p.batch).map (p.keyOf (tables p.target))).map (·.id))
  rw [compareIds]
  refine (ensures_query_tried hanswer).bind ?_
  rintro reply a₁ (⟨rfl, -, rfl⟩ | ⟨⟨e, rfl⟩, -, hfails, rfl⟩ | ⟨rfl, rfl⟩)
  · rw [if_neg (show p.base ≠ p.paged .backward from hsides)]
    simp only [filterMap_getInt64_shown hbase.toFits, hids]
    have hpresent : ∀ r ∈ rest.take p.batch, _ = _ := fun r hr =>
      contains_present (p := p) hbase.toFits
        (List.mem_map_of_mem (f := (tables p.target).idOf p.table) hr)
    refine (ensures_reportAbsent_tried hpresent ?_).bind ?_
    · exact hfree
    rintro ⟨t, complete⟩ a₂ (⟨he, rfl⟩ | ⟨ht, hcut⟩)
    · obtain ⟨rfl, rfl⟩ := Prod.mk.inj he
      have ht : (p.tallyOf tables .backward (rest.take p.batch) g.tally).errors = g.tally.errors :=
        (tallyOf_scanned _ _ _).2
      rw [getLast?_map_keyOf hne g.cursor]
      exact ensures_afterPage_tried hincremental h hstands htarget hfree ht
    · obtain ⟨hcounted, hnoticed⟩ := h.cutShort hstands hcut ht
      cases complete with
      | true => exact ensures_afterPage_noticed hincremental _ hcounted hnoticed
      | false => exact ⟨hcounted, hnoticed⟩
  · exact ensures_onFailure_tried hincremental e h hstands hfails
  · exact ⟨⟨h.part, h.errors, h.ended⟩, rfl⟩

theorem ensures_backwardPage_tried (h : p.Accurate tables .backward g.tally a)
    (hstands : p.Stands tables .backward done rest g a) (hfree : a.noticed = false) :
    (p.backwardPage g).Ensures (p.trying tables faults .backward)
      (p.GoesOnFrom tables faults .backward g a) a := by
  obtain ⟨st, hstatement, hanswer⟩ := htarget.answeredRows_page hs g.cursor true
  have hpage : p.pageRows (tables p.target) g.cursor = rest.take p.batch := by
    rw [hstands.cursor]
    exact htarget.pageRows_cursorAfter hstands.visiting
  rw [hpage] at hanswer
  rw [backwardPage, hstatement]
  refine (ensures_query_tried hanswer).bind ?_
  rintro reply a₁ (⟨rfl, -, rfl⟩ | ⟨⟨e, rfl⟩, -, hfails, rfl⟩ | ⟨rfl, rfl⟩)
  · rw [if_pos (show p.target = p.paged .backward from rfl), List.length_map]
    have hkeys : ((rest.take p.batch).map (p.shownRow (tables p.target) true)).mapM p.cursorOf =
        .ok ((rest.take p.batch).map (p.keyOf (tables p.target))) := by
      rw [List.mapM_map]
      refine mapM_eq_ok fun r hr => htarget.cursorOf_shownRow true ?_
      rw [show p.visiting (tables p.target) = done ++ rest from hstands.visiting]
      exact List.mem_append_right _ (List.mem_of_mem_take hr)
    rcases hshown : (rest.take p.batch).map (p.shownRow (tables p.target) true) with _ | ⟨row, rows⟩
    · have hnil := List.map_eq_nil_iff.mp hshown
      have hafter : Ensures (p.trying tables faults .backward) _ _ _ :=
        ensures_afterPage_tried hincremental h hstands htarget hfree rfl
      simpa [hnil, eventsOf, cursorAfter, Notes.publish] using hafter
    · have hne : rest.take p.batch ≠ [] := by
        rintro hnil
        rw [hnil] at hshown
        cases hshown
      have hlength : (row :: rows).length = (rest.take p.batch).length := by
        rw [← hshown, List.length_map]
      rw [hshown] at hkeys
      simp only [hkeys, hlength]
      exact ensures_compareIds_tried hincremental hbase htarget hsides h hstands hfree hne
  · exact ensures_onFailure_tried hincremental e h hstands hfails
  · exact ⟨h.notice, rfl⟩

/-- **A pass leaves a scan behind the rows of which it has published what it found**, whichever
calls fail and wherever it is cut short, and it brings the scan nearer to the end. -/
theorem ensures_pass_tried (way : Way) (h : p.Resumes tables way g a) :
    (p.pass way g).Ensures (p.trying tables faults way) (p.GoesOnFrom tables faults way g a) a := by
  refine ensures_isCancelled_tried.bind ?_
  rintro stop a (⟨rfl, hfree, rfl⟩ | ⟨rfl, rfl⟩)
  · obtain ⟨hpage, done, rest, hstands⟩ := h.stands hfree
    refine (ensures_throttle_tried hfree hpage).bind ?_
    rintro goOn a₁ ⟨halike, hfree₁⟩
    have h₁ := h.toAccurate.alike halike
    cases goOn with
    | false => exact ⟨h₁, hfree₁⟩
    | true =>
      have hstands₁ : p.Stands tables way done rest g a₁ :=
        ⟨hstands.visiting, hstands.cursor, halike.events.trans hstands.events⟩
      have hsame : p.GoesOnFrom tables faults way g a = p.GoesOnFrom tables faults way g a₁ := by
        funext verdict a'
        cases verdict <;> simp only [GoesOnFrom, toTry, halike.failed]
      rw [hsame]
      cases way with
      | forward => exact ensures_forwardPage_tried hs hincremental hbase htarget h₁ hstands₁ hfree₁
      | backward =>
        exact ensures_backwardPage_tried hs hincremental hbase htarget hsides h₁ hstands₁ hfree₁
  · exact ⟨h.toAccurate.notice, rfl⟩

end

end Plan
end Cutover
