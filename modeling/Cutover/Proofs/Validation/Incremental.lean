import Cutover.Proofs.Validation.Abreast

/-! # An incremental validation misses no later update

A validation of what has changed reads the base in the order of the times of change, and rests when
it has come to the end of the data.  What is written meanwhile has a later time, so the scan comes
to it when it goes on; this holds for every version that was in the base when the scan came to the
end, and however many rows are written between its requests
(`Plan.incremental_scan_misses_only_ties`).

The clock may stand still.  Then a row may be written at the very time of the last row that was
read, and if its identity is no greater, it lies in front of the scan, which does not turn back.
Such a version is left out (`Plan.tied_version_is_not_compared`) until the row is written again.
-/

namespace Cutover

open Dialogue

namespace Plan

variable {p : Plan}

/-! ## Runs of a scan -/

/-- What an incremental scan from the base may come to, and what may have happened by then. -/
abbrev Watches (p : Plan) : Watch × Scanner → Watch × Scanner → Prop :=
  Relation.ReflTransGen ((p.scan .forward).Step p.watched)

/-- A scan at its beginning. -/
def unwatched (p : Plan) (tables : Side → Table) : Watch × Scanner :=
  (⟨tables, []⟩, (p.scan .forward).start {})

/-- Whatever a request is, it may be answered at once. -/
theorem exists_watched {w : Watch} (hfits : (w.tables p.target).Fits p.table)
    (r : Scanning.Request) :
    ∃ reply w', p.watched w r reply w' ∧ (w'.tables p.target).Fits p.table := by
  obtain ⟨reply, hreply⟩ := Scanning.exists_undisturbed w.tables r
  exact ⟨reply, ⟨w.tables, w.history ++ [.asked w.tables ⟨r, reply⟩]⟩,
    ⟨[], .none _, hfits, hreply, by simp⟩, hfits⟩

/-! ## A clock that stands still -/

/-- What a scan asks next. -/
def nextRequest? : Scanner → Option Scanning.Request
  | .running (.ask r _) => some r
  | _ => none

/-- A new row with a time that is not before any other. -/
theorem stamps_insert {t : Table} {r : List Value} {u : Int64}
    (hscans : p.Scans { t with rows := t.rows ++ [r] })
    (hu : t.number? r p.table.utimeColumn = some u)
    (hlatest : ∀ r₀ ∈ t.rows, (t.number? r₀ p.table.utimeColumn).all (· ≤ u)) :
    p.Stamps t (t.recordOf p.table r) { t with rows := t.rows ++ [r] } where
  scans := hscans
  columns := rfl
  there := by
    refine ⟨r, by simp, rfl, u, hu, fun r₀ hr₀ u₀ hu₀ => ?_⟩
    have hle := hlatest r₀ hr₀
    rw [hu₀] at hle
    exact of_decide_eq_true hle
  elsewhere r' hother := by
    have hne : r' ≠ r := by
      rintro rfl
      exact hother rfl
    simp [hne]

/-- What a scan comes to by one step, if these versions are written before it and leave the base
so. -/
def goOn (p : Plan) (vs : List Record) (base : Table) : Watch × Scanner → Watch × Scanner
  | (w, .ended r) => (w, .ended r)
  | (w, .running (.done verdict)) => (w, (p.scan .forward).next verdict)
  | (w, .running (.ask r next)) =>
    let tables := Function.update w.tables p.base base
    let reply := Scanning.replies tables r
    (⟨tables, w.history ++ vs.map .wrote ++ [.asked tables ⟨r, reply⟩]⟩, .running (next reply))

/-- A step before which nothing is written. -/
def goOnQuietly (p : Plan) (s : Watch × Scanner) : Watch × Scanner :=
  p.goOn [] (s.1.tables p.base) s

theorem watches_goOn {vs : List Record} {base : Table} (s : Watch × Scanner)
    (hwritten : p.Written (s.1.tables p.base) vs base)
    (hfits : (Function.update s.1.tables p.base base p.target).Fits p.table) :
    p.Watches s (p.goOn vs base s) := by
  obtain ⟨w, c⟩ := s
  cases c with
  | ended r => exact .refl
  | running d =>
    cases d with
    | done verdict => exact .single (.rounded w verdict)
    | ask r next =>
      refine .single (.answered ⟨vs, ?_, hfits, Scanning.undisturbed_replies _ r, rfl⟩)
      show p.Written (w.tables p.base) vs (Function.update w.tables p.base base p.base)
      rw [Function.update_self]
      exact hwritten

theorem tables_goOnQuietly (s : Watch × Scanner) : (p.goOnQuietly s).1.tables = s.1.tables := by
  obtain ⟨w, c⟩ := s
  cases c with
  | ended r => rfl
  | running d =>
    cases d with
    | done verdict => rfl
    | ask r next => exact Function.update_eq_self _ _

/-- While nothing is written a scan may take any number of steps. -/
theorem watches_quietly {s : Watch × Scanner} (hfits : (s.1.tables p.target).Fits p.table)
    (k : Nat) : p.Watches s (p.goOnQuietly^[k] s) ∧ (p.goOnQuietly^[k] s).1.tables =
      s.1.tables := by
  induction k with
  | zero => exact ⟨.refl, rfl⟩
  | succ k ih =>
    obtain ⟨hrun, htables⟩ := ih
    rw [Function.iterate_succ_apply', tables_goOnQuietly]
    refine ⟨hrun.trans (watches_goOn _ (.none _) ?_), htables⟩
    rw [Function.update_eq_self, htables]
    exact hfits

theorem tables_goOn {vs : List Record} {base : Table} {s : Watch × Scanner} {r : Scanning.Request}
    (h : nextRequest? s.2 = some r) :
    (p.goOn vs base s).1.tables = Function.update s.1.tables p.base base := by
  obtain ⟨w, c⟩ := s
  cases c with
  | ended outcome => cases h
  | running d =>
    cases d with
    | done verdict => cases h
    | ask r' next => rfl

theorem history_goOnQuietly {s : Watch × Scanner} {r : Scanning.Request}
    (h : nextRequest? s.2 = some r) :
    (p.goOnQuietly s).1.history =
      s.1.history ++ [.asked s.1.tables ⟨r, Scanning.replies s.1.tables r⟩] := by
  obtain ⟨w, c⟩ := s
  cases c with
  | ended outcome => cases h
  | running d =>
    cases d with
    | done verdict => cases h
    | ask r' next =>
      obtain rfl := Option.some.inj h
      simp only [goOnQuietly, goOn, Function.update_eq_self, List.map_nil, List.append_nil]

/-- What a scan asks next may be answered. -/
theorem exists_asked {start s : Watch × Scanner} {r : Scanning.Request} (hrun : p.Watches start s)
    (hfits : (s.1.tables p.target).Fits p.table) (hrequest : nextRequest? s.2 = some r) :
    ∃ w c tables reply, p.Watches start (w, c) ∧
      w.history = s.1.history ++ [.asked tables ⟨r, reply⟩] := by
  obtain ⟨hstep, -⟩ := watches_quietly hfits 1
  exact ⟨_, _, _, _, hrun.trans hstep, history_goOnQuietly hrequest⟩

/-- What has happened is not taken back. -/
theorem prefix_quietly (s : Watch × Scanner) (k : Nat) :
    s.1.history <+: (p.goOnQuietly^[k] s).1.history := by
  induction k with
  | zero => exact List.prefix_refl _
  | succ k ih =>
    rw [Function.iterate_succ_apply']
    generalize p.goOnQuietly^[k] s = s' at ih
    refine ih.trans ?_
    obtain ⟨w, c⟩ := s'
    cases c with
    | ended r => exact List.prefix_refl _
    | running d =>
      cases d with
      | done verdict => exact List.prefix_refl _
      | ask r next =>
        rw [history_goOnQuietly (r := r) rfl]
        exact List.prefix_append _ _

/-- The rows that were read by a page. -/
def rowsRead (e : Exchange Scanning) : List Row :=
  match e with
  | ⟨.query _ _, some (.ok rows)⟩ => rows
  | _ => []

theorem Compared.exists_rowsRead {h : List Happening} {v : Record} (hv : p.Compared h v) :
    ∃ e ∈ exchanges h, v.row ∈ rowsRead e := by
  obtain ⟨before, s, rows, during, found, kind, after, -, he, hrow, -⟩ := hv
  refine ⟨p.pageRead s rows, ?_, hrow⟩
  rw [he]
  simp

/-- Pages of two rows in the order of the last change, again and again. -/
def tiedPlan : Plan :=
  { samplePlan with batch := 2, batch_pos := by decide, interval := .ofMillis 5 }

/-- The base before the scan has one row, and the target none. -/
def tiedTables : Side → Table
  | .src => sampleTable [[.int 5, .text "a", .int 100]]
  | .dst => sampleTable []

/-- Two rows come in at the time of the row that was there, one before it and one behind it. -/
def tiedBase : Table := sampleTable
  [[.int 5, .text "a", .int 100], [.int 3, .text "b", .int 100], [.int 7, .text "c", .int 100]]

/-- The row that comes in before. -/
def tiedRow : Record := tiedBase.recordOf tiedPlan.table [.int 3, .text "b", .int 100]

/-- The scan has come to rest once. -/
def restedOnce : Watch × Scanner := tiedPlan.goOnQuietly^[7] (tiedPlan.unwatched tiedTables)

/-- The rows come in, and the scan is about to read its next page. -/
def tiesWritten : Watch × Scanner :=
  tiedPlan.goOn [tiedRow, tiedBase.recordOf tiedPlan.table [.int 7, .text "c", .int 100]] tiedBase
    restedOnce

/-- The scan has compared this page, and is about to rest again. -/
def pageCompared : Watch × Scanner := tiedPlan.goOnQuietly^[4] tiesWritten

/-- The statement for this page: behind the row that was there. -/
def tiedPage : Statement :=
  (tiedPlan.table.pageCommand (tiedPlan.pageOf (some ⟨100, 5⟩) false)).statement tiedPlan.dialect

theorem written_tiedBase : tiedPlan.Written (tiedTables .src)
    [tiedRow, tiedBase.recordOf tiedPlan.table [.int 7, .text "c", .int 100]] tiedBase := by
  have hfirst : tiedPlan.Stamps (tiedTables .src) tiedRow
      (sampleTable [[.int 5, .text "a", .int 100], [.int 3, .text "b", .int 100]]) :=
    stamps_insert (u := 100) (by decide +kernel) (by decide +kernel) (by decide +kernel)
  have hsecond : tiedPlan.Stamps
      (sampleTable [[.int 5, .text "a", .int 100], [.int 3, .text "b", .int 100]])
      (tiedBase.recordOf tiedPlan.table [.int 7, .text "c", .int 100]) tiedBase :=
    stamps_insert (u := 100) (by decide +kernel) (by decide +kernel) (by decide +kernel)
  exact .more hfirst (.more hsecond (.none _))

theorem watches_restedOnce :
    tiedPlan.Watches (tiedPlan.unwatched tiedTables) restedOnce ∧
    restedOnce.1.tables = tiedTables :=
  watches_quietly (by decide +kernel) 7

/-- What the scan asks at these three moments, and that the row that came in before is on no
page. -/
theorem requests_tied :
    nextRequest? restedOnce.2 = some .cancelled ∧
      nextRequest? tiesWritten.2 = some (.query .src tiedPage) ∧
      nextRequest? pageCompared.2 = some (.rest (.ofMillis 5)) ∧
      ∀ e ∈ exchanges pageCompared.1.history, tiedRow.row ∉ rowsRead e := by
  decide +kernel

theorem tables_tiesWritten : tiesWritten.1.tables = Function.update tiedTables .src tiedBase := by
  rw [tiesWritten, tables_goOn requests_tied.1, watches_restedOnce.2]
  rfl

/-- The scan goes on, up to the end of its page. -/
theorem watches_pageCompared :
    tiedPlan.Watches (tiedPlan.unwatched tiedTables) pageCompared ∧
      (pageCompared.1.tables tiedPlan.target).Fits tiedPlan.table := by
  obtain ⟨hrested, htables⟩ := watches_restedOnce
  have hwritten : tiedPlan.Watches restedOnce tiesWritten := by
    refine watches_goOn restedOnce ?_ ?_
    · rw [htables]
      exact written_tiedBase
    · rw [htables]
      decide +kernel
  have hfits : (tiesWritten.1.tables tiedPlan.target).Fits tiedPlan.table := by
    rw [tables_tiesWritten]
    decide +kernel
  obtain ⟨hcompared, hsame⟩ := watches_quietly hfits 4
  exact ⟨(hrested.trans hwritten).trans hcompared, hsame.symm ▸ hfits⟩

/-- The scan rests a second time. -/
theorem exists_restedTwice :
    ∃ w c tables reply, tiedPlan.Watches (tiedPlan.unwatched tiedTables) (w, c) ∧
      w.history = pageCompared.1.history ++ [.asked tables ⟨.rest (.ofMillis 5), reply⟩] := by
  obtain ⟨-, -, hrest, -⟩ := requests_tied
  obtain ⟨hcompared, hfits⟩ := watches_pageCompared
  exact exists_asked hcompared hfits hrest

/-! ## No later update is missed -/

/-- **An incremental validation misses no later update** but for ties: it never ends, and whenever
it rests, each version that the base held when a page was read that was not full, with a time behind
the cutoff, has been compared, unless the scan had read a row of the same time and no smaller
identity before this version was written. -/
theorem incremental_scan_misses_only_ties (hs : p.sort = p.table.utimeColumn)
    (hincremental : p.isFull = false) {tables : Side → Table} (hbase : p.Scans (tables p.base))
    (htarget : (tables p.target).Fits p.table) {w : Watch} {c : Scanner}
    (hrun : p.Watches (p.unwatched tables) (w, c)) :
    (∀ outcome, c ≠ .ended outcome) ∧ p.Covered p.Overtaken w.history := by
  have hrenews : ∀ (g : Progress) w, p.StaysAbreast g.cursor [] w →
      ((p.scan .forward).round g).Ensures p.watched
        ((p.scan .forward).Turns (fun g w => p.StaysAbreast g.cursor [] w) fun _ _ => False) w :=
    fun g w ha => ensures_pass_watched hs hincremental g ha
  have hpromises := Loop.Promises.reaches (x := p.unwatched tables) hrenews
    (hrenews {} ⟨tables, []⟩ (abreast_nil hbase)) hrun
  have hfits : (w.tables p.target).Fits p.table :=
    Loop.reaches_kept (x := p.unwatched tables) (K := fun w => (w.tables p.target).Fits p.table)
      (fun _ _ _ _ hw _ => hw.choose_spec.2.1) htarget hrun
  cases c with
  | ended outcome => exact absurd hpromises id
  | running d =>
    refine ⟨by rintro outcome ⟨⟩, ?_⟩
    have hround : d.Ensures p.watched p.GoesOn w := hpromises
    -- the pass may come to its end, and nothing that has happened is taken back
    have hanswer : ∀ (w₁ : Watch) (r : Scanning.Request),
        (w₁.tables p.target).Fits p.table ∧ w.history <+: w₁.history →
        ∃ reply w₂, p.watched w₁ r reply w₂ ∧
          (w₂.tables p.target).Fits p.table ∧ w.history <+: w₂.history := by
      rintro w₁ r ⟨hfits₁, hprefix⟩
      obtain ⟨reply, w₂, hw, hfits₂⟩ := exists_watched hfits₁ r
      obtain ⟨vs, -, -, -, hhistory⟩ := id hw
      refine ⟨reply, w₂, hw, hfits₂, hprefix.trans ?_⟩
      rw [hhistory, List.append_assoc]
      exact List.prefix_append _ _
    obtain ⟨verdict, w', hturn, -, after, hafter⟩ :=
      hround.exists_end hanswer ⟨hfits, List.prefix_refl _⟩
    cases verdict with
    | again g =>
      have ha : p.StaysAbreast g.cursor [] w' := hturn
      have hcovered := ha.covered
      rw [← hafter] at hcovered
      exact hcovered.of_append
    | finished t => exact absurd hturn id
    | failed e => exact absurd hturn id

theorem incremental_scan_misses_only_ties_sample :
    (tiedPlan.sort = tiedPlan.table.utimeColumn ∧ tiedPlan.isFull = false ∧
      tiedPlan.Scans (tiedTables tiedPlan.base) ∧
      (tiedTables tiedPlan.target).Fits tiedPlan.table) ∧
    ∃ w c tables reply, tiedPlan.Watches (tiedPlan.unwatched tiedTables) (w, c) ∧
      w.history = pageCompared.1.history ++ [.asked tables ⟨.rest (.ofMillis 5), reply⟩] ∧
      (∀ outcome, c ≠ .ended outcome) ∧ tiedPlan.Covered tiedPlan.Overtaken w.history := by
  have hfits : tiedPlan.Scans (tiedTables tiedPlan.base) ∧
      (tiedTables tiedPlan.target).Fits tiedPlan.table := by decide +kernel
  obtain ⟨w, c, tables, reply, hrun, hhistory⟩ := exists_restedTwice
  exact ⟨⟨rfl, rfl, hfits⟩, w, c, tables, reply, hrun, hhistory,
    incremental_scan_misses_only_ties rfl rfl hfits.1 hfits.2 hrun⟩

/-- **With a tie the scan may miss a version**: it is not so that whenever it rests every version
that was held with a time behind the cutoff has been compared.  The row before the one that was
there came in at the same time, and lies behind no page. -/
theorem tied_version_is_not_compared :
    (tiedPlan.sort = tiedPlan.table.utimeColumn ∧ tiedPlan.isFull = false ∧
      tiedPlan.Scans (tiedTables tiedPlan.base) ∧
      (tiedTables tiedPlan.target).Fits tiedPlan.table) ∧
    ¬ ∀ w c, tiedPlan.Watches (tiedPlan.unwatched tiedTables) (w, c) →
      tiedPlan.Covered (fun _ _ => False) w.history := by
  refine ⟨by decide +kernel, fun hcovered => ?_⟩
  obtain ⟨-, hrequest, -, hnone⟩ := requests_tied
  -- the page behind the row that was there is read, and it is not full
  have hone : (tiedBase.answeredRows tiedPage).toOption.map List.length = some 1 := by
    decide +kernel
  obtain ⟨rows, hrows, hlength⟩ :
      ∃ rows, tiedBase.answeredRows tiedPage = .ok rows ∧ rows.length = 1 := by
    cases hanswer : tiedBase.answeredRows tiedPage with
    | error e =>
      rw [hanswer] at hone
      cases hone
    | ok rows =>
      rw [hanswer] at hone
      exact ⟨rows, rfl, Option.some.inj hone⟩
  have hshort : rows.length < tiedPlan.batch := hlength ▸ (by decide : 1 < tiedPlan.batch)
  have hread : (tiedPlan.goOnQuietly tiesWritten).1.history = tiesWritten.1.history ++
      [.asked (Function.update tiedTables .src tiedBase) (tiedPlan.pageRead tiedPage rows)] := by
    have hreply : Scanning.replies (Function.update tiedTables .src tiedBase)
      (.query .src tiedPage) =
        some (.ok rows) := congrArg some hrows
    rw [history_goOnQuietly hrequest, tables_tiesWritten, hreply]
    rfl
  obtain ⟨after, hafter⟩ : ∃ after, pageCompared.1.history = tiesWritten.1.history ++
      .asked (Function.update tiedTables .src tiedBase) (tiedPlan.pageRead tiedPage rows) ::
        after := by
    obtain ⟨after, hafter⟩ := prefix_quietly (p := tiedPlan) (tiedPlan.goOnQuietly tiesWritten) 3
    rw [hread, List.append_assoc] at hafter
    exact ⟨after, hafter.symm⟩
  -- then the scan rests
  have hsettled : tiedPlan.Settled (fun _ _ => False) pageCompared.1.history := by
    obtain ⟨w, c, tables, reply, hrun, hhistory⟩ := exists_restedTwice
    exact hcovered w c hrun pageCompared.1.history tables (.ofMillis 5) reply [] hhistory
  rcases hsettled _ _ _ _ _ hafter hshort [.int 3, .text "b", .int 100]
    (by decide +kernel) 100 (by decide +kernel) (by decide +kernel) with hcompared | hexcused
  · obtain ⟨e, he, hrow⟩ := hcompared.exists_rowsRead
    exact hnone e he hrow
  · exact hexcused

end Plan
end Cutover
