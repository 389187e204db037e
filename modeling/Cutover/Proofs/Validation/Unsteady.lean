import Cutover.Proofs.Scan.Paging
import Cutover.Proofs.Validation.Requests

/-! # Full scans of tables that change

While a full scan reads a table page by page, the table may become any other between two pages, and
what the scan learns besides of the other table may be anything.  Still it asks for each page behind
the last row of the page before, and goes on until it has read one that is not full
(`Plan.ensures_pass_unsteady`); and it gets there, since its cursor only ever moves on.  So what is
true of pages that are read so (`Plan.Paged`) is true of what a full scan visits
(`Plan.scan_visits_once`).
-/

namespace Cutover

open Dialogue

namespace Plan

/-- How the requests of a scan are answered when each of its pages is read from the table of its
turn.  The pages are noted.  All else is left open, but that the scan is not cancelled and that the
other table answers when it is asked for identities. -/
inductive Unsteady (p : Plan) (way : Way) (tables : Nat → Table) :
    List PageRead → (r : Interface.Request Scanning) → Scanning.Reply r → List PageRead → Prop where
  | page {read : List PageRead} {on : Side} {s : Statement} {rows : List Row} : on = p.paged way →
      (tables read.length).answeredRows s = .ok rows →
      Unsteady p way tables read (.query on s) (some (.ok rows)) (read ++ [⟨s, rows⟩])
  | noPage {read : List PageRead} {on : Side} {s : Statement} {e : StoreError} : on = p.paged way →
      (tables read.length).answeredRows s = .error e →
      Unsteady p way tables read (.query on s) (some (.error e)) read
  | identities {read : List PageRead} {on : Side} {s : Statement} (rows : List Row) :
      on ≠ p.paged way → Unsteady p way tables read (.query on s) (some (.ok rows)) read
  | row {read : List PageRead} {on : Side} {s : Statement}
      (found : Except StoreError (Option Row)) :
      Unsteady p way tables read (.queryRow on s) (some found) read
  | published {read : List PageRead} {e : Event} (taken : Except ChannelError Unit) :
      Unsteady p way tables read (.publish e) (some taken) read
  | rested {read : List PageRead} {d : Duration} :
      Unsteady p way tables read (.rest d) (some ()) read
  | awaited {read : List PageRead} {c : Scanning.Call} (result : c.Result) :
      Unsteady p way tables read (.awaited c) result read
  | loaded {read : List PageRead} (high : Bool) : Unsteady p way tables read .loaded high read
  | uncancelled {read : List PageRead} : Unsteady p way tables read .cancelled false read

variable {p : Plan} {way : Way} {tables : Nat → Table} {read : List PageRead}

/-- Every request may be answered. -/
theorem exists_unsteady (read : List PageRead) (r : Interface.Request Scanning) :
    ∃ reply read', p.Unsteady way tables read r reply read' := by
  rcases r with _ | _ | (⟨on, s⟩ | ⟨on, s⟩ | e | d) | c
  · exact ⟨false, read, .uncancelled⟩
  · exact ⟨false, read, .loaded false⟩
  · by_cases hpaged : on = p.paged way
    · cases hanswer : (tables read.length).answeredRows s with
      | ok rows => exact ⟨_, _, .page hpaged hanswer⟩
      | error e => exact ⟨_, _, .noPage hpaged hanswer⟩
    · exact ⟨_, _, .identities [] hpaged⟩
  · exact ⟨_, _, .row (.ok none)⟩
  · exact ⟨_, _, .published (.ok ())⟩
  · exact ⟨_, _, .rested⟩
  · exact ⟨_, _, .awaited (c.answered fun _ => tables 0)⟩

/-- What has been read stays noted. -/
theorem Unsteady.prefix {r : Interface.Request Scanning} {reply : Scanning.Reply r}
    {read' : List PageRead} (h : p.Unsteady way tables read r reply read') : read <+: read' := by
  cases h with
  | page _ _ => exact List.prefix_append _ _
  | _ => exact List.prefix_refl _

/-! ## What is asked besides the pages -/

theorem ensures_isCancelled_unsteady :
    isCancelled.Ensures (p.Unsteady way tables)
      (fun stop read' => stop = false ∧ read' = read) read := by
  rintro stop read' ⟨⟩
  exact ⟨rfl, rfl⟩

theorem ensures_throttle_unsteady :
    p.throttle.Ensures (p.Unsteady way tables) (fun go read' => go = true ∧ read' = read) read := by
  unfold throttle
  split
  · exact ⟨rfl, rfl⟩
  · refine ensures_request_bind.mpr ?_
    rintro loaded read' ⟨⟩
    split
    · refine ensures_request_bind.mpr ?_
      rintro slept read' ⟨⟩
      exact ⟨rfl, rfl⟩
    · exact ⟨rfl, rfl⟩

theorem ensures_emit_unsteady {id : Int64} {kind : EventKind} {t : Tally} :
    (p.emit id kind t).Ensures (p.Unsteady way tables) (fun _ read' => read' = read) read := by
  refine ensures_request_bind.mpr ?_
  rintro reply read' ⟨⟩
  split <;> rfl

theorem ensures_compareRow_unsteady (row : Row) (t : Tally) :
    (p.compareRow row t).Ensures (p.Unsteady way tables) (fun _ read' => read' = read) read := by
  unfold compareRow
  split
  · rfl
  · refine ensures_request_bind.mpr ?_
    rintro found read' ⟨⟩
    split
    · rfl
    · rfl
    · split
      · rfl
      · rfl
      · exact ensures_emit_unsteady

/-- The rows of a page are gone through to the last, if all of them have a place. -/
theorem ensures_compareRows_unsteady {rows : List Row} {keys : List Cursor}
    (hkeys : rows.mapM p.cursorOf = .ok keys) (g : Progress) :
    (p.compareRows rows g).Ensures (p.Unsteady way tables)
      (fun e read' => read' = read ∧ ∃ t, e = .through ⟨t, keys.getLast?.or g.cursor⟩) read := by
  induction rows generalizing keys g with
  | nil =>
    obtain rfl := Except.ok.inj hkeys
    exact ⟨rfl, g.tally, rfl⟩
  | cons r rows ih =>
    obtain ⟨k, ks, hk, hks, rfl⟩ := mapM_cons_eq_ok hkeys
    refine ensures_isCancelled_unsteady.bind ?_
    rintro stop read' ⟨rfl, rfl⟩
    simp only [Bool.false_eq_true, if_false, hk]
    refine (ensures_compareRow_unsteady r _).bind ?_
    rintro t read' rfl
    refine (ih hks _).mono ?_
    rintro e read' ⟨rfl, t', rfl⟩
    refine ⟨rfl, t', ?_⟩
    cases ks with
    | nil => rfl
    | cons k' ks =>
      rw [List.getLast?_cons_cons, List.getLast?_eq_some_getLast (List.cons_ne_nil k' ks)]
      rfl

/-- All identities of a page are looked at. -/
theorem ensures_reportAbsent_unsteady (present ids : List Int64) (t : Tally) :
    (p.reportAbsent present ids t).Ensures (p.Unsteady way tables)
      (fun e read' => read' = read ∧ e.2 = true) read := by
  induction ids generalizing t with
  | nil => exact ⟨rfl, rfl⟩
  | cons id ids ih =>
    refine ensures_isCancelled_unsteady.bind ?_
    rintro stop read' ⟨rfl, rfl⟩
    simp only [Bool.false_eq_true, if_false]
    split
    · exact ih _
    · refine ensures_emit_unsteady.bind ?_
      rintro t' read' rfl
      exact ih t'

/-! ## How far a scan has come -/

/-- A scan behind full pages: its cursor is the last place on them. -/
structure Continues (p : Plan) (way : Way) (tables : Nat → Table) (g : Progress)
    (read : List PageRead) : Prop where
  paged : p.Paged (way == .backward) tables read
  full : ∀ q ∈ read, q.rows.length = p.batch
  cursor : g.cursor = (p.visitedOn read).getLast?

/-- A scan that is over: of the pages it has read the last is not full. -/
structure Concluded (p : Plan) (way : Way) (tables : Nat → Table)
    (outcome : Except StoreError Tally) (read : List PageRead) : Prop where
  paged : p.Paged (way == .backward) tables read
  full : ∀ q ∈ read.dropLast, q.rows.length = p.batch
  short : ∃ q ∈ read.getLast?, q.rows.length < p.batch
  outcome : ∃ t, outcome = .ok t

/-- The number of a place in the order of the scan, among all places. -/
def rank (p : Plan) (c : Cursor) : Nat :=
  if p.byId then (c.id.toInt + 2 ^ 63).toNat
  else (c.sort.toInt + 2 ^ 63).toNat * 2 ^ 64 + (c.id.toInt + 2 ^ 63).toNat

/-- How many places lie behind a cursor, at most. -/
def ahead (p : Plan) : Option Cursor → Nat
  | none => 2 ^ 128 + 1
  | some c => 2 ^ 128 - p.rank c

theorem rank_lt_size (c : Cursor) : p.rank c < 2 ^ 128 := by
  have hid := c.id.le_toInt
  have hid' := c.id.toInt_lt
  have hsort := c.sort.le_toInt
  have hsort' := c.sort.toInt_lt
  unfold rank
  split <;> omega

theorem Before.rank_lt {a b : Cursor} (h : p.Before a b) : p.rank a < p.rank b := by
  have hid := a.id.le_toInt
  have hid' := a.id.toInt_lt
  have hid₂ := b.id.le_toInt
  have hid₂' := b.id.toInt_lt
  have hsort := a.sort.le_toInt
  have hsort₂ := b.sort.le_toInt
  unfold Before at h
  unfold rank
  split at h
  · rename_i hb
    rw [if_pos hb, if_pos hb]
    have hlt := Int64.lt_iff_toInt_lt.mp h
    omega
  · rename_i hb
    rw [if_neg hb, if_neg hb]
    rcases h with hlt | ⟨he, hlt⟩
    · have hlt := Int64.lt_iff_toInt_lt.mp hlt
      omega
    · have hlt := Int64.lt_iff_toInt_lt.mp hlt
      rw [he]
      omega

theorem ahead_lt {c : Cursor} {cursor : Option Cursor} (h : ∀ a ∈ cursor, p.Before a c) :
    p.ahead (some c) < p.ahead cursor := by
  have hc := p.rank_lt_size c
  cases cursor with
  | none =>
    show 2 ^ 128 - p.rank c < 2 ^ 128 + 1
    omega
  | some a =>
    have hlt := (h a rfl).rank_lt
    show 2 ^ 128 - p.rank c < 2 ^ 128 - p.rank a
    omega

/-! ## A pass -/

section
variable (hs : Sql.IsName p.sort) (hfull : p.isFull = true) (hscans : ∀ n, p.Scans (tables n))

/-- How a pass turns out: the scan goes on with its cursor moved on, or it is over. -/
def Advances (p : Plan) (way : Way) (tables : Nat → Table) (g : Progress) :
    Verdict → List PageRead → Prop :=
  (p.scan way).Turns
    (fun g' read' => p.Continues way tables g' read' ∧ p.ahead g'.cursor < p.ahead g.cursor)
    (p.Concluded way tables)

include hfull in
/-- **Behind a page that is full the scan goes on with the next, and at one that is not it
ends.** -/
theorem ensures_afterPage_unsteady {g : Progress} (hg : p.Continues way tables g read)
    {s : Statement} {rows : List Row} {keys : List Cursor}
    (hpaged : p.Paged (way == .backward) tables (read ++ [⟨s, rows⟩]))
    (hkeys : rows.mapM p.cursorOf = .ok keys) (hbehind : ∀ k ∈ keys, ∀ c ∈ g.cursor, p.Before c k)
    (hle : rows.length ≤ p.batch) (t : Tally) :
    (p.afterPage rows.length ⟨t, keys.getLast?.or g.cursor⟩).Ensures (p.Unsteady way tables)
      (p.Advances way tables g) (read ++ [⟨s, rows⟩]) := by
  rw [afterPage]
  split
  · rename_i hshort
    refine ⟨hpaged, ?_, ⟨⟨s, rows⟩, by simp, hshort⟩, t, rfl⟩
    rw [List.dropLast_concat]
    exact hg.full
  · rename_i hpage
    have hlength : rows.length = p.batch := Nat.le_antisymm hle (Nat.le_of_not_lt hpage)
    obtain ⟨last, hlast⟩ : ∃ last, keys.getLast? = some last := by
      refine ⟨_, List.getLast?_eq_some_getLast ?_⟩
      rintro rfl
      cases rows with
      | nil => exact Nat.ne_of_lt p.batch_pos hlength
      | cons row rows =>
        obtain ⟨_, _, _, _, hnone⟩ := mapM_cons_eq_ok hkeys
        cases hnone
    rw [hlast]
    refine ⟨⟨hpaged, ?_, ?_⟩, ahead_lt (hbehind last (List.mem_of_getLast? hlast))⟩
    · intro q hq
      rcases List.mem_append.mp hq with hq | hq
      · exact hg.full q hq
      · exact List.mem_singleton.mp hq ▸ hlength
    · rw [visitedOn_append, visitedOn_single hkeys, List.getLast?_append, hlast]
      rfl

include hs hscans in
/-- The page that a scan reads next, with what is known of it. -/
theorem Continues.exists_page {g : Progress} (hg : p.Continues way tables g read) :
    ∃ s rows keys, p.pageStatement g.cursor (way == .backward) = .ok s ∧
      (tables read.length).answeredRows s = .ok rows ∧ rows.mapM p.cursorOf = .ok keys ∧
      p.Paged (way == .backward) tables (read ++ [⟨s, rows⟩]) ∧
      (∀ k ∈ keys, ∀ c ∈ g.cursor, p.Before c k) ∧ rows.length ≤ p.batch := by
  obtain ⟨s, rows, hstatement, hanswer, hkeys, hlength⟩ :=
    (hscans read.length).exists_page hs g.cursor (way == .backward)
  have hasked := hstatement
  rw [hg.cursor] at hasked
  refine ⟨s, rows, _, hstatement, hanswer, hkeys, .more hg.paged hasked hanswer hkeys,
    fun k => behind_of_mem_pageKeys, ?_⟩
  rw [hlength, pageKeys, List.length_map, pageRows, List.length_take]
  exact Nat.min_le_left _ _

include hs hfull hscans

theorem ensures_forwardPage_unsteady {g : Progress} (hg : p.Continues .forward tables g read) :
    (p.forwardPage g).Ensures (p.Unsteady .forward tables) (p.Advances .forward tables g) read := by
  obtain ⟨s, rows, keys, hstatement, hanswer, hkeys, hpaged, hbehind, hle⟩ :=
    hg.exists_page hs hscans
  have hstatement : p.pageStatement g.cursor false = .ok s := hstatement
  rw [forwardPage, hstatement]
  refine ensures_request_bind.mpr ?_
  intro reply read' hreply
  cases hreply with
  | noPage _ herror =>
    rw [hanswer] at herror
    cases herror
  | identities _ hother => exact absurd rfl hother
  | page _ hrows =>
    obtain rfl := Except.ok.inj (hanswer.symm.trans hrows)
    refine (ensures_compareRows_unsteady hkeys g).bind ?_
    rintro e read' ⟨rfl, t, rfl⟩
    exact ensures_afterPage_unsteady hfull hg hpaged hkeys hbehind hle t

theorem ensures_backwardPage_unsteady (hsides : p.base ≠ p.target) {g : Progress}
    (hg : p.Continues .backward tables g read) :
    (p.backwardPage g).Ensures (p.Unsteady .backward tables)
      (p.Advances .backward tables g) read := by
  obtain ⟨s, rows, keys, hstatement, hanswer, hkeys, hpaged, hbehind, hle⟩ :=
    hg.exists_page hs hscans
  have hafter := ensures_afterPage_unsteady hfull hg hpaged hkeys hbehind hle
  have hstatement : p.pageStatement g.cursor true = .ok s := hstatement
  rw [backwardPage, hstatement]
  refine ensures_request_bind.mpr ?_
  intro reply read' hreply
  cases hreply with
  | noPage _ herror =>
    rw [hanswer] at herror
    cases herror
  | identities _ hother => exact absurd rfl hother
  | page _ hrows =>
    obtain rfl := Except.ok.inj (hanswer.symm.trans hrows)
    cases rows with
    | nil =>
      obtain rfl := Except.ok.inj hkeys
      exact hafter g.tally
    | cons row rows =>
      obtain ⟨k, ks, -, -, rfl⟩ := mapM_cons_eq_ok hkeys
      simp only [hkeys]
      refine ensures_request_bind.mpr ?_
      intro found read' hfound
      cases hfound with
      | page hpage _ | noPage hpage _ => exact absurd hpage hsides
      | identities answered _ =>
        refine (ensures_reportAbsent_unsteady _ _ _).bind ?_
        rintro ⟨t, complete⟩ read' ⟨rfl, rfl⟩
        have hlast : ((k :: ks).getLast?.or g.cursor) = (k :: ks).getLast? := by
          rw [List.getLast?_eq_some_getLast (List.cons_ne_nil k ks)]
          rfl
        exact hlast ▸ hafter t

/-- **A pass reads the next page, and moves the cursor on.** -/
theorem ensures_pass_unsteady (hsides : p.base ≠ p.target) {g : Progress}
    (hg : p.Continues way tables g read) :
    (p.pass way g).Ensures (p.Unsteady way tables) (p.Advances way tables g) read := by
  refine ensures_isCancelled_unsteady.bind ?_
  rintro stop read' ⟨rfl, rfl⟩
  refine ensures_throttle_unsteady.bind ?_
  rintro go read' ⟨rfl, rfl⟩
  cases way with
  | forward => exact ensures_forwardPage_unsteady hs hfull hscans hg
  | backward => exact ensures_backwardPage_unsteady hs hfull hscans hsides hg

end

/-! ## A scan -/

theorem continues_nil : p.Continues way tables {} [] := ⟨.none, by simp, rfl⟩

/-- **At every point of a scan its pages have been read one after the other, and all but the last
were full.**  In the middle of a pass this is so because the pass may come to its end, and then it
is so of the pages read by then. -/
theorem paged_of_promises {c : Scanner}
    (h : (p.scan way).Promises (p.Unsteady way tables) (p.Continues way tables)
      (p.Concluded way tables) c read) :
    p.Paged (way == .backward) tables read ∧ ∀ q ∈ read.dropLast, q.rows.length = p.batch := by
  cases c with
  | ended outcome => exact ⟨h.paged, h.full⟩
  | running d =>
    have hround : d.Ensures (p.Unsteady way tables)
        ((p.scan way).Turns (p.Continues way tables) (p.Concluded way tables)) read := h
    have hanswer : ∀ (now : List PageRead) (r : Interface.Request Scanning), read <+: now →
        ∃ reply later, p.Unsteady way tables now r reply later ∧ read <+: later := by
      intro now r hnow
      obtain ⟨reply, later, hreply⟩ : ∃ reply later, p.Unsteady way tables now r reply later :=
        exists_unsteady now r
      exact ⟨reply, later, hreply, hnow.trans hreply.prefix⟩
    obtain ⟨verdict, later, hturn, hlater⟩ := hround.exists_end hanswer (List.prefix_refl read)
    have hall : p.Paged (way == .backward) tables later ∧
        ∀ q ∈ later.dropLast, q.rows.length = p.batch := by
      cases verdict with
      | again g =>
        have hgoes : p.Continues way tables g later := hturn
        exact ⟨hgoes.paged, fun q hq => hgoes.full q (List.mem_of_mem_dropLast hq)⟩
      | finished t | failed e => exact ⟨hturn.paged, hturn.full⟩
    obtain ⟨rest, rfl⟩ := hlater
    refine ⟨hall.1.of_append, fun q hq => hall.2 q ?_⟩
    rcases List.eq_nil_or_concat rest with rfl | ⟨init, last, rfl⟩
    · rwa [List.append_nil]
    · rw [List.concat_eq_append, ← List.append_assoc, List.dropLast_concat]
      exact List.mem_append_left _ (List.mem_of_mem_dropLast hq)

/-- **A full scan visits once whatever keeps its place, however the table changes between the
pages.**  Let each page be read from a table of its own.  At every point of the scan the pages that
it has read were asked for one behind the other, the places on them come strictly in the order of
the scan, so that none comes twice, and all pages but the last were full.  The scan comes to an end
whatever the tables are, and only behind a page that is not full; then each row that had its place
in all of the tables, and was in scope there, has been visited exactly once. -/
theorem scan_visits_once (hs : Sql.IsName p.sort) (hfull : p.isFull = true)
    (hsides : p.base ≠ p.target) (hscans : ∀ n, p.Scans (tables n)) (way : Way) :
    (∀ read c, Relation.ReflTransGen ((p.scan way).Step (p.Unsteady way tables))
        ([], (p.scan way).start {}) (read, c) →
      p.Paged (way == .backward) tables read ∧ (p.visitedOn read).Pairwise p.Before ∧
        (p.visitedOn read).Nodup ∧ ∀ q ∈ read.dropLast, q.rows.length = p.batch) ∧
    Ends ((p.scan way).Step (p.Unsteady way tables))
      (fun (read, c) => (∃ t, c = .ended (.ok t)) ∧ (∃ q ∈ read.getLast?, q.rows.length < p.batch) ∧
        ∀ k, (∀ n < read.length, p.HasAt (tables n) k) → (p.visitedOn read).count k = 1)
      ([], (p.scan way).start {}) := by
  have hround : ∀ g read, p.Continues way tables g read →
      ((p.scan way).round g).Ensures (p.Unsteady way tables) (p.Advances way tables g) read :=
    fun g read hg => ensures_pass_unsteady hs hfull hscans hsides hg
  have hrenews : ∀ g read, p.Continues way tables g read →
      ((p.scan way).round g).Ensures (p.Unsteady way tables)
        ((p.scan way).Turns (p.Continues way tables) (p.Concluded way tables)) read :=
    fun g read hg => (hround g read hg).mono fun v read' => Loop.Turns.mono fun _ _ h => h.1
  constructor
  · intro read c hrun
    have hpromises := Loop.Promises.reaches (x := ([], (p.scan way).start {})) hrenews
      (hrenews {} [] continues_nil) hrun
    obtain ⟨hpaged, hpages⟩ := paged_of_promises hpromises
    exact ⟨hpaged, hpaged.ordered hs hscans, hpaged.nodup hs hscans, hpages⟩
  · have hends : Ends ((p.scan way).Step (p.Unsteady way tables))
        (fun x => ∃ outcome, x.2 = .ended outcome ∧ p.Concluded way tables outcome x.1)
        ([], (p.scan way).start {}) :=
      Loop.ends_start (K := fun _ => True) (fun g _ => p.ahead g.cursor) hround
        (fun read r _ => exists_unsteady read r) (fun _ _ _ _ _ _ => trivial) continues_nil trivial
    refine hends.mono ?_
    rintro ⟨read, c⟩ - ⟨outcome, rfl, hover⟩
    obtain ⟨t, rfl⟩ := hover.outcome
    refine ⟨⟨t, rfl⟩, hover.short, fun k hk => ?_⟩
    obtain ⟨q, hq, hshort⟩ := hover.short
    exact hover.paged.count_eq_one hs hscans (List.mem_of_getLast? hq) hshort hk

/-- The first row changes after it was visited, and comes once more at its new place; the second
stays where it is. -/
def sampleTables : Nat → Table
  | 0 => sampleTable [[.int 1, .text "a", .int 5], [.int 2, .null, .int 7]]
  | 1 => sampleTable [[.int 1, .text "b", .int 9], [.int 2, .null, .int 7], [.int 3, .null, .null]]
  | 2 => sampleTable [[.int 1, .text "b", .int 9], [.int 2, .null, .int 7]]
  | _ => sampleTable [[.int 2, .null, .int 7]]

theorem scan_visits_once_sample :
    (Sql.IsName samplePlan.sort ∧ samplePlan.isFull = true ∧ samplePlan.base ≠ samplePlan.target ∧
      ∀ n, samplePlan.Scans (sampleTables n)) ∧
    ∃ read t, Relation.ReflTransGen
        ((samplePlan.scan .forward).Step (samplePlan.Unsteady .forward sampleTables))
        ([], (samplePlan.scan .forward).start {}) (read, .ended (.ok t)) ∧
      (samplePlan.visitedOn read).Pairwise samplePlan.Before ∧
      (∃ q ∈ read.getLast?, q.rows.length < samplePlan.batch) ∧
      (samplePlan.visitedOn read).count ⟨7, 2⟩ = 1 := by
  have hs : Sql.IsName samplePlan.sort := by decide
  have hsides : samplePlan.base ≠ samplePlan.target := by decide
  have hscans : ∀ n, samplePlan.Scans (sampleTables n) := by
    rintro (_ | _ | _ | n)
    · decide +kernel
    · decide +kernel
    · decide +kernel
    · show samplePlan.Scans (sampleTable [[.int 2, .null, .int 7]])
      decide +kernel
  have hkept : ∀ n, samplePlan.HasAt (sampleTables n) ⟨7, 2⟩ := by
    intro n
    refine ⟨[.int 2, .null, .int 7], ?_, ?_⟩
    · rcases n with _ | _ | _ | n <;> simp [sampleTables, sampleTable]
    · have hcells : (sampleTable []).cell [.int 2, .null, .int 7] "id" = .int 2 ∧
          (sampleTable []).cell [.int 2, .null, .int 7] "utime" = .int 7 ∧
          samplePlan.inScope (sampleTable []) [.int 2, .null, .int 7] = true := by decide +kernel
      -- the cells of a row depend on the columns only
      rcases n with _ | _ | _ | n <;> exact hcells
  obtain ⟨hpages, hends⟩ := scan_visits_once hs rfl hsides hscans .forward
  obtain ⟨⟨read, c⟩, hrun, ⟨t, rfl⟩, hshort, honce⟩ := hends.exists_end
  obtain ⟨-, hordered, -⟩ := hpages read _ hrun
  exact ⟨⟨hs, rfl, hsides, hscans⟩, read, t, hrun, hordered, hshort, honce _ fun n _ => hkept n⟩

end Plan
end Cutover
