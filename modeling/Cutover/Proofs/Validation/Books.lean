import Cutover.Proofs.Validation.Counting
import Cutover.Proofs.Validation.Observed

/-! # The books of a validation

An auditor keeps books on each scan of a validation, from its requests and their replies alone
(`Plan.auditor`).  He enters every call that fails, every event that the channel accepts or refuses,
and of every row that the scan visits what has become of it: he compares the rows of the base with
the target's himself, and looks the identities of a page of the target up in what the base has
answered.  A row that is visited gets exactly one entry.  If the token is cancelled while something
is under way for it, the entry says so.

The tally of a scan agrees with these books at the end of every pass (`Plan.Booked`): an error for
each entry of something that failed, a difference for each event that was accepted, and a row
scanned for each entry of a row.  So a validation returns a tally that accounts for everything
(`Plan.tally_accounts_for_everything`).
-/

namespace Cutover

open Dialogue

/-- What is entered in the books of a scan. -/
inductive Entry where
  /-- A query for a page failed. -/
  | pageFailed
  /-- A query for the identities of a page failed. -/
  | lookupFailed
  /-- A row was visited whose lookup in the target failed. -/
  | rowFailed
  /-- A row was visited for which the target has a row without an identity. -/
  | undecodable
  /-- A row was visited whose difference the channel refused. -/
  | unpublished
  /-- A row was visited whose difference was published. -/
  | published (e : Event)
  /-- A row of the base was visited to which the target's is equal. -/
  | equal
  /-- A row of the target was visited whose identity the base has. -/
  | present
  /-- A row was visited for which a call was cut short by the cancellation. -/
  | cutShort
  deriving DecidableEq

namespace Entry

/-- Something failed. -/
def isError : Entry → Bool
  | .pageFailed | .lookupFailed | .rowFailed | .undecodable | .unpublished => true
  | .published _ | .equal | .present | .cutShort => false

/-- A row was visited. -/
def isRow : Entry → Bool
  | .pageFailed | .lookupFailed => false
  | .rowFailed | .undecodable | .unpublished | .published _ | .equal | .present | .cutShort => true

/-- A difference of this kind was published. -/
def reports (kind : EventKind) : Entry → Bool
  | .published e => e.kind = kind
  | _ => false

/-- A visited row is equal, present, reported, failed or cut short. -/
theorem countP_isRow (es : List Entry) :
    es.countP isRow = es.countP (· = .equal) + es.countP (· = .present) +
      (es.countP (reports .targetMissing) + es.countP (reports .baseMissing) + es.countP
        (reports .notEqual)) +
      (es.countP (· = .rowFailed) + es.countP (· = .undecodable) + es.countP (· = .unpublished)) +
      es.countP (· = .cutShort) := by
  induction es with
  | nil => rfl
  | cons e es ih =>
    simp only [List.countP_cons, ih]
    rcases e with _ | _ | _ | _ | _ | ⟨id, kind, direction⟩ | _ | _ | _
    case published => cases kind <;> simp [isRow, reports] <;> omega
    all_goals simp [isRow, reports] <;> omega

/-- What failed is a query for a page or for its identities, or has to do with a row. -/
theorem countP_isError (es : List Entry) :
    es.countP isError = es.countP (· = .pageFailed) + es.countP (· = .lookupFailed) +
      (es.countP (· = .rowFailed) + es.countP (· = .undecodable) + es.countP
        (· = .unpublished)) := by
  induction es with
  | nil => rfl
  | cons e es ih =>
    simp only [List.countP_cons, ih]
    cases e <;> simp [isError] <;> omega

end Entry

/-- The books of a scan. -/
structure Ledger where
  /-- The rows of the page read last that have not been visited. -/
  page : List Row := []
  /-- What the base has answered when it was asked for the identities of the page. -/
  found : List Row := []
  entries : List Entry := []

namespace Ledger

/-- One more entry. -/
def add (l : Ledger) (e : Entry) : Ledger := { l with entries := l.entries ++ [e] }

/-- The next row of the page is visited; there may be an entry for it already. -/
def visit (l : Ledger) (e : Option Entry) : Ledger :=
  { l with page := l.page.tail, entries := l.entries ++ e.toList }

end Ledger

namespace Plan

variable (p : Plan)

/-- The identity of a row, if it has one. -/
def identity? (r : Row) : Option Int64 := (r.getInt64 p.table.idColumn).toOption

/-- Whether one of the rows has the identity of this one. -/
def isAmong (r : Row) (rows : List Row) : Bool :=
  (p.identity? r).any fun id => rows.any fun r' => p.identity? r' == some id

/-- The entry for a row of the base for which the target has this row, unless there is a difference
to report. -/
def compared (base target : Row) : Option Entry :=
  match Record.ofRow? base p.table.idColumn, Record.ofRow? target p.table.idColumn with
  | _, .error _ => some .undecodable
  | .ok b, .ok t => if b.equals t then some .equal else none
  | .error _, .ok _ => none

/-- The books of the scan of a way after a reply.  The backward scan looks at the token before it
visits a row, and asks the base for the identities of a page when it has read it. -/
def enter (way : Way) (l : Ledger) : (r : Scanning.Request) → Scanning.Reply r → Ledger
  | .cancelled, false =>
    match way, l.page with
    | .backward, r :: _ => l.visit (if p.isAmong r l.found then some .present else none)
    | _, _ => l
  | .query .., some (.ok rows) =>
    match way, l.page with
    | .backward, _ :: _ => { l with found := rows }
    | _, _ => { l with page := rows }
  | .query .., some (.error _) =>
    match way, l.page with
    | .backward, _ :: _ => { l with page := [] }.add .lookupFailed
    | _, _ => l.add .pageFailed
  | .queryRow .., some (.ok target) =>
    l.visit (l.page.head?.bind fun base => target.bind (p.compared base))
  | .queryRow .., some (.error _) => l.visit (some .rowFailed)
  | .queryRow .., none => l.visit (some .cutShort)
  | .publish e, some (.ok _) => l.add (.published e)
  | .publish _, some (.error _) => l.add .unpublished
  | .publish _, none => l.add .cutShort
  | .cancelled, true | .loaded, _ | .query .., none | .rest _, _ | .awaited _, _ => l

/-- The auditor of a validation. -/
def auditor : Observer Ledger where
  start := {}
  note := p.enter

/-- A tally agrees with the books; a row was cut short only if the token is cancelled, and then it
was the last. -/
structure Booked (t : Tally) (a : Sighted Ledger) : Prop where
  reported : ∀ kind, t.reported kind = a.notes.entries.countP (Entry.reports kind)
  errors : t.errors = a.notes.entries.countP Entry.isError
  scanned : t.scanned = a.notes.entries.countP Entry.isRow
  cutShort : a.notes.entries.countP (· = .cutShort) ≤ a.cancelled.toNat

end Plan

/-- The tally after an entry. -/
def Tally.book (t : Tally) : Entry → Tally
  | .pageFailed | .lookupFailed => t.fail
  | .rowFailed | .undecodable | .unpublished => t.scan.fail
  | .published e => t.scan.report e.kind
  | .equal | .present | .cutShort => t.scan

theorem Tally.reported_book (t : Tally) (e : Entry) (kind : EventKind) :
    (t.book e).reported kind = t.reported kind + if e.reports kind then 1 else 0 := by
  rcases e with _ | _ | _ | _ | _ | ⟨id, k, d⟩ | _ | _ | _
  case published => cases k <;> cases kind <;> rfl
  all_goals cases kind <;> rfl

theorem Tally.errors_book (t : Tally) (e : Entry) :
    (t.book e).errors = t.errors + if e.isError then 1 else 0 := by
  rcases e with _ | _ | _ | _ | _ | ⟨id, k, d⟩ | _ | _ | _
  case published => cases k <;> rfl
  all_goals rfl

theorem Tally.scanned_book (t : Tally) (e : Entry) :
    (t.book e).scanned = t.scanned + if e.isRow then 1 else 0 := by
  rcases e with _ | _ | _ | _ | _ | ⟨id, k, d⟩ | _ | _ | _
  case published => cases k <;> rfl
  all_goals rfl

namespace Plan

variable {p : Plan} {stores : Supervision.Replies} {way : Way} {a a' : Sighted Ledger} {t : Tally}

theorem booked_start : Booked {} ⟨false, p.auditor.start⟩ where
  reported kind := by cases kind <;> rfl
  errors := rfl
  scanned := rfl
  cutShort := Nat.le_refl 0

/-- Books in which nothing is entered stay in agreement. -/
theorem Booked.same (h : Booked t a) (hentries : a'.notes.entries = a.notes.entries)
    (hmono : a.cancelled = true → a'.cancelled = true) : Booked t a' where
  reported kind := hentries ▸ h.reported kind
  errors := hentries ▸ h.errors
  scanned := hentries ▸ h.scanned
  cutShort := hentries ▸ h.cutShort.trans (Bool.toNat_le_toNat hmono)

/-- **What is entered is counted.**  Something is cut short when the token is cancelled, and not
before. -/
theorem Booked.add (h : Booked t a) (e : Entry)
    (hentries : a'.notes.entries = a.notes.entries ++ [e])
    (hmono : a.cancelled = true → a'.cancelled = true)
    (hcut : e = .cutShort → a.cancelled = false ∧ a'.cancelled = true) : Booked (t.book e) a' where
  reported kind := by rw [hentries, List.countP_append, List.countP_singleton, t.reported_book,
    h.reported]
  errors := by rw [hentries, List.countP_append, List.countP_singleton, t.errors_book, h.errors]
  scanned := by rw [hentries, List.countP_append, List.countP_singleton, t.scanned_book, h.scanned]
  cutShort := by
    have hbefore := h.cutShort
    rw [hentries, List.countP_append, List.countP_singleton]
    by_cases he : e = .cutShort
    · obtain ⟨hfree, hcancelled⟩ := hcut he
      rw [hfree] at hbefore
      rw [hcancelled, Nat.le_zero.mp hbefore]
      simp [he]
    · simpa [he] using hbefore.trans (Bool.toNat_le_toNat hmono)

/-- **Every failure is one of these.** -/
theorem Booked.errors_eq (h : Booked t a) :
    t.errors = a.notes.entries.countP (· = .pageFailed) + a.notes.entries.countP
    (· = .lookupFailed) +
      (a.notes.entries.countP (· = .rowFailed) + a.notes.entries.countP (· = .undecodable) +
        a.notes.entries.countP (· = .unpublished)) :=
  h.errors.trans (Entry.countP_isError _)

/-- **Every row is equal, present, reported, failed or cut short.** -/
theorem Booked.scanned_eq (h : Booked t a) :
    t.scanned = a.notes.entries.countP (· = .equal) + a.notes.entries.countP
    (· = .present) + t.inconsistencies +
      (a.notes.entries.countP (· = .rowFailed) + a.notes.entries.countP (· = .undecodable) +
        a.notes.entries.countP (· = .unpublished)) + a.notes.entries.countP (· = .cutShort) := by
  have hinconsistencies : t.inconsistencies =
    a.notes.entries.countP (Entry.reports .targetMissing) +
      a.notes.entries.countP (Entry.reports .baseMissing) + a.notes.entries.countP
        (Entry.reports .notEqual) := by
    rw [← h.reported, ← h.reported, ← h.reported]
    rfl
  rw [h.scanned, Entry.countP_isRow, hinconsistencies]

/-- No row is cut short before the token is cancelled. -/
theorem Booked.cutShort_of_free (h : Booked t a) (hfree : a.cancelled = false) :
    a.notes.entries.countP (· = .cutShort) = 0 := by
  have hbound := h.cutShort
  rw [hfree] at hbound
  exact Nat.le_zero.mp hbound

/-! ## Single requests -/

/-- Nothing has been entered, and the token is not cancelled any less. -/
def Unentered (a a' : Sighted Ledger) : Prop :=
  a'.notes = a.notes ∧ (a.cancelled = true → a'.cancelled = true)

theorem Booked.unentered (h : Booked t a) (hsame : Unentered a a') : Booked t a' :=
  h.same (congrArg _ hsame.1) hsame.2

theorem ensures_rest_audited (d : Duration) :
    (rest d).Ensures (p.auditor.alone stores way) (fun _ a' => Unentered a a') a := by
  rintro reply a' ⟨hmono, -, -, hnotes⟩
  exact ⟨hnotes, hmono⟩

theorem ensures_throttle_audited :
    p.throttle.Ensures (p.auditor.alone stores way) (fun _ a' => Unentered a a') a := by
  unfold throttle
  cases p.loadPause with
  | none => exact ⟨rfl, id⟩
  | some d =>
    rintro loaded a' ⟨hmono, -, -, hnotes⟩
    have hsame : Unentered a a' := ⟨hnotes, hmono⟩
    cases loaded with
    | false => exact hsame
    | true =>
      refine (ensures_rest_audited d).mono fun _ a'' h => ?_
      exact ⟨h.1.trans hsame.1, h.2 ∘ hsame.2⟩

/-- The scan looks at the token. -/
theorem ensures_isCancelled_audited :
    isCancelled.Ensures (p.auditor.alone stores way)
      (fun stop a' => (a.cancelled = true → a'.cancelled = true) ∧ a'.cancelled = stop ∧
        a'.notes = p.enter way a.notes .cancelled stop) a := by
  rintro stop a' ⟨hmono, hheeds, -, hnotes⟩
  exact ⟨hmono, hheeds.symm, hnotes⟩

/-- A query is answered while the token is not cancelled. -/
theorem ensures_query_audited (on : Side) (st : Statement) :
    (askScanning (.query on st)).Ensures (p.auditor.alone stores way)
      (fun reply a' => (a.cancelled = true → a'.cancelled = true) ∧
        a'.cancelled = Option.isNone reply ∧ a'.notes = p.enter way a.notes (.query on st) reply)
          a := by
  rintro reply a' ⟨hmono, hheeds, -, hnotes⟩
  exact ⟨hmono, hheeds.symm, hnotes⟩

/-- **A difference of a visited row is published and counted**, or refused, or cut short. -/
theorem ensures_emit_audited (id : Int64) (kind : EventKind) (h : Booked t a)
    (hfree : a.cancelled = false) : (p.emit id kind t.scan).Ensures (p.auditor.alone stores way)
      (fun t' a' => Booked t' a' ∧ a'.notes.page = a.notes.page ∧
        a'.notes.found = a.notes.found) a := by
  rintro reply a' ⟨hmono, hheeds, -, hnotes⟩
  have hadded : ∀ e : Entry, a'.notes = a.notes.add e → a'.notes.page = a.notes.page ∧
      a'.notes.found = a.notes.found := by
    rintro e he
    rw [he]
    exact ⟨rfl, rfl⟩
  match reply with
  | none =>
    exact ⟨h.add .cutShort (congrArg _ hnotes) hmono fun _ => ⟨hfree, hheeds.symm⟩, hadded _ hnotes⟩
  | some (.error e) => exact ⟨h.add .unpublished (congrArg _ hnotes) hmono nofun, hadded _ hnotes⟩
  | some (.ok u) =>
    exact ⟨h.add (.published ⟨id, kind, p.direction⟩) (congrArg _ hnotes) hmono nofun,
      hadded _ hnotes⟩

/-! ## Pages -/

/-- What a pass comes to: the books agree, and no identities of a page are left to ask for. -/
def Audited (way : Way) : Verdict → Sighted Ledger → Prop
  | .again g, a => Booked g.tally a ∧ (way = .backward → a.notes.page = [])
  | .finished t, a => Booked t a
  | .failed _, _ => True

/-- A pass that ends with a rest goes on, unless the token has been cancelled meanwhile. -/
theorem ensures_restThen_audited {g : Progress} (h : Booked g.tally a)
    (hpage : way = .backward → a.notes.page = []) :
    (rest p.interval >>= fun slept => if slept then pure (.again g)
      else pure (.finished g.tally)).Ensures (p.auditor.alone stores way) (Audited way) a := by
  refine (ensures_rest_audited _).bind fun slept a' hsame => ?_
  cases slept with
  | true => exact ⟨h.unentered hsame, fun hway => (congrArg _ hsame.1).trans (hpage hway)⟩
  | false => exact h.unentered hsame

/-- After a failed query the pass is repeated. -/
theorem ensures_onFailure_audited (e : StoreError) {g : Progress} (h : Booked g.tally.fail a)
    (hpage : way = .backward → a.notes.page = []) :
    (p.onFailure e g).Ensures (p.auditor.alone stores way) (Audited way) a := by
  unfold onFailure
  split
  · trivial
  · exact ensures_restThen_audited (g := { g with tally := g.tally.fail }) h hpage

theorem ensures_afterPage_audited (length : Nat) {g : Progress} (h : Booked g.tally a)
    (hpage : way = .backward → a.notes.page = []) :
    (p.afterPage length g).Ensures (p.auditor.alone stores way) (Audited way) a := by
  unfold afterPage
  split
  · split
    · exact h
    · exact ensures_restThen_audited h hpage
  · exact ⟨h, hpage⟩

/-! ## Forward -/

/-- A row with a place in the order of the scan has an identity. -/
theorem ofRow?_of_cursorOf {row : Row} {c : Cursor} (h : p.cursorOf row = .ok c) :
    Record.ofRow? row p.table.idColumn = .ok ⟨c.id, row⟩ := by
  unfold cursorOf at h
  unfold Record.ofRow?
  cases hid : row.getInt64 p.table.idColumn with
  | error e => rw [hid] at h; cases h
  | ok id =>
    rw [hid] at h
    cases hsort : row.getInt64 p.sort with
    | error e => rw [hsort] at h; cases h
    | ok sort =>
      rw [hsort] at h
      cases h
      rfl

/-- The auditor compares as the scan does. -/
theorem compared_of_difference {row target : Row} {base : Record}
    (hbase : Record.ofRow? row p.table.idColumn = .ok base) :
    p.compared row target = match p.difference base (some target) with
      | .error _ => some .undecodable
      | .ok none => some .equal
      | .ok (some _) => none := by
  simp only [compared, difference, hbase]
  cases Record.ofRow? target p.table.idColumn with
  | error e => rfl
  | ok r =>
    by_cases hequal : base.equals r <;> simp [hequal, Bind.bind, Except.bind, pure, Except.pure]

/-- **A row of the base gets its entry.** -/
theorem ensures_compareRow_audited {row : Row} {rows : List Row} {c : Cursor}
    (hplace : p.cursorOf row = .ok c) (h : Booked t a) (hfree : a.cancelled = false)
    (hpage : a.notes.page = row :: rows) :
    (p.compareRow row t.scan).Ensures (p.auditor.alone stores .forward)
      (fun t' a' => Booked t' a' ∧ a'.notes.page = rows) a := by
  have hbase := ofRow?_of_cursorOf hplace
  have hrest : ∀ e (a' : Sighted Ledger), a'.notes = a.notes.visit e → a'.notes.page = rows := by
    rintro e a' hnotes
    rw [hnotes]
    exact congrArg List.tail hpage
  rw [compareRow, hbase]
  refine ensures_request_bind.mpr ?_
  rintro reply a' ⟨hmono, hheeds, -, hnotes⟩
  rcases reply with _ | e | target
  case none =>
    exact ⟨h.add .cutShort (congrArg _ hnotes) hmono fun _ => ⟨hfree, hheeds.symm⟩,
      hrest _ _ hnotes⟩
  case some.error => exact ⟨h.add .rowFailed (congrArg _ hnotes) hmono (by rintro ⟨⟩),
    hrest _ _ hnotes⟩
  case some.ok =>
    -- a difference is still to be published, and gets its entry by that
    have hpublished : ∀ kind, a'.notes = a.notes.visit none →
        (p.emit c.id kind t.scan).Ensures (p.auditor.alone stores .forward)
          (fun t' a' => Booked t' a' ∧ a'.notes.page = rows) a' := by
      intro kind hsame
      have h' : Booked t a' := h.same ((congrArg _ hsame).trans (List.append_nil _)) hmono
      refine (ensures_emit_audited _ _ h' hheeds.symm).mono ?_
      rintro t' a'' ⟨ht', hpage', -⟩
      exact ⟨ht', hpage'.trans (hrest _ _ hsame)⟩
    have hentry : a'.notes = a.notes.visit (target.bind (p.compared row)) := by
      rw [hnotes]
      show a.notes.visit (a.notes.page.head?.bind fun base => target.bind (p.compared base)) = _
      rw [hpage]
      rfl
    cases target with
    | none => exact hpublished .targetMissing hentry
    | some target =>
      rw [Option.bind_some, compared_of_difference hbase] at hentry
      simp only
      cases hdifference : p.difference ⟨c.id, row⟩ (some target) with
      | error e =>
        rw [hdifference] at hentry
        exact ⟨h.add .undecodable (congrArg _ hentry) hmono (by rintro ⟨⟩), hrest _ _ hentry⟩
      | ok kind =>
        rw [hdifference] at hentry
        cases kind with
        | none => exact ⟨h.add .equal (congrArg _ hentry) hmono (by rintro ⟨⟩), hrest _ _ hentry⟩
        | some kind => exact hpublished kind hentry

/-- **Every row of a page gets its entry**, up to the end of the page or until the token is
cancelled. -/
theorem ensures_compareRows_audited {rows : List Row} {g : Progress} (h : Booked g.tally a)
    (hpage : a.notes.page = rows) :
    (p.compareRows rows g).Ensures (p.auditor.alone stores .forward)
      (fun pageEnd a' => match pageEnd with
        | .stopped t => Booked t a'
        | .failed _ => True
        | .through g => Booked g.tally a') a := by
  induction rows generalizing g a with
  | nil => exact h
  | cons row rows ih =>
    refine ensures_isCancelled_audited.bind ?_
    rintro stop a' ⟨hmono, hstop, hnotes⟩
    cases stop with
    | true => exact h.same (congrArg _ hnotes) hmono
    | false =>
      have hsame : a'.notes = a.notes := hnotes
      have h' : Booked g.tally a' := h.same (congrArg _ hsame) hmono
      rw [if_neg Bool.false_ne_true]
      cases hplace : p.cursorOf row with
      | error e => trivial
      | ok c =>
        refine (ensures_compareRow_audited hplace h' hstop ((congrArg _ hsame).trans hpage)).bind ?_
        rintro t a'' ⟨ht, hrest⟩
        exact ih ht hrest

theorem ensures_forwardPage_audited {g : Progress} (h : Booked g.tally a) :
    (p.forwardPage g).Ensures (p.auditor.alone stores .forward) (Audited .forward) a := by
  unfold forwardPage
  split
  · trivial
  · refine (ensures_query_audited p.base _).bind ?_
    rintro reply a' ⟨hmono, hheeds, hnotes⟩
    match reply with
    | none => exact h.same (congrArg _ hnotes) hmono
    | some (.error e) =>
      exact ensures_onFailure_audited e (h.add .pageFailed (congrArg _ hnotes) hmono nofun) nofun
    | some (.ok rows) =>
      have hread : a'.notes = { a.notes with page := rows } := hnotes
      have h' : Booked g.tally a' := h.same (by rw [hread]) hmono
      refine (ensures_compareRows_audited h' (by rw [hread])).bind fun pageEnd a'' hend => ?_
      cases pageEnd with
      | stopped t => exact hend
      | failed e => trivial
      | through g => exact ensures_afterPage_audited _ hend nofun

/-! ## Backward -/

/-- The auditor looks an identity up as the scan does. -/
theorem isAmong_eq {r : Row} {id : Int64} (hid : p.identity? r = some id) (rows : List Row) :
    p.isAmong r rows = (rows.filterMap p.identity?).contains id := by
  rw [Bool.eq_iff_iff]
  simp [isAmong, hid, List.mem_filterMap]

/-- The rows of a page have the identities of their places in the order of the scan. -/
theorem map_identity_of_mapM {rows : List Row} {cursors : List Cursor}
    (h : rows.mapM p.cursorOf = .ok cursors) :
    rows.map p.identity? = (cursors.map (·.id)).map some := by
  induction rows generalizing cursors with
  | nil =>
    cases h
    rfl
  | cons row rows ih =>
    obtain ⟨c, cs, hplace, hrest, rfl⟩ := mapM_cons_eq_ok h
    have hid : p.identity? row = some c.id := by
      rw [identity?, getInt64_of_cursorOf hplace]
      rfl
    rw [List.map_cons, ih hrest, hid]
    rfl

/-- **Every identity of a page gets its entry**, up to the end of the page or until the token is
cancelled. -/
theorem ensures_reportAbsent_audited {found : List Row} {ids : List Int64}
    (hids : a.notes.page.map p.identity? = ids.map some) (hfound : a.notes.found = found)
    (h : Booked t a) : (p.reportAbsent (found.filterMap p.identity?) ids t).Ensures
    (p.auditor.alone stores .backward)
      (fun looked a' => Booked looked.1 a' ∧ (looked.2 = true → a'.notes.page = [])) a := by
  induction ids generalizing t a with
  | nil => exact ⟨h, fun _ => List.map_eq_nil_iff.mp hids⟩
  | cons id ids ih =>
    obtain ⟨row, rows, hpage, hid, hrows⟩ := List.map_eq_cons_iff.mp hids
    refine ensures_isCancelled_audited.bind ?_
    rintro stop a' ⟨hmono, hstop, hnotes⟩
    cases stop with
    | true => exact ⟨h.same (congrArg _ hnotes) hmono, nofun⟩
    | false =>
      have hvisit : a'.notes =
          a.notes.visit (if (found.filterMap p.identity?).contains id then some .present
            else none) := by
        rw [hnotes, ← isAmong_eq hid, ← hfound]
        simp only [enter, hpage]
      have hrest : a'.notes.page = rows := by
        rw [hvisit]
        exact congrArg List.tail hpage
      have hsame : a'.notes.found = found := by
        rw [hvisit]
        exact hfound
      rw [if_neg Bool.false_ne_true]
      split
      · rename_i hpresent
        rw [if_pos hpresent] at hvisit
        exact ih (hrest ▸ hrows) hsame (h.add .present (congrArg _ hvisit) hmono nofun)
      · rename_i habsent
        rw [if_neg habsent] at hvisit
        have h' : Booked t a' := h.same ((congrArg _ hvisit).trans (List.append_nil _)) hmono
        refine (ensures_emit_audited _ _ h' hstop).bind ?_
        rintro t' a'' ⟨ht', hpage', hfound'⟩
        exact ih ((hpage'.trans hrest) ▸ hrows) (hfound'.trans hsame) ht'

theorem ensures_compareIds_audited (length : Nat) {cursors : List Cursor} {g : Progress} {row : Row}
    {rows : List Row} (h : Booked g.tally a) (hpage : a.notes.page = row :: rows)
    (hplaces : (row :: rows).mapM p.cursorOf = .ok cursors) :
    (p.compareIds length cursors g).Ensures (p.auditor.alone stores .backward)
    (Audited .backward) a := by
  refine (ensures_query_audited p.base _).bind ?_
  rintro reply a' ⟨hmono, hheeds, hnotes⟩
  match reply with
  | none => exact h.same (congrArg _ hnotes) hmono
  | some (.error e) =>
    have hfailed : a'.notes = { a.notes with page := [] }.add .lookupFailed := by
      rw [hnotes]
      simp only [enter, hpage]
    refine ensures_onFailure_audited e (h.add .lookupFailed ?_ hmono nofun) fun _ => ?_
    · rw [hfailed]
      rfl
    · rw [hfailed]
      rfl
  | some (.ok found) =>
    have hread : a'.notes = { a.notes with found := found } := by
      rw [hnotes]
      simp only [enter, hpage]
    have hids : a'.notes.page.map p.identity? = (cursors.map (·.id)).map some := by
      rw [hread]
      show a.notes.page.map _ = _
      rw [hpage]
      exact map_identity_of_mapM hplaces
    have h' : Booked g.tally a' := h.same (by rw [hread]) hmono
    refine (ensures_reportAbsent_audited hids (by rw [hread]) h').bind ?_
    rintro ⟨t, complete⟩ a'' ⟨ht, hdone⟩
    cases complete with
    | true => exact ensures_afterPage_audited _ ht fun _ => hdone rfl
    | false => exact ht

theorem ensures_backwardPage_audited {g : Progress} (h : Booked g.tally a)
    (hpage : a.notes.page = []) :
    (p.backwardPage g).Ensures (p.auditor.alone stores .backward) (Audited .backward) a := by
  unfold backwardPage
  split
  · trivial
  · refine (ensures_query_audited p.target _).bind ?_
    rintro reply a' ⟨hmono, hheeds, hnotes⟩
    match reply with
    | none => exact h.same (congrArg _ hnotes) hmono
    | some (.error e) =>
      have hfailed : a'.notes = a.notes.add .pageFailed := by
        rw [hnotes]
        simp only [enter, hpage]
      refine ensures_onFailure_audited e (h.add .pageFailed ?_ hmono nofun) fun _ => ?_
      · rw [hfailed]
        rfl
      · rw [hfailed]
        exact hpage
    | some (.ok rows) =>
      have hread : a'.notes = { a.notes with page := rows } := by
        rw [hnotes]
        simp only [enter, hpage]
      have h' : Booked g.tally a' := h.same (by rw [hread]) hmono
      cases rows with
      | nil => exact ensures_afterPage_audited _ h' fun _ => by rw [hread]
      | cons row rows =>
        cases hplaces : (row :: rows).mapM p.cursorOf with
        | error e =>
          simp only [hplaces]
          trivial
        | ok cursors =>
          simp only [hplaces]
          exact ensures_compareIds_audited _ h' (by rw [hread]) hplaces

/-! ## Every run -/

/-- **The books agree with the tally at the end of every pass.** -/
theorem ensures_pass_audited (way : Way) {g : Progress} (h : Booked g.tally a)
    (hpage : way = .backward → a.notes.page = []) :
    (p.pass way g).Ensures (p.auditor.alone stores way) (Audited way) a := by
  refine ensures_isCancelled_audited.bind ?_
  rintro stop a₁ ⟨hmono, -, hnotes⟩
  have hsame : a₁.notes = a.notes := by
    rw [hnotes]
    cases stop <;> cases way with
    | forward => rfl
    | backward => simp only [enter, hpage rfl]
  have h₁ : Booked g.tally a₁ := h.same (congrArg _ hsame) hmono
  cases stop with
  | true => exact h₁
  | false =>
    refine ensures_throttle_audited.bind fun goOn a₂ hthrottle => ?_
    have h₂ := h₁.unentered hthrottle
    split
    · cases way with
      | forward => exact ensures_forwardPage_audited h₂
      | backward =>
        exact ensures_backwardPage_audited h₂ ((congrArg _ (hthrottle.1.trans hsame)).trans
          (hpage rfl))
    · exact h₂

theorem pass_booked (way : Way) (g : Progress) (a : Sighted Ledger)
    (h : Booked g.tally a ∧ (way = .backward → a.notes.page = [])) :
    ((p.scan way).round g).Ensures (p.auditor.alone stores way)
      ((p.scan way).Turns (fun g a => Booked g.tally a ∧ (way = .backward → a.notes.page = []))
        fun r a => ∀ t, r = .ok t → Booked t a) a := by
  refine (ensures_pass_audited way h.1 h.2).mono fun verdict a' hv => ?_
  cases verdict with
  | again g => exact hv
  | finished t =>
    rintro t' ⟨⟩
    exact hv
  | failed e => exact nofun

end Plan

/-- How many entries of both scans are as said. -/
def Observed.entries (s : Observed Ledger) (q : Entry → Bool) : Nat :=
  (s.notes .forward).entries.countP q + (s.notes .backward).entries.countP q

namespace Plan

variable {p : Plan} {stores : Supervision.Replies} {v : Validating (Observed Ledger)} {t : Tally}

/-- **The statistics of a validation account for everything.**  Whatever the stores and the channel
reply, and whichever scan goes first at any moment, a validation that returns a tally has counted
the events that were published, of each kind as many as the channel has accepted, and as errors the
failed queries for pages, for the identities of pages and for rows, the rows of the target without
an identity and the refused events.  Each row that it has scanned was found equal or present, or was
reported, or stands among the errors; but for the rows, one of each scan at most, for which a call
was cut short by a cancellation. -/
theorem tally_accounts_for_everything (hv : p.auditor.Reaches p stores (p.auditor.begin p) v)
    (hover : v.outcome? = some (.ok t)) :
    (∀ kind, t.reported kind = v.shared.entries (Entry.reports kind)) ∧
      t.errors = v.shared.entries (· = .pageFailed) + v.shared.entries (· = .lookupFailed) +
        (v.shared.entries (· = .rowFailed) + v.shared.entries (· = .undecodable) +
          v.shared.entries (· = .unpublished)) ∧
      t.scanned = v.shared.entries (· = .equal) + v.shared.entries
        (· = .present) + t.inconsistencies + (v.shared.entries (· = .rowFailed) + v.shared.entries
          (· = .undecodable) + v.shared.entries (· = .unpublished)) + v.shared.entries
            (· = .cutShort) ∧
      v.shared.entries (· = .cutShort) ≤ 2 ∧
      (v.shared.cancelled = false → v.shared.entries (· = .cutShort) = 0) := by
  have hkept : ∀ way, p.auditor.Kept p stores
      (fun way g a => Booked g.tally a ∧ (way = .backward → a.notes.page = []))
      (fun _ r a => ∀ t, r = .ok t → Booked t a) v way :=
    Observer.Reaches.kept pass_booked (fun _ => ⟨booked_start, fun _ => rfl⟩) hv
  obtain ⟨own, rfl, hown⟩ := Observer.Kept.exists_tallies hkept hover
  obtain ⟨seenf, hseenf, hf⟩ := hown .forward
  obtain ⟨seenb, hseenb, hb⟩ := hown .backward
  have hf := hf _ rfl
  have hb := hb _ rfl
  refine ⟨fun kind => ?_, ?_, ?_, ?_, fun hfree => ?_⟩
  · rw [Observed.entries, ← hf.reported kind, ← hb.reported kind]
    cases kind <;> rfl
  · show (own .forward).errors + (own .backward).errors = _
    rw [hf.errors_eq, hb.errors_eq]
    simp only [Observed.entries]
    omega
  · have hboth : (own .forward + own .backward).inconsistencies =
        (own .forward).inconsistencies + (own .backward).inconsistencies :=
          Tally.merge_inconsistencies ..
    rw [hboth]
    show (own .forward).scanned + (own .backward).scanned = _
    rw [hf.scanned_eq, hb.scanned_eq]
    simp only [Observed.entries]
    omega
  · exact Nat.add_le_add (hf.cutShort.trans (Bool.toNat_le _)) (hb.cutShort.trans (Bool.toNat_le _))
  · have hunseen : ∀ seen : Bool, (seen = true → v.shared.cancelled = true) → seen = false :=
      fun seen hseen => Bool.eq_false_iff.mpr fun h =>
        Bool.false_ne_true (hfree.symm.trans (hseen h))
    exact Nat.add_eq_zero_iff.mpr
      ⟨hf.cutShort_of_free (hunseen _ hseenf), hb.cutShort_of_free (hunseen _ hseenb)⟩

/-! ## A validation in which most things go wrong -/

/-- A full validation of a page. -/
def onePage : Plan where
  base := .src
  target := .dst
  direction := .src
  table := .items
  sort := "id"
  batch := 8
  batch_pos := by decide

/-- A row with an identity and a name. -/
def named (id : Int64) (name : String) : Row := ⟨[("id", .int id), ("name", .text name)]⟩

/-- The base has six rows.  Of these the target has the first and, otherwise, the last; the lookup
of the second fails, that of the third gives a row without an identity, and the event of the fourth
is refused.  The target has a row more. -/
def faultyReplies : (r : Scanning.Request) → Scanning.Reply r
  | .cancelled => false
  | .loaded => false
  | .query .src s =>
    some (.ok (if s.args = [.int 1, .int 6, .int 7] then [named 1 "a", named 6 "f"]
      else [named 1 "a", named 2 "b", named 3 "c", named 4 "d", named 5 "e", named 6 "f"]))
  | .query .dst _ => some (.ok [named 1 "a", named 6 "g", named 7 "h"])
  | .queryRow _ s => some <|
    match s.args with
    | [.int 1] => .ok (some (named 1 "a"))
    | [.int 2] => .error (.unavailable "lost")
    | [.int 3] => .ok (some ⟨[("name", .null)]⟩)
    | [.int 6] => .ok (some (named 6 "g"))
    | _ => .ok none
  | .publish e => some (if e.id = 4 then .error (.transport "down") else .ok ())
  | .rest _ => some ()
  | .awaited c => Scanning.Call.answered (fun _ => ⟨"items", "id", [], []⟩) c

/-- The same validation at its end. -/
def faultyEnd : Validating (Observed Ledger) :=
  (List.replicate 40 Way.forward ++ List.replicate 40 Way.backward).foldl
    (onePage.auditor.goOn onePage faultyReplies) (onePage.auditor.begin onePage)

/-- Of the six rows of the base one is equal, two are reported and three fail. -/
def faultyTally : Tally where
  scanned := 9
  targetMissing := 1
  baseMissing := 1
  notEqual := 1
  errors := 3

theorem tally_accounts_for_everything_sample :
    (onePage.auditor.Reaches onePage (fun r reply => reply = faultyReplies r)
      (onePage.auditor.begin onePage)
        faultyEnd ∧
      faultyEnd.outcome? = some (.ok faultyTally)) ∧
    (∀ kind, faultyTally.reported kind = faultyEnd.shared.entries (Entry.reports kind)) ∧
      faultyTally.errors =
        faultyEnd.shared.entries (· = .pageFailed) + faultyEnd.shared.entries (· = .lookupFailed) +
          (faultyEnd.shared.entries (· = .rowFailed) + faultyEnd.shared.entries (· = .undecodable) +
            faultyEnd.shared.entries (· = .unpublished)) ∧
      faultyTally.scanned =
        faultyEnd.shared.entries (· = .equal) + faultyEnd.shared.entries (· = .present) +
          faultyTally.inconsistencies +
          (faultyEnd.shared.entries (· = .rowFailed) + faultyEnd.shared.entries (· = .undecodable) +
            faultyEnd.shared.entries (· = .unpublished)) + faultyEnd.shared.entries
              (· = .cutShort) ∧
      faultyEnd.shared.entries (· = .cutShort) ≤ 2 ∧
      (faultyEnd.shared.cancelled = false → faultyEnd.shared.entries (· = .cutShort) = 0) := by
  have hrun : onePage.auditor.Reaches onePage (fun r reply => reply = faultyReplies r)
      (onePage.auditor.begin onePage) faultyEnd := by
    refine Observer.reaches_moves ?_ rfl _
    rintro (_ | _ | (⟨on, s⟩ | _ | _ | _) | _)
    case loaded | awaited => exact ⟨trivial, rfl⟩
    case guarded.query => cases on <;> exact ⟨rfl, rfl⟩
    all_goals exact ⟨rfl, rfl⟩
  have hover : faultyEnd.outcome? = some (.ok faultyTally) := by decide +kernel
  exact ⟨⟨hrun, hover⟩, tally_accounts_for_everything hrun hover⟩

end Plan
end Cutover
