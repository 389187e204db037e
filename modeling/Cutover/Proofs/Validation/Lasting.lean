import Cutover.Proofs.Validation.Cancellation

/-! # An incremental validation lasts

An incremental validation is to go on until it is cancelled.  Whatever the stores and the channel
reply, a scan comes to rest and begins a pass again; there is one thing that ends it, and with it
the whole validation: a row on a page that has no integer under the identity or under the column of
the order (`Plan.Stumbles`).  A row of which only the comparison fails is counted and passed over,
but behind this one the scan would not know where to go on.

So a validation whose token is not cancelled can only have ended with the error of such a row
(`Oversight.ends_by_cancellation_or_row`), and it does end so (`Oversight.ends_by_row`).
-/

namespace Cutover

open Dialogue Sql

namespace Plan

variable (p : Plan) (stores : Supervision.Replies)

/-- A page may bring a row without a place in the order of the scan, and this error with it. -/
def Stumbles (e : StoreError) : Prop :=
  ∃ way cursor st rows row, p.pageStatement cursor (way == .backward) = .ok st ∧
    stores (.query (p.paged way) st) (some (.ok rows)) ∧ row ∈ rows ∧ p.cursorOf row = .error e

/-- How the requests of a scan are answered while the token is not cancelled. -/
def steady : Surroundings Scanning Unit := fun _ r reply _ =>
  Scanning.Heeds false r reply ∧ stores r reply

/-- What a pass comes to: another pass follows, or a row was met that has no place. -/
def Lasts : Verdict → Unit → Prop
  | .again _, _ => True
  | .finished _, _ => False
  | .failed e, _ => p.Stumbles stores e

variable {p stores}

/-! ## Single requests -/

theorem ensures_isCancelled_steady :
    isCancelled.Ensures (steady stores) (fun stop _ => stop = false) () :=
  fun _ _ h => h.1

theorem ensures_rest_steady (d : Duration) :
    (rest d).Ensures (steady stores) (fun slept _ => slept = true) () := by
  rintro reply - ⟨hheeds, -⟩
  cases reply with
  | none => cases hheeds
  | some u => rfl

theorem ensures_throttle_steady :
    p.throttle.Ensures (steady stores) (fun goOn _ => goOn = true) () := by
  unfold throttle
  cases p.loadPause with
  | none => rfl
  | some d =>
    rintro loaded - -
    cases loaded with
    | true => exact ensures_rest_steady d
    | false => rfl

theorem ensures_query_steady (on : Side) (st : Statement) :
    (askScanning (.query on st)).Ensures (steady stores)
      (fun reply _ => ∃ result, reply = some result ∧ stores (.query on st) (some result)) () := by
  rintro reply - ⟨hheeds, hstores⟩
  cases reply with
  | none => cases hheeds
  | some result => exact ⟨result, rfl, hstores⟩

/-! ## Pages -/

section
variable (hincremental : p.isFull = false)
include hincremental

theorem ensures_onFailure_steady (e : StoreError) (s : Progress) :
    (p.onFailure e s).Ensures (steady stores) (p.Lasts stores) () := by
  rw [onFailure, hincremental]
  refine (ensures_rest_steady p.interval).bind ?_
  rintro slept - rfl
  trivial

theorem ensures_afterPage_steady (length : Nat) (s : Progress) :
    (p.afterPage length s).Ensures (steady stores) (p.Lasts stores) () := by
  rw [afterPage, hincremental]
  split
  · refine (ensures_rest_steady p.interval).bind ?_
    rintro slept - rfl
    trivial
  · trivial

omit hincremental in
/-- The rows of a page are compared to the end of the page, or up to one without a place. -/
theorem ensures_compareRows_steady (rows : List Row) (s : Progress) :
    (p.compareRows rows s).Ensures (steady stores)
      (fun pageEnd _ => match pageEnd with
        | .stopped _ => False
        | .failed e => ∃ row ∈ rows, p.cursorOf row = .error e
        | .through _ => True) () := by
  induction rows generalizing s with
  | nil => trivial
  | cons row rows ih =>
    refine ensures_isCancelled_steady.bind ?_
    rintro stop - rfl
    rw [if_neg Bool.false_ne_true]
    cases hplace : p.cursorOf row with
    | error e => exact ⟨row, List.mem_cons_self, hplace⟩
    | ok c =>
      refine Ensures.bind (.of_forall (Q := fun _ _ => True) (fun _ _ => trivial) _ ()) fun t _ _ =>
        ?_
      refine (ih ⟨t, some c⟩).mono fun pageEnd _ hend => ?_
      cases pageEnd with
      | stopped t => exact hend
      | failed e =>
        obtain ⟨row', hrow', he⟩ := hend
        exact ⟨row', List.mem_cons_of_mem row hrow', he⟩
      | through s => trivial

theorem ensures_forwardPage_steady (hs : IsName p.sort) (s : Progress) :
    (p.forwardPage s).Ensures (steady stores) (p.Lasts stores) () := by
  have hpage := pageStatement_eq (p := p) hs s.cursor false
  rw [forwardPage, hpage]
  refine (ensures_query_steady p.base _).bind ?_
  rintro - - ⟨result, rfl, hreply⟩
  cases result with
  | error e => exact ensures_onFailure_steady hincremental e s
  | ok rows =>
    refine (ensures_compareRows_steady rows s).bind fun pageEnd _ hend => ?_
    cases pageEnd with
    | stopped t => exact hend.elim
    | failed e =>
      obtain ⟨row, hrow, he⟩ := hend
      exact ⟨.forward, s.cursor, _, rows, row, hpage, hreply, hrow, he⟩
    | through s => exact ensures_afterPage_steady hincremental rows.length s

omit hincremental in
/-- All identities of a page are looked at. -/
theorem ensures_reportAbsent_steady (present ids : List Int64) (t : Tally) :
    (p.reportAbsent present ids t).Ensures (steady stores)
      (fun looked _ => looked.2 = true) () := by
  induction ids generalizing t with
  | nil => rfl
  | cons id ids ih =>
    refine ensures_isCancelled_steady.bind ?_
    rintro stop - rfl
    rw [if_neg Bool.false_ne_true]
    split
    · exact ih t.scan
    · exact Ensures.bind (.of_forall (Q := fun _ _ => True) (fun _ _ => trivial) _ ()) fun t _ _ =>
        ih t

theorem ensures_compareIds_steady (length : Nat) (cursors : List Cursor) (s : Progress) :
    (p.compareIds length cursors s).Ensures (steady stores) (p.Lasts stores) () := by
  refine (ensures_query_steady p.base _).bind ?_
  rintro - - ⟨result, rfl, -⟩
  cases result with
  | error e => exact ensures_onFailure_steady hincremental e s
  | ok rows =>
    refine (ensures_reportAbsent_steady _ _ s.tally).bind ?_
    rintro ⟨t, complete⟩ - rfl
    exact ensures_afterPage_steady hincremental length _

omit hincremental in
/-- If not all rows have a place, one of them has not. -/
theorem exists_row_of_mapM {rows : List Row} {e : StoreError}
    (h : rows.mapM p.cursorOf = .error e) : ∃ row ∈ rows, p.cursorOf row = .error e := by
  induction rows with
  | nil => cases h
  | cons row rows ih =>
    rw [List.mapM_cons] at h
    cases hplace : p.cursorOf row with
    | error e' =>
      rw [hplace] at h
      cases h
      exact ⟨row, List.mem_cons_self, hplace⟩
    | ok c =>
      rw [hplace] at h
      cases hrest : rows.mapM p.cursorOf with
      | error e' =>
        rw [hrest] at h
        cases h
        obtain ⟨row', hrow', he⟩ := ih hrest
        exact ⟨row', List.mem_cons_of_mem row hrow', he⟩
      | ok cs =>
        rw [hrest] at h
        cases h

theorem ensures_backwardPage_steady (hs : IsName p.sort) (s : Progress) :
    (p.backwardPage s).Ensures (steady stores) (p.Lasts stores) () := by
  have hpage := pageStatement_eq (p := p) hs s.cursor true
  rw [backwardPage, hpage]
  refine (ensures_query_steady p.target _).bind ?_
  rintro - - ⟨result, rfl, hreply⟩
  cases result with
  | error e => exact ensures_onFailure_steady hincremental e s
  | ok rows =>
    cases rows with
    | nil => exact ensures_afterPage_steady hincremental 0 s
    | cons r rows =>
      cases hplaces : (r :: rows).mapM p.cursorOf with
      | error e =>
        simp only [hplaces]
        obtain ⟨row, hrow, he⟩ := exists_row_of_mapM hplaces
        exact ⟨.backward, s.cursor, _, r :: rows, row, hpage, hreply, hrow, he⟩
      | ok cursors =>
        simp only [hplaces]
        exact ensures_compareIds_steady hincremental _ cursors s

/-- **A pass is followed by another, or has met a row without a place.** -/
theorem ensures_pass_steady (hs : IsName p.sort) (way : Way) (s : Progress) :
    (p.pass way s).Ensures (steady stores) (p.Lasts stores) () := by
  refine ensures_isCancelled_steady.bind ?_
  rintro stop - rfl
  refine ensures_throttle_steady.bind ?_
  rintro goOn - rfl
  cases way with
  | forward => exact ensures_forwardPage_steady hincremental hs s
  | backward => exact ensures_backwardPage_steady hincremental hs s

end
end Plan

/-! ## The end of a validation -/

namespace Oversight

variable {p : Plan} {stores : Supervision.Replies} {v v' w : Validating Oversight}

/-- The scan of a way goes on from pass to pass, or has met a row without a place. -/
def Lasting (p : Plan) (stores : Supervision.Replies) (v : Validating Oversight) (way : Way) :
    Prop :=
  (p.scan way).Promises (Plan.steady stores) (fun _ _ => True)
    (fun r _ => ∃ e, r = .error e ∧ p.Stumbles stores e) (v.scanner way) ()

/-- A token that is not cancelled was not cancelled before. -/
theorem Step.free_before (h : Step p stores v v') (hfree : v'.shared.cancelled = false) :
    v.shared.cancelled = false := by
  by_contra hcancelled
  rw [h.cancelled_of_cancelled (Bool.eq_true_of_not_eq_false hcancelled)] at hfree
  cases hfree

/-- A step of a scan that is not cancelled is one that it may take by itself. -/
theorem steady_step {way : Way} {s s' : Oversight} {c c' : Scanner}
    (h : (p.scan way).Step (gives stores way) (s, c) (s', c')) (hfree : s.cancelled = false) :
    (p.scan way).Step (Plan.steady stores) ((), c) ((), c') := by
  cases h with
  | rounded _ verdict => exact .rounded () verdict
  | answered hg =>
    obtain ⟨hheeds, hreplies, -⟩ := hg
    rw [hfree] at hheeds
    exact .answered ⟨hheeds, (hreplies hfree).1⟩

section
variable (hs : IsName p.sort) (hincremental : p.isFull = false)
include hs hincremental

theorem pass_lasts (way : Way) (s : Progress) :
    ((p.scan way).round s).Ensures (Plan.steady stores)
      ((p.scan way).Turns (fun _ _ => True) fun r _ => ∃ e, r = .error e ∧ p.Stumbles stores e)
        () := by
  refine (Plan.ensures_pass_steady hincremental hs way s).mono fun verdict _ h => ?_
  cases verdict with
  | again g => trivial
  | finished t => exact h.elim
  | failed e => exact ⟨e, rfl, h⟩

/-- **Every step keeps the scans going** while the token is not cancelled. -/
theorem Step.lasting (h : Step p stores v v') (hv : ∀ way, Lasting p stores v way)
    (hfree : v'.shared.cancelled = false) (way : Way) : Lasting p stores v' way := by
  have hbefore := h.free_before hfree
  cases h with
  | cancelled _ => cases hfree
  | begun _ _ _ _ _ => exact hv way
  | scanned hstep =>
    obtain ⟨other, hscan, hscanners⟩ := hstep.exists_scan
    by_cases hw : way = other
    · subst hw
      exact (hv way).step (fun s _ _ => pass_lasts hs hincremental way s)
        (steady_step hscan hbefore)
    · rw [Lasting, hscanners way hw]
      exact hv way

theorem Reaches.lasting (h : Reaches p stores (Validating.start p {}) w)
    (hfree : w.shared.cancelled = false) (way : Way) : Lasting p stores w way := by
  induction h generalizing way with
  | refl => exact pass_lasts hs hincremental way {}
  | tail _ hstep ih => exact hstep.lasting hs hincremental (ih (hstep.free_before hfree)) hfree way

/-- **An incremental validation ends by its cancellation**, or with the error of a row on a page
that has no place in the order of the scan.  Whatever else the stores and the channel reply, it does
not return, neither with a tally nor with an error. -/
theorem ends_by_cancellation_or_row (h : Reaches p stores (Validating.start p {}) w)
    {r : Except StoreError Tally} (hover : w.outcome? = some r) :
    w.shared.cancelled = true ∨ ∃ e, r = .error e ∧ p.Stumbles stores e := by
  cases hfree : w.shared.cancelled with
  | true => exact .inl rfl
  | false =>
    refine .inr ?_
    have hended : ∀ way outcome, w.scanner way = .ended outcome →
        ∃ e, outcome = .error e ∧ p.Stumbles stores e := by
      intro way outcome hway
      have hlasting := h.lasting hs hincremental hfree way
      rw [Lasting, hway] at hlasting
      exact hlasting
    unfold Validating.outcome? at hover
    split at hover
    · obtain rfl := Option.some.inj hover
      exact hended .forward _ ‹_›
    · obtain rfl := Option.some.inj hover
      exact hended .backward _ ‹_›
    · obtain ⟨e, he, -⟩ := hended .forward _ ‹_›
      cases he
    · cases hover

end

/-- An incremental validation in the order of the times. -/
def lastingPlan : Plan where
  base := .src
  target := .dst
  direction := .src
  table := .items
  sort := "utime"
  batch := 2
  batch_pos := Nat.two_pos
  interval := .ofMillis 10

/-- Tables of which one holds a row whose time is no integer. -/
def oddTables : Side → Table
  | .src => ⟨"items", "id", ["id", "name", "utime"], [[.int 1, .text "a", .text "oops"]]⟩
  | .dst => ⟨"items", "id", ["id", "name", "utime"], []⟩

/-- The validation after its forward scan has met this row. -/
def metOddRow : Validating Oversight :=
  (goOn lastingPlan oddTables .forward)^[5] (Validating.start lastingPlan {})

theorem ends_by_cancellation_or_row_sample :
    (IsName lastingPlan.sort ∧ lastingPlan.isFull = false ∧
      Reaches lastingPlan (Scanning.Undisturbed oddTables)
        (Validating.start lastingPlan {}) metOddRow ∧
      metOddRow.outcome? = some (.error (.decode (.notInteger "utime")))) ∧
    (metOddRow.shared.cancelled = true ∨ ∃ e, (.error (.decode (.notInteger "utime"))) =
      (.error e : Except StoreError Tally) ∧
        lastingPlan.Stumbles (Scanning.Undisturbed oddTables) e) := by
  have hs : IsName lastingPlan.sort := by decide
  have hrun : Reaches lastingPlan (Scanning.Undisturbed oddTables) (Validating.start lastingPlan {})
      metOddRow := reaches_iterate_goOn .forward rfl 5
  have hover : metOddRow.outcome? = some (.error (.decode (.notInteger "utime"))) := by
    decide +kernel
  exact ⟨⟨hs, rfl, hrun, hover⟩, ends_by_cancellation_or_row hs rfl hrun hover⟩

/-- **An incremental validation ends without a cancellation** when it meets such a row. -/
theorem ends_by_row :
    IsName lastingPlan.sort ∧ lastingPlan.isFull = false ∧
      ∃ w, Reaches lastingPlan (Scanning.Undisturbed oddTables) (Validating.start lastingPlan {})
        w ∧ w.shared.cancelled = false ∧
        w.outcome? = some (.error (.decode (.notInteger "utime"))) :=
  ⟨by decide, rfl, metOddRow, reaches_iterate_goOn .forward rfl 5, by decide +kernel,
    by decide +kernel⟩

end Oversight
end Cutover
