import Cutover.Proofs.Scan.Page
import Cutover.Proofs.Scheduler.Supervision

/-! # What a scan counts

A scan counts the differences that it has published, of each kind as many as the channel has
accepted (`Tally.Accounts`).  This holds at the end of every pass, whatever the stores and the
channel reply, whichever of them fail, and wherever in the pass the token is cancelled.

The token may be cancelled in front of any reply, and stays so (`Plan.heeding`).  A scan notices by
the first request that yields to it, and then comes to an end with what it has counted: it only
fails by a reply that it has got while the token was not cancelled (`Plan.ensures_pass_counted`).
-/

namespace Cutover

open Dialogue Sql

namespace Tally

/-- How many differences of a kind have been counted. -/
def reported (t : Tally) : EventKind → Nat
  | .targetMissing => t.targetMissing
  | .baseMissing => t.baseMissing
  | .notEqual => t.notEqual

/-- The differences that have been counted are those of the events. -/
def Accounts (t : Tally) (es : List Event) : Prop :=
  ∀ kind, t.reported kind = es.countP fun e => e.kind = kind

theorem accounts_nil : ({} : Tally).Accounts [] := by
  intro kind
  cases kind <;> rfl

variable {t t' : Tally} {es es' : List Event}

theorem Accounts.scan (h : t.Accounts es) : t.scan.Accounts es := by
  intro kind
  rw [← h kind]
  cases kind <;> rfl

theorem Accounts.fail (h : t.Accounts es) : t.fail.Accounts es := by
  intro kind
  rw [← h kind]
  cases kind <;> rfl

theorem Accounts.report (h : t.Accounts es) (e : Event) :
    (t.report e.kind).Accounts (es ++ [e]) := by
  intro kind
  rw [List.countP_append, ← h kind, List.countP_singleton]
  obtain ⟨id, k, d⟩ := e
  cases k <;> cases kind <;> simp [Tally.report, reported]

theorem Accounts.add (h : t.Accounts es) (h' : t'.Accounts es') :
    (t + t').Accounts (es ++ es') := by
  intro kind
  rw [List.countP_append, ← h kind, ← h' kind]
  cases kind <;> rfl

theorem Accounts.perm (h : t.Accounts es) (hperm : es.Perm es') : t.Accounts es' := by
  intro kind
  rw [h kind, hperm.countP_eq]

end Tally

/-- What one scan knows: whether it has noticed that the token is cancelled, and what the channel
has accepted of its events. -/
structure Account where
  cancelled : Bool := false
  events : List Event := []

namespace Plan

variable (p : Plan) (stores : Supervision.Replies)

/-- A scan may be held at a request, and the token be cancelled there.  The look at the load is no
such place, unless all is in order with the page that follows it. -/
def HeldAt (r : Scanning.Request) : Prop := r = .loaded → IsName p.sort

instance decidableHeldAt (r : Scanning.Request) : Decidable (p.HeldAt r) :=
  inferInstanceAs (Decidable (r = .loaded → IsName p.sort))

/-- How the requests of a scan are answered while the token may be cancelled in front of any
reply. -/
def heeding : Surroundings Scanning Account := fun a r reply a' =>
  ∃ cancelled, (a.cancelled = true → cancelled = true) ∧ Scanning.Heeds cancelled r reply ∧
    (cancelled = false → stores r reply) ∧ (p.HeldAt r → a'.cancelled = cancelled) ∧
    (¬p.HeldAt r → a'.cancelled = a.cancelled) ∧ a'.events = a.events ++ r.accepted reply

/-- Every row of a page has an integer identity and an integer under the column that orders the
scan. -/
def Readable : Prop :=
  ∀ way cursor st rows, p.pageStatement cursor (way == .backward) = .ok st →
    stores (.query (p.paged way) st) (some (.ok rows)) → ∀ r ∈ rows, ∃ c, p.cursorOf r = .ok c

/-- What a pass comes to: what it has counted is what was accepted, and it does not fail once the
scan has noticed that the token is cancelled. -/
def Counted : Verdict → Account → Prop
  | .again s, a => s.tally.Accounts a.events
  | .finished t, a => t.Accounts a.events
  | .failed _, a => a.cancelled = false

variable {p stores} {a : Account} {t : Tally}

/-- The pages of tables that hold integers where a scan needs them are readable. -/
theorem readable_undisturbed {tables : Side → Table} (hs : IsName p.sort)
    (hscans : ∀ way, p.Scans (tables (p.paged way))) :
    p.Readable (Scanning.Undisturbed tables) := by
  intro way cursor st rows hst hreply r hr
  obtain ⟨st', hst', hanswer⟩ := (hscans way).answeredRows_page hs cursor (way == .backward)
  obtain rfl := Except.ok.inj (hst'.symm.trans hst)
  obtain rfl := Except.ok.inj ((Option.some.inj hreply).trans hanswer)
  obtain ⟨stored, hstored, rfl⟩ := List.mem_map.mp hr
  exact ⟨_, (hscans way).cursorOf_shownRow _ (mem_pageRows hstored).1⟩

/-! ## Single requests -/

theorem ensures_isCancelled_counted :
    isCancelled.Ensures (p.heeding stores)
      (fun stop a' => a'.events = a.events ∧ (stop = false → a'.cancelled = false)) a := by
  rintro reply a' ⟨cancelled, -, hheeds, -, hheld, -, hevents⟩
  refine ⟨hevents.trans (List.append_nil _), fun hstop => ?_⟩
  rw [hheld nofun, ← hstop]
  exact hheeds.symm

theorem ensures_rest_counted (d : Duration) :
    (rest d).Ensures (p.heeding stores)
      (fun slept a' => a'.events = a.events ∧ (slept = true → a'.cancelled = false)) a := by
  rintro reply a' ⟨cancelled, -, hheeds, -, hheld, -, hevents⟩
  refine ⟨hevents.trans (List.append_nil _), fun hslept => ?_⟩
  rw [hheld nofun]
  have hsome : Option.isSome reply = true := hslept
  cases reply with
  | none => cases hsome
  | some u => exact hheeds.symm

/-- Behind the rest for a high load a page can be asked for, or the token was not cancelled. -/
theorem ensures_throttle_counted (ha : a.cancelled = false) :
    p.throttle.Ensures (p.heeding stores)
      (fun goOn a' => a'.events = a.events ∧
        (goOn = true → IsName p.sort ∨ a'.cancelled = false)) a := by
  unfold throttle
  cases p.loadPause with
  | none => exact ⟨rfl, fun _ => .inr ha⟩
  | some d =>
    rintro loaded a' ⟨cancelled, -, -, -, -, hfree, hevents⟩
    have hsame : a'.events = a.events := hevents.trans (List.append_nil _)
    cases loaded with
    | true =>
      refine (ensures_rest_counted d).mono fun slept a'' hslept => ?_
      exact ⟨hslept.1.trans hsame, fun hgo => .inr (hslept.2 hgo)⟩
    | false =>
      refine ⟨hsame, fun _ => ?_⟩
      by_cases hname : IsName p.sort
      · exact .inl hname
      · exact .inr ((hfree fun hheld => hname (hheld rfl)).trans ha)

/-- A query that is answered has met a token that is not cancelled. -/
theorem ensures_query_counted (on : Side) (st : Statement) :
    (askScanning (.query on st)).Ensures (p.heeding stores)
      (fun reply a' => a'.events = a.events ∧ ∀ result, reply = some result →
        a'.cancelled = false ∧ stores (.query on st) (some result)) a := by
  rintro reply a' ⟨cancelled, -, hheeds, hstores, hheld, -, hevents⟩
  refine ⟨hevents.trans (List.append_nil _), ?_⟩
  rintro result rfl
  have hfree : cancelled = false := hheeds.symm
  exact ⟨(hheld nofun).trans hfree, hstores hfree⟩

theorem ensures_queryRow_counted (on : Side) (st : Statement) :
    (askScanning (.queryRow on st)).Ensures (p.heeding stores)
      (fun _ a' => a'.events = a.events) a := by
  rintro reply a' ⟨cancelled, -, -, -, -, -, hevents⟩
  exact hevents.trans (List.append_nil _)

/-- A difference is counted when the channel has accepted its event. -/
theorem ensures_emit_counted (id : Int64) (kind : EventKind) (ht : t.Accounts a.events) :
    (p.emit id kind t).Ensures (p.heeding stores) (fun t' a' => t'.Accounts a'.events) a := by
  rintro reply a' ⟨cancelled, -, -, -, -, -, hevents⟩
  match reply with
  | none =>
    show t.Accounts a'.events
    rw [hevents]
    exact (List.append_nil a.events).symm ▸ ht
  | some (.error e) =>
    show t.fail.Accounts a'.events
    rw [hevents]
    exact (List.append_nil a.events).symm ▸ ht.fail
  | some (.ok u) =>
    show (t.report kind).Accounts a'.events
    rw [hevents]
    exact ht.report ⟨id, kind, p.direction⟩

/-! ## Pages -/

theorem ensures_onFailure_counted (e : StoreError) {s : Progress} (hs : s.tally.Accounts a.events)
    (ha : a.cancelled = false) : (p.onFailure e s).Ensures (p.heeding stores) Counted a := by
  unfold onFailure
  split
  · exact ha
  · refine (ensures_rest_counted _).bind fun slept a' hslept => ?_
    have hcounted : s.tally.fail.Accounts a'.events := hslept.1 ▸ hs.fail
    split <;> exact hcounted

theorem ensures_afterPage_counted (length : Nat) {s : Progress} (hs : s.tally.Accounts a.events) :
    (p.afterPage length s).Ensures (p.heeding stores) Counted a := by
  unfold afterPage
  split
  · split
    · exact hs
    · refine (ensures_rest_counted _).bind fun slept a' hslept => ?_
      have hcounted : s.tally.Accounts a'.events := hslept.1 ▸ hs
      split <;> exact hcounted
  · exact hs

theorem ensures_compareRow_counted (row : Row) (ht : t.Accounts a.events) :
    (p.compareRow row t).Ensures (p.heeding stores) (fun t' a' => t'.Accounts a'.events) a := by
  unfold compareRow
  split
  · exact ht.fail
  · refine (ensures_queryRow_counted _ _).bind fun found a' hevents => ?_
    have ht' : t.Accounts a'.events := hevents ▸ ht
    split
    · exact ht'
    · exact ht'.fail
    · split
      · exact ht'.fail
      · exact ht'
      · exact ensures_emit_counted _ _ ht'

/-- The rows of a page are compared to the end of the page or until the token is cancelled. -/
theorem ensures_compareRows_counted {rows : List Row}
    (hrows : ∀ r ∈ rows, ∃ c, p.cursorOf r = .ok c) {s : Progress}
    (hs : s.tally.Accounts a.events) : (p.compareRows rows s).Ensures (p.heeding stores)
      (fun pageEnd a' => match pageEnd with
        | .stopped t => t.Accounts a'.events
        | .failed _ => False
        | .through s => s.tally.Accounts a'.events) a := by
  induction rows generalizing s a with
  | nil => exact hs
  | cons r rows ih =>
    refine ensures_isCancelled_counted.bind fun stop a' hstop => ?_
    have hs' : s.tally.Accounts a'.events := hstop.1 ▸ hs
    split
    · exact hs'
    · obtain ⟨c, hc⟩ := hrows r List.mem_cons_self
      rw [hc]
      refine (ensures_compareRow_counted r hs'.scan).bind fun t a'' ht => ?_
      exact ih (fun r' hr' => hrows r' (List.mem_cons_of_mem r hr')) ht

theorem ensures_reportAbsent_counted (present ids : List Int64) (ht : t.Accounts a.events) :
    (p.reportAbsent present ids t).Ensures (p.heeding stores)
      (fun looked a' => looked.1.Accounts a'.events) a := by
  induction ids generalizing t a with
  | nil => exact ht
  | cons id ids ih =>
    refine ensures_isCancelled_counted.bind fun stop a' hstop => ?_
    have ht' : t.Accounts a'.events := hstop.1 ▸ ht
    split
    · exact ht'
    · split
      · exact ih ht'.scan
      · exact (ensures_emit_counted _ _ ht'.scan).bind fun t' a'' ht'' => ih ht''

theorem ensures_forwardPage_counted (hreadable : p.Readable stores) {s : Progress}
    (hs : s.tally.Accounts a.events) (ha : IsName p.sort ∨ a.cancelled = false) :
    (p.forwardPage s).Ensures (p.heeding stores) Counted a := by
  unfold forwardPage
  split
  · rename_i e hpage
    -- only a name that is none keeps a page from being asked for
    exact ha.resolve_left fun hname => nomatch (pageStatement_eq hname _ _).symm.trans hpage
  · rename_i st hpage
    refine (ensures_query_counted p.base st).bind fun reply a' hreply => ?_
    obtain ⟨hevents, hfree⟩ := hreply
    have hs' : s.tally.Accounts a'.events := hevents ▸ hs
    split
    · exact hs'
    · exact ensures_onFailure_counted _ hs' (hfree _ rfl).1
    · rename_i rows
      have hrows := hreadable .forward s.cursor st rows hpage (hfree _ rfl).2
      refine (ensures_compareRows_counted hrows hs').bind fun pageEnd a'' hend => ?_
      split
      · exact hend
      · exact hend.elim
      · exact ensures_afterPage_counted _ hend

theorem ensures_compareIds_counted (length : Nat) (cursors : List Cursor) {s : Progress}
    (hs : s.tally.Accounts a.events) :
    (p.compareIds length cursors s).Ensures (p.heeding stores) Counted a := by
  refine (ensures_query_counted _ _).bind fun reply a' hreply => ?_
  obtain ⟨hevents, hfree⟩ := hreply
  have hs' : s.tally.Accounts a'.events := hevents ▸ hs
  split
  · exact hs'
  · exact ensures_onFailure_counted _ hs' (hfree _ rfl).1
  · refine (ensures_reportAbsent_counted _ _ hs').bind ?_
    rintro ⟨tally, complete⟩ a'' hlooked
    cases complete with
    | true => exact ensures_afterPage_counted _ hlooked
    | false => exact hlooked

theorem exists_cursors {rows : List Row} (hrows : ∀ r ∈ rows, ∃ c, p.cursorOf r = .ok c) :
    ∃ cursors, rows.mapM p.cursorOf = .ok cursors := by
  refine ⟨_, mapM_eq_ok (g := fun r => (p.cursorOf r).toOption.getD ⟨0, 0⟩) fun r hr => ?_⟩
  obtain ⟨c, hc⟩ := hrows r hr
  rw [hc]
  rfl

theorem ensures_backwardPage_counted (hreadable : p.Readable stores) {s : Progress}
    (hs : s.tally.Accounts a.events) (ha : IsName p.sort ∨ a.cancelled = false) :
    (p.backwardPage s).Ensures (p.heeding stores) Counted a := by
  unfold backwardPage
  split
  · rename_i e hpage
    exact ha.resolve_left fun hname => nomatch (pageStatement_eq hname _ _).symm.trans hpage
  · rename_i st hpage
    refine (ensures_query_counted p.target st).bind fun reply a' hreply => ?_
    obtain ⟨hevents, hfree⟩ := hreply
    have hs' : s.tally.Accounts a'.events := hevents ▸ hs
    split
    · exact hs'
    · exact ensures_onFailure_counted _ hs' (hfree _ rfl).1
    · exact ensures_afterPage_counted _ hs'
    · rename_i rows _
      have hrows := hreadable .backward s.cursor st rows hpage (hfree _ rfl).2
      obtain ⟨cursors, hcursors⟩ := exists_cursors hrows
      rw [hcursors]
      exact ensures_compareIds_counted _ _ hs'

/-- **What a pass has counted is what was accepted, and it does not fail once the token is
cancelled.** -/
theorem ensures_pass_counted (hreadable : p.Readable stores) (way : Way) {s : Progress}
    (hs : s.tally.Accounts a.events) : (p.pass way s).Ensures (p.heeding stores) Counted a := by
  refine ensures_isCancelled_counted.bind fun stop a₁ hstop => ?_
  have hs₁ : s.tally.Accounts a₁.events := hstop.1 ▸ hs
  split
  · exact hs₁
  · rename_i hgo
    refine (ensures_throttle_counted (hstop.2 (Bool.eq_false_of_not_eq_true hgo))).bind
      fun goOn a₂ h₂ => ?_
    have hs₂ : s.tally.Accounts a₂.events := h₂.1 ▸ hs₁
    split
    · rename_i hgoOn
      cases way with
      | forward => exact ensures_forwardPage_counted hreadable hs₂ (h₂.2 hgoOn)
      | backward => exact ensures_backwardPage_counted hreadable hs₂ (h₂.2 hgoOn)
    · exact hs₂

end Plan
end Cutover
