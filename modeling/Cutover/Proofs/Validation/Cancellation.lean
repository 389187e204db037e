import Cutover.Proofs.Validation.Counting
import Cutover.Proofs.Validation.Publishing
import Cutover.Proofs.Validation.Report

/-! # A cancelled validation

The token of a validation may be cancelled at any moment: between any two requests of either scan,
and while a scan waits for a store, for the channel or for a rest to end (`Oversight.Step`).  A call
of a store is begun some time before it is answered; one that is waited for when the token is
cancelled has no answer any more, and one that has not been begun by then never is.  The channel
takes an event and answers at once.

From then on nothing happens that can be seen from outside (`Oversight.Step.quiet`).  Each scan
notices by its next request and ends with what it has counted, so that the validation comes to an
end and returns the counts of what was published before (`Oversight.cancellation_is_final`).
-/

namespace Cutover

open Dialogue Sql

/-- Whether a request is a call of a store. -/
def Scanning.Request.isCall : Scanning.Request → Bool
  | .query .. | .queryRow .. | .awaited (.query ..) | .awaited (.queryRow ..) => true
  | _ => false

/-- What is seen of a validation from outside: whether its token is cancelled, whether the call that
a scan waits for has been begun, the calls that have been begun, and the events that were
accepted. -/
structure Oversight where
  cancelled : Bool := false
  waiting : Way → Bool := fun _ => false
  begun : List (Way × Scanning.Request) := []
  published : Scanning.Record := []

namespace Oversight

variable (p : Plan) (stores : Supervision.Replies)

/-- The token is cancelled. -/
def cancel (v : Validating Oversight) : Validating Oversight :=
  { v with shared := { v.shared with cancelled := true } }

/-- How the requests of a scan are answered: as the token has it, and a call of a store only when it
has been begun.  What the stores and the channel reply otherwise is left open. -/
def gives (way : Way) : Surroundings Scanning Oversight := fun s r reply s' =>
  Scanning.Heeds s.cancelled r reply ∧
    (s.cancelled = false → stores r reply ∧ (r.isCall = true → s.waiting way = true)) ∧
    s' = { s with
      waiting := Function.update s.waiting way false
      published := s.published ++ (r.accepted reply).map (way, ·) }

/-- A step: the token is cancelled, a scan begins the call that it is at, or a scan goes on. -/
inductive Step : Validating Oversight → Validating Oversight → Prop where
  | cancelled {v : Validating Oversight} : v.shared.cancelled = false → Step v (cancel v)
  | begun {v : Validating Oversight} {way : Way} {r : Scanning.Request}
      {next : Scanning.Reply r → Dialogue Scanning Verdict} : v.outcome? = none →
      v.shared.cancelled = false → v.scanner way = .running (.ask (I := Scanning) r next) →
      r.isCall = true → v.shared.waiting way = false →
      Step v { v with shared := { v.shared with
        waiting := Function.update v.shared.waiting way true
        begun := v.shared.begun ++ [(way, r)] } }
  | scanned {v v' : Validating Oversight} : Validating.Step p (gives stores) v v' → Step v v'

/-- A run: any number of steps. -/
abbrev Reaches : Validating Oversight → Validating Oversight → Prop :=
  Relation.ReflTransGen (Step p stores)

variable {p stores} {v v' w : Validating Oversight}

/-! ## Nothing happens any more -/

/-- Once the token is cancelled it stays so. -/
theorem Step.cancelled_of_cancelled (h : Step p stores v v') (hv : v.shared.cancelled = true) :
    v'.shared.cancelled = true := by
  cases h with
  | cancelled _ => rfl
  | begun _ _ _ _ _ => exact hv
  | scanned hstep =>
    obtain ⟨way, -, hscan⟩ := hstep
    generalize v.scanner way = c at hscan
    cases hscan with
    | rounded _ _ => exact hv
    | answered hg =>
      obtain ⟨-, -, rfl⟩ := hg
      exact hv

theorem Reaches.cancelled_of_cancelled (h : Reaches p stores v w) (hv : v.shared.cancelled = true) :
    w.shared.cancelled = true := by
  induction h with
  | refl => exact hv
  | tail _ hstep ih => exact hstep.cancelled_of_cancelled ih

/-- All that the scans have still to ask for yields to a cancellation. -/
def Yields (p : Plan) (v : Validating Oversight) : Prop :=
  ∀ way, (p.scan way).Asks Scanning.Request.Yields (v.scanner way)

theorem yields_start : Yields p (Validating.start p {}) := Plan.scan_yields

theorem Step.yields (h : Step p stores v v') (hv : Yields p v) : Yields p v' := by
  cases h with
  | cancelled _ | begun _ _ _ _ _ => exact hv
  | scanned hstep => exact Plan.asks_step hv hstep

theorem Reaches.yields (h : Reaches p stores v w) (hv : Yields p v) : Yields p w := by
  induction h with
  | refl => exact hv
  | tail _ hstep ih => exact hstep.yields ih

/-- Once the token is cancelled no call is begun and no event is accepted. -/
theorem Step.quiet (h : Step p stores v v') (hyields : Yields p v)
    (hv : v.shared.cancelled = true) :
    v'.shared.begun = v.shared.begun ∧ v'.shared.published = v.shared.published := by
  cases h with
  | cancelled hfree | begun _ hfree _ _ _ =>
    rw [hv] at hfree
    cases hfree
  | scanned hstep =>
    obtain ⟨way, -, hscan⟩ := hstep
    have hown := hyields way
    generalize v.scanner way = c at hscan hown
    cases hscan with
    | rounded _ _ => exact ⟨rfl, rfl⟩
    | answered hg =>
      obtain ⟨hheeds, -, rfl⟩ := hg
      rw [hv] at hheeds
      refine ⟨rfl, ?_⟩
      show v.shared.published ++ _ = _
      rw [Scanning.accepted_of_cancelled hown.1.1 hheeds]
      exact List.append_nil _

theorem Reaches.quiet (h : Reaches p stores v w) (hyields : Yields p v)
    (hv : v.shared.cancelled = true) :
    w.shared.begun = v.shared.begun ∧ w.shared.published = v.shared.published := by
  induction h with
  | refl => exact ⟨rfl, rfl⟩
  | tail hrun hstep ih =>
    obtain ⟨hbegun, hpublished⟩ :=
      hstep.quiet (Reaches.yields hrun hyields) (Reaches.cancelled_of_cancelled hrun hv)
    exact ⟨hbegun.trans ih.1, hpublished.trans ih.2⟩

/-! ## What the scans have counted -/

/-- A scan has not failed.  One that is about to look at the load is as good as failed if there is
no way to ask for the page behind it: unless the load is high nothing is waited for in between. -/
def GoesOn (p : Plan) : Scanner → Prop
  | .running (.ask r _) => p.HeldAt r
  | .running (.done (.failed _)) => False
  | .running (.done _) => True
  | .ended (.ok _) => True
  | .ended (.error _) => False

instance decidableGoesOn (p : Plan) : (c : Scanner) → Decidable (GoesOn p c)
  | .running (.ask r _) => p.decidableHeldAt r
  | .running (.done (.failed _)) => isFalse id
  | .running (.done (.again _)) => isTrue trivial
  | .running (.done (.finished _)) => isTrue trivial
  | .ended (.ok _) => isTrue trivial
  | .ended (.error _) => isFalse id

/-- What a scan returns: what was accepted of its events, counted, or an error that it has come to
before it noticed a cancellation. -/
def Tells : Except StoreError Tally → Account → Prop
  | .ok t, a => t.Accounts a.events
  | .error _, a => a.cancelled = false

/-- What the scan of a way knows goes together with what is seen of the validation, and it will come
to an end at which it has counted what was accepted of its events. -/
structure Kept (p : Plan) (stores : Supervision.Replies) (v : Validating Oversight) (way : Way)
    (a : Account) : Prop where
  noticed : a.cancelled = true → v.shared.cancelled = true
  events : a.events = v.shared.published.own way
  promised : (p.scan way).Promises (p.heeding stores) (fun s a => s.tally.Accounts a.events) Tells
    (v.scanner way) a

/-- A pass that begins has counted what it should when it is over. -/
theorem pass_counts (hreadable : p.Readable stores) (way : Way) (s : Progress) (a : Account)
    (hs : s.tally.Accounts a.events) :
    ((p.scan way).round s).Ensures (p.heeding stores)
      ((p.scan way).Turns (fun s a => s.tally.Accounts a.events) Tells) a := by
  refine (Plan.ensures_pass_counted hreadable way hs).mono fun verdict a' h => ?_
  cases verdict <;> exact h

theorem kept_start (hreadable : p.Readable stores) (way : Way) :
    Kept p stores (Validating.start p {}) way {} :=
  ⟨nofun, rfl, pass_counts hreadable way {} {} Tally.accounts_nil⟩

theorem goesOn_start (way : Way) (s : Progress) : GoesOn p ((p.scan way).start s) :=
  (nofun : p.HeldAt .cancelled)

section
variable {way : Way} {s s' : Oversight} {c c' : Scanner}

/-- A step of a scan leaves the token and the events of the other scan as they are. -/
theorem scan_step_others (h : (p.scan way).Step (gives stores way) (s, c) (s', c')) :
    s'.cancelled = s.cancelled ∧
      ∀ other ≠ way, Scanning.Record.own other s'.published = s.published.own other := by
  cases h with
  | rounded _ _ => exact ⟨rfl, fun _ _ => rfl⟩
  | answered hg =>
    obtain ⟨-, -, rfl⟩ := hg
    exact ⟨rfl, fun other hne => Scanning.Record.own_append_other hne s.published _⟩

/-- **A step of a scan is one that it may take by what it knows.**  After the token is cancelled it
goes on, or it has noticed. -/
theorem scan_step_own (h : (p.scan way).Step (gives stores way) (s, c) (s', c')) {a : Account}
    (hnoticed : a.cancelled = true → s.cancelled = true)
    (hevents : a.events = s.published.own way) :
    ∃ a', (p.scan way).Step (p.heeding stores) (a, c) (a', c') ∧
      (a'.cancelled = true → s'.cancelled = true) ∧ a'.events = s'.published.own way ∧
      (s.cancelled = true → a.cancelled = true ∨ GoesOn p c → a'.cancelled = true ∨
        GoesOn p c') := by
  cases h with
  | rounded _ verdict =>
    refine ⟨a, .rounded a verdict, hnoticed, hevents, fun _ hgo => hgo.imp_right fun hverdict => ?_⟩
    cases verdict with
    | again g => exact goesOn_start way g
    | finished t => trivial
    | failed e => exact hverdict.elim
  | @answered _ _ r next reply hg =>
    obtain ⟨hheeds, hfree, rfl⟩ := hg
    have hown : a.events ++ r.accepted reply =
        Scanning.Record.own way (s.published ++ (r.accepted reply).map (way, ·)) := by
      rw [hevents, Scanning.Record.own_append_self]
    by_cases hheld : p.HeldAt r
    · exact ⟨⟨s.cancelled, a.events ++ r.accepted reply⟩,
        .answered ⟨s.cancelled, hnoticed, hheeds, fun hs => (hfree hs).1, fun _ => rfl,
          fun hnot => absurd hheld hnot, rfl⟩, id, hown, fun hs _ => .inl hs⟩
    · refine ⟨⟨a.cancelled, a.events ++ r.accepted reply⟩,
        .answered ⟨s.cancelled, hnoticed, hheeds, fun hs => (hfree hs).1, fun hyes =>
          absurd hyes hheld, fun _ => rfl, rfl⟩, hnoticed, hown, fun _ hgo => ?_⟩
      exact .inl (hgo.resolve_right hheld)

end

/-- Every step keeps what goes together, and a scan that goes on when the token is cancelled does so
until it notices. -/
theorem Kept.step (hreadable : p.Readable stores) {way : Way} {a : Account}
    (h : Kept p stores v way a) (hstep : Step p stores v v') :
    ∃ a', Kept p stores v' way a' ∧ (v.shared.cancelled = true →
      a.cancelled = true ∨ GoesOn p (v.scanner way) → a'.cancelled = true ∨
      GoesOn p (v'.scanner way)) := by
  cases hstep with
  | cancelled _ => exact ⟨a, ⟨fun _ => rfl, h.events, h.promised⟩, fun _ hgo => hgo⟩
  | begun _ _ _ _ _ => exact ⟨a, ⟨h.noticed, h.events, h.promised⟩, fun _ hgo => hgo⟩
  | scanned hstep =>
    obtain ⟨other, hscan, hscanners⟩ := hstep.exists_scan
    by_cases hw : way = other
    · subst hw
      obtain ⟨a', hown, hnoticed, hevents, hgo⟩ := scan_step_own hscan h.noticed h.events
      exact ⟨a', ⟨hnoticed, hevents, h.promised.step (pass_counts hreadable way) hown⟩, hgo⟩
    · obtain ⟨hcancelled, hothers⟩ := scan_step_others hscan
      rw [hscanners way hw]
      refine ⟨a, ⟨fun ha => hcancelled.trans (h.noticed ha), h.events.trans (hothers way hw).symm,
        ?_⟩, fun _ hgo => hgo⟩
      rw [hscanners way hw]
      exact h.promised

theorem Kept.reaches (hreadable : p.Readable stores) {way : Way} {a : Account}
    (h : Kept p stores v way a) (hrun : Reaches p stores v w) :
    ∃ a', Kept p stores w way a' ∧ (v.shared.cancelled = true →
      a.cancelled = true ∨ GoesOn p (v.scanner way) → a'.cancelled = true ∨
      GoesOn p (w.scanner way)) := by
  induction hrun with
  | refl => exact ⟨a, h, fun _ hgo => hgo⟩
  | tail hrun hstep ih =>
    obtain ⟨a₁, h₁, hgo₁⟩ := ih
    obtain ⟨a₂, h₂, hgo₂⟩ := h₁.step hreadable hstep
    exact ⟨a₂, h₂, fun hv hgo => hgo₂ (Reaches.cancelled_of_cancelled hrun hv) (hgo₁ hv hgo)⟩

/-- What goes together still does when the token is cancelled. -/
theorem Kept.cancel {way : Way} {a : Account} (h : Kept p stores v way a) :
    Kept p stores (cancel v) way a :=
  ⟨fun _ => rfl, h.events, h.promised⟩

/-! ## The end -/

/-- Surroundings in which all yields to the cancellation. -/
def yielding : Surroundings Scanning Unit := fun _ r reply _ => Scanning.Heeds true r reply

/-- A scan that notices the cancellation before a pass is over by that. -/
theorem acc_start (way : Way) (g : Progress) :
    Acc (fun a b => (p.scan way).Step yielding b a) ((), (p.scan way).start g) := by
  refine Loop.acc_running (ensures_request_bind.mpr ?_)
  rintro stop s hstop
  obtain rfl : stop = true := hstop
  exact Loop.acc_ended s _

/-- A scan goes on to the end of its pass at most, and notices before the next one. -/
theorem acc_scanner (way : Way) (c : Scanner) :
    Acc (fun a b => (p.scan way).Step yielding b a) ((), c) := by
  cases c with
  | ended r => exact Loop.acc_ended () r
  | running d =>
    refine Loop.acc_running (.of_forall (fun verdict s => ?_) d ())
    cases verdict with
    | again g => exact acc_start way g
    | finished t => exact Loop.acc_ended s _
    | failed e => exact Loop.acc_ended s _

/-- After the token is cancelled there are only steps of the scans, and all yields to the
cancellation. -/
theorem Step.exists_scan (h : Step p stores v v') (hv : v.shared.cancelled = true) :
    ∃ way c', (p.scan way).Step yielding ((), v.scanner way) ((), c') ∧
      v'.scanner = Function.update v.scanner way c' := by
  cases h with
  | cancelled hfree | begun _ hfree _ _ _ =>
    rw [hv] at hfree
    cases hfree
  | scanned hstep =>
    cases hstep with
    | @scan s' c' way _ hscan =>
      refine ⟨way, c', ?_, rfl⟩
      generalize v.scanner way = c at hscan
      cases hscan with
      | rounded _ verdict => exact .rounded () verdict
      | answered hg =>
        have hheeds := hg.1
        rw [hv] at hheeds
        exact .answered hheeds

/-- After the token is cancelled no run is infinite. -/
theorem acc_of_cancelled (hv : v.shared.cancelled = true) :
    Acc (fun a b => Step p stores b a) v := by
  have hboth := (acc_scanner (p := p) .forward (v.scanner .forward)).prod_gameAdd
    (acc_scanner (p := p) .backward (v.scanner .backward))
  generalize hx : (((), v.scanner .forward), ((), v.scanner .backward)) = x at hboth
  induction hboth generalizing v with
  | intro x _ ih =>
    subst hx
    refine .intro _ fun w hstep => ?_
    refine ih _ ?_ (hstep.cancelled_of_cancelled hv) rfl
    obtain ⟨way, c', hscan, hscanner⟩ := hstep.exists_scan hv
    rw [hscanner]
    cases way with
    | forward => exact .fst hscan
    | backward => exact .snd hscan

/-- Whatever a scan is at, it can go on. -/
theorem exists_heeds (r : Scanning.Request) : ∃ reply, Scanning.Heeds true r reply := by
  cases r with
  | cancelled => exact ⟨true, rfl⟩
  | loaded => exact ⟨false, trivial⟩
  | guarded c => exact ⟨none, rfl⟩
  | awaited c =>
    cases c with
    | query on s => exact ⟨.ok [], trivial⟩
    | queryRow on s => exact ⟨.ok none, trivial⟩
    | publish e => exact ⟨.ok (), trivial⟩
    | rest d => exact ⟨(), trivial⟩

theorem exists_step (hv : v.shared.cancelled = true) (hopen : v.outcome? = none) {way : Way}
    {d : Dialogue Scanning Verdict} (hd : v.scanner way = .running d) :
    ∃ v', Step p stores v v' := by
  have hscan : ∃ x, (p.scan way).Step (gives stores way) (v.shared, v.scanner way) x := by
    rw [hd]
    cases d with
    | done verdict => exact ⟨_, .rounded _ verdict⟩
    | ask r next =>
      obtain ⟨reply, hreply⟩ := exists_heeds r
      refine ⟨_, .answered ⟨hv ▸ hreply, fun hfree => ?_, rfl⟩⟩
      rw [hv] at hfree
      cases hfree
  obtain ⟨⟨s', c'⟩, hscan⟩ := hscan
  exact ⟨_, .scanned (.scan way hopen hscan)⟩

/-- **A validation whose scans go on or have noticed is over with the counts of what was published,
or can go on.** -/
theorem exists_step_or_accounts (hv : v.shared.cancelled = true)
    (hkept : ∀ way, ∃ a, Kept p stores v way a ∧ (a.cancelled = true ∨ GoesOn p (v.scanner way))) :
    (∃ v', Step p stores v v') ∨ ∃ tally, v.outcome? = some (.ok tally) ∧
      tally.Accounts (v.shared.published.map (·.2)) := by
  have hends : ∀ way outcome, v.scanner way = .ended outcome →
      ∃ t, outcome = .ok t ∧ t.Accounts (v.shared.published.own way) := by
    intro way outcome hover
    obtain ⟨a, ⟨-, hevents, hpromised⟩, hgo⟩ := hkept way
    rw [hover] at hpromised hgo
    cases outcome with
    | ok t => exact ⟨t, rfl, hevents ▸ hpromised⟩
    | error e =>
      -- an error was come to before the scan noticed, and this one has not come to one
      have hfree : a.cancelled = false := hpromised
      rw [hfree] at hgo
      exact hgo.elim nofun False.elim
  rcases Validating.outcome_of_ends hends with ⟨hopen, way, d, hd⟩ | ⟨f, b, houtcome, hf, hb⟩
  · exact .inl (exists_step hv hopen hd)
  · exact .inr ⟨f + b, houtcome, (hf.add hb).perm v.shared.published.perm_own.symm⟩

/-- **Cancellation is final.**  Let a validation have come to any point whatever, its scans in the
middle of anything, and let its token be cancelled there.  From then on no call of a store is begun
and no event is accepted.  If the rows of the pages have integers where the scan needs them, and no
scan had failed, then no run is infinite, and one that cannot go on has ended with a tally that
counts, of each kind, the events that were published before. -/
theorem cancellation_is_final {u : Validating Oversight}
    (hu : Reaches p stores (Validating.start p {}) u) :
    (∀ w, Reaches p stores (cancel u) w →
      w.shared.begun = u.shared.begun ∧ w.shared.published = u.shared.published) ∧
    (p.Readable stores → (∀ way, GoesOn p (u.scanner way)) →
      Ends (Step p stores) (fun w => ∃ tally, w.outcome? = some (.ok tally) ∧
        tally.Accounts (u.shared.published.map (·.2))) (cancel u)) := by
  have hyields : Yields p u := Reaches.yields hu yields_start
  have hquiet : ∀ w, Reaches p stores (cancel u) w →
      w.shared.begun = u.shared.begun ∧ w.shared.published = u.shared.published :=
    fun w hw => Reaches.quiet (v := cancel u) hw hyields rfl
  refine ⟨hquiet, fun hreadable hgoes => ⟨acc_of_cancelled rfl, fun w hw => ?_⟩⟩
  have hcancelled := Reaches.cancelled_of_cancelled hw rfl
  have hkept : ∀ way, ∃ a, Kept p stores w way a ∧
      (a.cancelled = true ∨ GoesOn p (w.scanner way)) := by
    intro way
    obtain ⟨a, ha, -⟩ := (kept_start hreadable way).reaches hreadable hu
    obtain ⟨a', ha', hgo⟩ := ha.cancel.reaches hreadable hw
    exact ⟨a', ha', hgo rfl (.inr (hgoes way))⟩
  exact (hquiet w hw).2 ▸ exists_step_or_accounts hcancelled hkept

/-! ## A validation that is cancelled in the middle of a call -/

/-- What a validation comes to by one step for the scan of a way, on tables that stay as they are:
the call it is at is begun, or it goes on. -/
def goOn (p : Plan) (tables : Side → Table) (way : Way) (v : Validating Oversight) :
    Validating Oversight :=
  match v.outcome?, v.scanner way with
  | none, .running (.done verdict) =>
    ⟨v.shared, Function.update v.scanner way ((p.scan way).next verdict)⟩
  | none, .running (.ask r next) =>
    if Scanning.Request.isCall r = true ∧ v.shared.waiting way = false then
      { v with shared := { v.shared with
        waiting := Function.update v.shared.waiting way true
        begun := v.shared.begun ++ [(⟨way, r⟩ : Way × Scanning.Request)] } }
    else
      ⟨{ v.shared with
        waiting := Function.update v.shared.waiting way false
        published := v.shared.published ++
          (Scanning.Request.accepted r (Scanning.replies tables r)).map (way, ·) },
        Function.update v.scanner way (.running (next (Scanning.replies tables r)))⟩
  | _, _ => v

section
variable {tables : Side → Table} (way : Way) (hfree : v.shared.cancelled = false)
include hfree

theorem reaches_goOn : Reaches p (Scanning.Undisturbed tables) v (goOn p tables way v) := by
  unfold goOn
  split
  · rename_i verdict hopen hd
    refine .single (.scanned (.scan way hopen ?_))
    rw [hd]
    exact .rounded _ verdict
  · rename_i r next hopen hd
    split
    · rename_i hcall
      exact .single (.begun hopen hfree hd hcall.1 hcall.2)
    · rename_i hnot
      refine .single (.scanned (.scan way hopen ?_))
      rw [hd]
      refine .answered ⟨hfree ▸ Scanning.heeds_replies tables r, fun _ => ?_, rfl⟩
      exact ⟨Scanning.undisturbed_replies tables r,
        fun hcall => Bool.eq_true_of_not_eq_false fun hwaits => hnot ⟨hcall, hwaits⟩⟩
  · exact .refl

theorem cancelled_goOn : (goOn p tables way v).shared.cancelled = false := by
  unfold goOn
  split
  · exact hfree
  · split <;> exact hfree
  · exact hfree

/-- A validation that is not cancelled may go on for any number of steps. -/
theorem reaches_iterate_goOn (k : Nat) :
    Reaches p (Scanning.Undisturbed tables) v ((goOn p tables way)^[k] v) := by
  induction k generalizing v with
  | zero => exact .refl
  | succ k ih => exact (reaches_goOn way hfree).trans (ih (cancelled_goOn way hfree))

end

/-- Tables of which one holds a row that the other lacks. -/
def absentInTarget : Side → Table
  | .src => ⟨"items", "id", ["id", "name", "utime"], [[.int 2, .text "a", .int 5]]⟩
  | .dst => ⟨"items", "id", ["id", "name", "utime"], []⟩

/-- A full validation whose forward scan has published an event and begun to ask for its second
page. -/
def pageBegun : Validating Oversight :=
  (goOn Plan.fullPlan absentInTarget .forward)^[10] (Validating.start Plan.fullPlan {})

theorem cancellation_is_final_sample :
    ((pageBegun.shared.waiting .forward = true ∧
        pageBegun.shared.published = [(.forward, ⟨2, .targetMissing, .src⟩)]) ∧
      Reaches Plan.fullPlan (Scanning.Undisturbed absentInTarget)
        (Validating.start Plan.fullPlan {}) pageBegun ∧
      Plan.fullPlan.Readable (Scanning.Undisturbed absentInTarget) ∧
      ∀ way, GoesOn Plan.fullPlan (pageBegun.scanner way)) ∧
    (∀ w, Reaches Plan.fullPlan (Scanning.Undisturbed absentInTarget) (cancel pageBegun) w →
      w.shared.begun = pageBegun.shared.begun ∧ w.shared.published = pageBegun.shared.published) ∧
    Ends (Step Plan.fullPlan (Scanning.Undisturbed absentInTarget))
      (fun w => ∃ tally, w.outcome? = some (.ok tally) ∧
        tally.Accounts (pageBegun.shared.published.map (·.2))) (cancel pageBegun) := by
  have hrun : Reaches Plan.fullPlan (Scanning.Undisturbed absentInTarget)
      (Validating.start Plan.fullPlan {}) pageBegun := reaches_iterate_goOn .forward rfl 10
  have hreadable : Plan.fullPlan.Readable (Scanning.Undisturbed absentInTarget) := by
    refine Plan.readable_undisturbed (by decide) fun way => ?_
    cases way <;> decide +kernel
  have hgoes : ∀ way, GoesOn Plan.fullPlan (pageBegun.scanner way) := by
    intro way
    cases way <;> decide +kernel
  obtain ⟨hquiet, hends⟩ := cancellation_is_final hrun
  exact ⟨⟨by decide +kernel, hrun, hreadable, hgoes⟩, hquiet, hends hreadable hgoes⟩

end Oversight
end Cutover
