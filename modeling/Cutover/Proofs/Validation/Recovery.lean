import Cutover.Proofs.Validation.Cancellation
import Cutover.Proofs.Validation.Faults

/-! # A validation in which calls fail

In an incremental validation of tables that stay as they are calls may fail, up to some number:
queries for a page of either scan, and queries for the identities of a page.  The scans go on side
by side, each in its own time, until the token is cancelled (`Trial.Step`).

What is noted of a scan in such a run is what it may have come to by itself (`Trial.Kept`), so of
each scan the passes say what it has published.  The failures of one scan leave fewer for the other,
and that is all that the two have in common.  As long as a scan has not come to the end of the data
each pass brings it nearer, by a row or by a failure that is not to come any more, and at the end it
has published all that is due (`Trial.faults_lose_and_repeat_nothing`).
-/

namespace Cutover

open Dialogue Sql
open Scanning (Notes Meets)

namespace Scanning

/-! ## Answers -/

theorem Meets.mono {tables : Side → Table} {mayFail mayFail' : Prop} (himp : mayFail → mayFail')
    {cancelled : Bool} {r : Scanning.Request} {reply : Scanning.Reply r}
    (h : Meets tables mayFail cancelled r reply) : Meets tables mayFail' cancelled r reply := by
  cases h with
  | answered hreply => exact .answered hreply
  | failed on s e hfails => exact .failed on s e (himp hfails)
  | cut hheeds => exact .cut hheeds

theorem exists_meets (tables : Side → Table) (mayFail : Prop) (cancelled : Bool)
    (r : Scanning.Request) : ∃ reply, Meets tables mayFail cancelled r reply := by
  cases cancelled with
  | false =>
    obtain ⟨reply, hreply⟩ := exists_undisturbed tables r
    exact ⟨reply, .answered hreply⟩
  | true =>
    obtain ⟨reply, hreply⟩ := Oversight.exists_heeds r
    exact ⟨reply, .cut hreply⟩

namespace Notes

/-! ## What stays -/

/-- Nothing is taken back. -/
structure Extends (a a' : Notes) : Prop where
  events : a.events <+: a'.events
  ended : ∀ es ∈ a.ended, a'.ended = some es

/-- A scan that came to the end had published no more by then than it has now. -/
def Held (a : Notes) : Prop := ∀ es ∈ a.ended, es <+: a.events

variable {a a' a'' : Notes}

theorem Extends.refl (a : Notes) : a.Extends a := ⟨List.prefix_refl _, fun _ hes => hes⟩

theorem Extends.trans (h : a.Extends a') (h' : a'.Extends a'') : a.Extends a'' where
  events := h.events.trans h'.events
  ended es hes := h'.ended es (h.ended es hes)

theorem Held.rest (h : a.Held) (batch : Nat) : (a.rest batch).Held := by
  intro es hes
  dsimp only [Notes.rest] at hes
  split at hes
  · obtain rfl := Option.some.inj hes
    exact List.prefix_refl _
  · exact h es hes

end Notes
end Scanning

namespace Plan

variable {p : Plan} {tables : Side → Table} {faults : Nat} {way : Way} {a : Notes}

/-- What is kept by all that may come about is kept by a reply. -/
theorem note_keeps {K : Notes → Prop} (hnotice : ∀ a, K a → K a.notice)
    (hpublish : ∀ a es, K a → K (a.publish es)) (hfail : ∀ a, K a → K a.fail)
    (hread : ∀ a length, K a → K (a.read length)) (hrest : ∀ a batch, K a → K (a.rest batch))
    (ha : K a) (r : Scanning.Request) (reply : Scanning.Reply r) : K (p.note way a r reply) := by
  match r, reply with
  | .cancelled, true | .query _ _, none | .queryRow _ _, none | .publish _, none =>
    exact hnotice a ha
  | .cancelled, false | .loaded, _ | .awaited _, _ => exact ha
  | .queryRow _ _, some _ | .publish _, some (.error _) => exact ha
  | .query on _, some (.ok rows) =>
    dsimp only [note]
    split
    · exact hread a rows.length ha
    · exact ha
  | .query _ _, some (.error _) => exact hfail a ha
  | .publish e, some (.ok _) => exact hpublish a [e] ha
  | .rest _, some _ => exact hrest a p.batch ha
  | .rest _, none => exact hnotice _ (hrest a p.batch ha)

theorem extends_note (r : Scanning.Request) (reply : Scanning.Reply r) :
    a.Extends (p.note way a r reply) := by
  refine note_keeps (fun a' h => ⟨h.events, h.ended⟩) (fun a' es h => ?_) (fun a' h =>
    ⟨h.events, h.ended⟩)
    (fun a' length h => ⟨h.events, h.ended⟩) (fun a' batch h => ?_) (.refl a) r reply
  · exact ⟨h.events.trans (List.prefix_append _ _), h.ended⟩
  · exact ⟨h.events, fun es hes => by simp [Notes.rest, h.ended es hes]⟩

theorem held_note (h : a.Held) (r : Scanning.Request) (reply : Scanning.Reply r) :
    (p.note way a r reply).Held :=
  note_keeps (fun _ h => h) (fun _ _ h es hes => (h es hes).trans (List.prefix_append _ _))
    (fun _ h => h)
    (fun _ _ h => h) (fun _ batch h => h.rest batch) h r reply

/-- A scan notices nothing by a reply of the tables. -/
theorem noticed_note_answered {r : Scanning.Request} {reply : Scanning.Reply r}
    (h : Scanning.Undisturbed tables r reply) : (p.note way a r reply).noticed = a.noticed := by
  cases r with
  | cancelled =>
    cases h
    rfl
  | loaded | awaited c => rfl
  | guarded c =>
    obtain rfl := h
    cases c with
    | publish e | rest d | queryRow on s => rfl
    | query on s =>
      dsimp only [Scanning.Call.answered]
      cases (tables on).answeredRows s with
      | error e => rfl
      | ok rows =>
        dsimp only [note]
        split <;> rfl

/-- A scan notices nothing but a cancellation. -/
theorem noticed_note {mayFail : Prop} {cancelled : Bool} {r : Scanning.Request}
    {reply : Scanning.Reply r} (h : Meets tables mayFail cancelled r reply)
    (ha : a.noticed = true → cancelled = true)
    (hnoticed : (p.note way a r reply).noticed = true) : cancelled = true := by
  cases h with
  | answered hreply => exact ha ((noticed_note_answered hreply).symm.trans hnoticed)
  | failed on s e hfails => exact ha hnoticed
  | cut hheeds => rfl

end Plan

/-- What is noted of a validation: whether its token is cancelled, and what each of its scans has
come to. -/
structure Trial where
  cancelled : Bool := false
  notes : Way → Notes := fun _ => {}

namespace Trial

/-- What both scans have published. -/
def published (s : Trial) : List Event := (s.notes .forward).events ++ (s.notes .backward).events

/-- How many calls have failed. -/
def failed (s : Trial) : Nat := (s.notes .forward).failed + (s.notes .backward).failed

/-- Both scans have come to the end of the data. -/
def AtEnd (s : Trial) : Prop := ∀ way, (s.notes way).ended ≠ none

variable (p : Plan) (tables : Side → Table) (faults : Nat)

/-- How the requests of a scan are answered: as a cancelled token has it, or by the tables, or by a
failure while there are more to come. -/
def gives (way : Way) : Surroundings Scanning Trial := fun s r reply s' =>
  Meets tables (s.failed < faults) s.cancelled r reply ∧
    s' = { s with notes := Function.update s.notes way (p.note way (s.notes way) r reply) }

/-- A step: the token is cancelled, or a scan goes on. -/
inductive Step : Validating Trial → Validating Trial → Prop where
  | cancelled {v : Validating Trial} : v.shared.cancelled = false →
      Step v { v with shared := { v.shared with cancelled := true } }
  | scanned {v v' : Validating Trial} : Validating.Step p (gives p tables faults) v v' → Step v v'

/-- A run: any number of steps. -/
abbrev Reaches : Validating Trial → Validating Trial → Prop :=
  Relation.ReflTransGen (Step p tables faults)

variable {p tables faults} {v v' w : Validating Trial}

/-! ## Each scan by itself -/

/-- A scan is over: it has noticed the cancellation, and counted the failed calls. -/
def IsOver (p : Plan) (tables : Side → Table) (way : Way) (r : Except StoreError Tally)
    (a : Notes) : Prop :=
  ∃ t, r = .ok t ∧ p.Accurate tables way t a ∧ a.noticed = true

/-- What is noted of a scan goes together with the token, and is what the scan may come to by
itself. -/
structure Kept (p : Plan) (tables : Side → Table) (faults : Nat) (v : Validating Trial)
    (way : Way) : Prop where
  noticed : (v.shared.notes way).noticed = true → v.shared.cancelled = true
  held : (v.shared.notes way).Held
  promised : (p.scan way).Promises (p.trying tables faults way) (p.Resumes tables way)
    (IsOver p tables way) (v.scanner way) (v.shared.notes way)

/-- Fewer calls of one scan have failed than of both. -/
theorem failed_le (s : Trial) (way : Way) : (s.notes way).failed ≤ s.failed := by
  unfold failed
  cases way <;> omega

/-- A step of a scan is one that it may take by itself, and leaves what is noted of the other. -/
theorem scan_step_own {way : Way} {s s' : Trial} {c c' : Scanner}
    (h : (p.scan way).Step (gives p tables faults way) (s, c) (s', c'))
    (hnoticed : (s.notes way).noticed = true → s.cancelled = true) (hheld : (s.notes way).Held) :
    (p.scan way).Step (p.trying tables faults way) (s.notes way, c) (s'.notes way, c') ∧
      ((s'.notes way).noticed = true → s'.cancelled = true) ∧ (s'.notes way).Held ∧
      s'.cancelled = s.cancelled ∧ ∀ other ≠ way, s'.notes other = s.notes other := by
  cases h with
  | rounded _ verdict => exact ⟨.rounded _ verdict, hnoticed, hheld, rfl, fun _ _ => rfl⟩
  | answered hg =>
    obtain ⟨hmeets, rfl⟩ := hg
    have hmay : s.failed < faults → (s.notes way).failed < faults := (failed_le s way).trans_lt
    dsimp only
    rw [Function.update_self]
    exact ⟨.answered ⟨⟨s.cancelled, hnoticed, hmeets.mono hmay⟩, rfl⟩,
      Plan.noticed_note hmeets hnoticed, Plan.held_note hheld _ _, rfl, fun other hne =>
        Function.update_of_ne hne _ _⟩

section
variable (hs : IsName p.sort) (hincremental : p.isFull = false) (hsides : p.base ≠ p.target)
  (hbase : p.Scans (tables p.base)) (htarget : p.Scans (tables p.target))

include hs hincremental hsides hbase htarget

/-- A pass that may begin is followed by another, or by the end of the scan. -/
theorem pass_resumes (way : Way) (g : Progress) (a : Notes) (h : p.Resumes tables way g a) :
    ((p.scan way).round g).Ensures (p.trying tables faults way)
      ((p.scan way).Turns (p.Resumes tables way) (IsOver p tables way)) a := by
  refine (Plan.ensures_pass_tried hs hincremental hbase htarget hsides way h).mono
    fun verdict a' hv => ?_
  cases verdict with
  | again g' => exact hv.1
  | finished t => exact ⟨t, rfl, hv⟩
  | failed e => exact hv.elim

theorem kept_start (way : Way) : Kept p tables faults (Validating.start p {}) way where
  noticed := nofun
  held := nofun
  promised := pass_resumes hs hincremental hsides hbase htarget way {} {} Plan.resumes_start

/-- **Every step keeps what each scan may come to by itself.** -/
theorem Step.kept (h : Step p tables faults v v') (hv : ∀ way, Kept p tables faults v way)
    (way : Way) : Kept p tables faults v' way := by
  cases h with
  | cancelled _ => exact ⟨fun _ => rfl, (hv way).held, (hv way).promised⟩
  | scanned hstep =>
    obtain ⟨other, hscan, hscanners⟩ := hstep.exists_scan
    obtain ⟨hown, hnoticed, hheld, hcancelled, hothers⟩ :=
      scan_step_own hscan (hv other).noticed (hv other).held
    by_cases hw : way = other
    · subst hw
      exact ⟨hnoticed, hheld,
        (hv way).promised.step (pass_resumes hs hincremental hsides hbase htarget way) hown⟩
    · have hnotes := hothers way hw
      constructor
      case noticed => exact fun h => hcancelled.trans ((hv way).noticed (hnotes ▸ h))
      case held => exact hnotes.symm ▸ (hv way).held
      case promised =>
        rw [hscanners way hw, hnotes]
        exact (hv way).promised

theorem Reaches.kept (h : Reaches p tables faults (Validating.start p {}) v) (way : Way) :
    Kept p tables faults v way := by
  induction h generalizing way with
  | refl => exact kept_start hs hincremental hsides hbase htarget way
  | tail _ hstep ih => exact hstep.kept hs hincremental hsides hbase htarget ih way

end

/-! ## What has been published -/

/-- **In the middle of anything a scan has published no more than what is due, and all of it once it
has come to the end.**  It may go on to the end of its pass, and does not take back what it has
published. -/
theorem Kept.published {way : Way} (h : Kept p tables faults v way) :
    (v.shared.notes way).events <+: p.due tables way ∧
      ∀ es ∈ (v.shared.notes way).ended, es = p.due tables way ∧
        (v.shared.notes way).events = p.due tables way := by
  obtain ⟨t, a, hcounted, hextends⟩ : ∃ t a, p.Accurate tables way t a ∧
      (v.shared.notes way).Extends a := by
    have hpromised := h.promised
    cases hc : v.scanner way with
    | ended r =>
      rw [hc] at hpromised
      obtain ⟨t, -, hcounted, -⟩ := hpromised
      exact ⟨t, _, hcounted, .refl _⟩
    | running d =>
      rw [hc] at hpromised
      have hround : d.Ensures (p.trying tables faults way)
        ((p.scan way).Turns (p.Resumes tables way) (IsOver p tables way)) (v.shared.notes way) :=
          hpromised
      have hanswer : ∀ (a : Notes) (r : Scanning.Request), (v.shared.notes way).Extends a →
          ∃ reply a', p.trying tables faults way a r reply a' ∧
          (v.shared.notes way).Extends a' := by
        intro a r ha
        obtain ⟨reply, hreply⟩ := Scanning.exists_meets tables (a.failed < faults) a.noticed r
        exact ⟨reply, _, ⟨⟨a.noticed, id, hreply⟩, rfl⟩, ha.trans (Plan.extends_note r reply)⟩
      obtain ⟨verdict, a, hturn, hextends⟩ := hround.exists_end hanswer (.refl _)
      cases verdict with
      | again g => exact ⟨g.tally, a, Plan.Resumes.toAccurate hturn, hextends⟩
      | finished t =>
        obtain ⟨t', -, hcounted, -⟩ := hturn
        exact ⟨t', a, hcounted, hextends⟩
      | failed e =>
        obtain ⟨t', -, hcounted, -⟩ := hturn
        exact ⟨t', a, hcounted, hextends⟩
  have hpart := hextends.events.trans hcounted.part
  refine ⟨hpart, fun es hes => ?_⟩
  have hall := hcounted.ended es (hextends.ended es hes)
  refine ⟨hall, hpart.eq_of_length_le ?_⟩
  rw [← hall]
  exact (h.held es hes).length_le

/-- At the end of the data both scans have published all that is due. -/
theorem published_of_atEnd (h : ∀ way, Kept p tables faults v way) (hend : v.shared.AtEnd) :
    v.shared.published = p.due tables .forward ++ p.due tables .backward := by
  have hall : ∀ way, (v.shared.notes way).events = p.due tables way := by
    intro way
    obtain ⟨es, hes⟩ := Option.ne_none_iff_exists'.mp (hend way)
    exact ((h way).published.2 es hes).2
  rw [published, hall, hall]

/-- A validation that is over returns a tally that has counted the failed calls. -/
theorem errors_of_outcome (h : ∀ way, Kept p tables faults v way) {r : Except StoreError Tally}
    (hover : v.outcome? = some r) : ∃ t, r = .ok t ∧ t.errors = v.shared.failed := by
  have hends : ∀ way outcome, v.scanner way = .ended outcome →
      ∃ t : Tally, outcome = .ok t ∧ t.errors = (v.shared.notes way).failed := by
    intro way outcome hway
    have hpromised := (h way).promised
    rw [hway] at hpromised
    obtain ⟨t, rfl, hcounted, -⟩ := hpromised
    exact ⟨t, rfl, hcounted.errors⟩
  rcases Validating.outcome_of_ends hends with ⟨hopen, -⟩ | ⟨f, b, houtcome, hf, hb⟩
  · exact absurd (hopen.symm.trans hover) nofun
  · obtain rfl := Option.some.inj (houtcome.symm.trans hover)
    exact ⟨f + b, rfl, congrArg₂ (· + ·) hf hb⟩

/-! ## Identities -/

/-- A scan has no two events for one identity to publish. -/
theorem nodup_due {way : Way} (h : p.Scans (p.scanned tables way)) :
    ((p.due tables way).map (·.id)).Nodup := by
  have hids : ((p.visiting (p.scanned tables way)).map
      ((p.scanned tables way).idOf p.table)).Nodup :=
    ((List.mergeSort_perm _ _).map _).nodup_iff.mpr ((List.filter_sublist.map _).nodup h.nodup_ids)
  rw [List.Nodup, List.pairwise_map] at hids ⊢
  refine List.Pairwise.filterMap _ ?_ hids
  intro r r' hne e he e' he'
  obtain ⟨k, -, rfl⟩ := Option.map_eq_some_iff.mp he
  obtain ⟨k', -, rfl⟩ := Option.map_eq_some_iff.mp he'
  simpa only [Plan.id_finding] using hne

/-- What the forward scan has to publish is of rows of the base, and what the backward scan has to
publish is of identities that the base does not have. -/
theorem due_ne {e e' : Event} (he : e ∈ p.due tables .forward) (he' : e' ∈ p.due tables .backward) :
    e.id ≠ e'.id := by
  obtain ⟨r, hr, he⟩ := List.mem_filterMap.mp he
  obtain ⟨r', -, he'⟩ := List.mem_filterMap.mp he'
  obtain ⟨k, -, rfl⟩ := Option.map_eq_some_iff.mp he
  obtain ⟨k', hk', rfl⟩ := Option.map_eq_some_iff.mp he'
  have hkind : p.backwardKind tables ((tables p.target).idOf p.table r') = some k' := hk'
  have habsent : (tables p.base).lookup p.table ((tables p.target).idOf p.table r') = none := by
    cases hlookup : (tables p.base).lookup p.table ((tables p.target).idOf p.table r') with
    | none => rfl
    | some row =>
      rw [Plan.backwardKind, hlookup] at hkind
      cases hkind
  rw [Table.Fits.lookup_eq_none] at habsent
  intro hsame
  have hsame : (tables p.base).idOf p.table r = (tables p.target).idOf p.table r' := hsame
  exact habsent (hsame ▸ List.mem_map_of_mem (Plan.mem_visiting.mp hr).1)

/-- No identity has been published twice, neither by one scan nor by both. -/
theorem nodup_published (hbase : p.Scans (tables p.base)) (htarget : p.Scans (tables p.target))
    (h : ∀ way, Kept p tables faults v way) : (v.shared.published.map (·.id)).Nodup := by
  have hscans : ∀ way, p.Scans (p.scanned tables way) := fun way => by cases way <;> assumption
  have hnodup : ∀ way, ((v.shared.notes way).events.map (·.id)).Nodup := fun way =>
    ((h way).published.1.sublist.map _).nodup (nodup_due (hscans way))
  rw [published, List.map_append, List.nodup_append]
  refine ⟨hnodup .forward, hnodup .backward, ?_⟩
  intro id hid id' hid'
  obtain ⟨e, he, rfl⟩ := List.mem_map.mp hid
  obtain ⟨e', he', rfl⟩ := List.mem_map.mp hid'
  exact due_ne ((h .forward).published.1.mem he) ((h .backward).published.1.mem he')

/-! ## Nearer to the end -/

variable (p tables faults) in
/-- The surroundings of a scan that is not cancelled and has not come to the end of the data. -/
def seeking (way : Way) : Surroundings Scanning Trial := fun s r reply s' =>
  s.cancelled = false ∧ (s.notes way).ended = none ∧ gives p tables faults way s r reply s'

variable (p tables faults) in
/-- What is noted of a scan in such surroundings. -/
def seekingAlone (way : Way) : Surroundings Scanning Notes := fun a r reply a' =>
  a.ended = none ∧ Meets tables (a.failed < faults) false r reply ∧ a' = p.note way a r reply

variable (p tables faults) in
/-- How many passes a scan may begin on its way to the end of the data. -/
def passesLeft (way : Way) (g : Progress) (a : Notes) : Nat :=
  if a.ended = none then p.toTry tables faults way g a + 1 else 0

/-- A scan that is not cancelled does not notice that it is. -/
theorem tried_of_seeking {way : Way} (a : Notes) (r : Scanning.Request) (reply : Scanning.Reply r)
    (a' : Notes) (ha : a.noticed = false) (h : seekingAlone p tables faults way a r reply a') :
    p.trying tables faults way a r reply a' ∧ a'.noticed = false := by
  obtain ⟨-, hmeets, rfl⟩ := h
  have hfree : a.noticed = true → false = true := fun hnoticed => ha.symm.trans hnoticed
  refine ⟨⟨⟨false, hfree, hmeets⟩, rfl⟩, Bool.eq_false_of_not_eq_true fun hnoticed => ?_⟩
  exact absurd (Plan.noticed_note hmeets hfree hnoticed) Bool.false_ne_true

/-- A step of a scan in the surroundings of both is one in its own. -/
theorem seeking_step_own {way : Way} {s s' : Trial} {c c' : Scanner}
    (h : (p.scan way).Step (seeking p tables faults way) (s, c) (s', c')) :
    (p.scan way).Step (seekingAlone p tables faults way) (s.notes way, c) (s'.notes way, c') ∧
      ∀ other ≠ way, s'.notes other = s.notes other := by
  cases h with
  | rounded _ verdict => exact ⟨.rounded _ verdict, fun _ _ => rfl⟩
  | answered hg =>
    obtain ⟨hfree, hended, hmeets, rfl⟩ := hg
    rw [hfree] at hmeets
    dsimp only
    rw [Function.update_self]
    exact ⟨.answered ⟨hended, hmeets.mono (failed_le s way).trans_lt, rfl⟩,
      fun other hne => Function.update_of_ne hne _ _⟩

/-- Such a step is a step of the validation, which is not cancelled by it. -/
theorem Step.of_seeking (h : Validating.Step p (seeking p tables faults) v v') :
    Step p tables faults v v' ∧ v'.shared.cancelled = v.shared.cancelled := by
  cases h with
  | @scan s' c' way hopen hstep =>
    generalize hc : v.scanner way = c at hstep
    cases hstep with
    | rounded _ verdict => exact ⟨.scanned (.scan way hopen (hc ▸ .rounded _ verdict)), rfl⟩
    | answered hg =>
      obtain ⟨-, -, hgives⟩ := hg
      refine ⟨.scanned (.scan way hopen (hc ▸ .answered hgives)), ?_⟩
      obtain ⟨-, rfl⟩ := hgives
      rfl

section
variable (hs : IsName p.sort) (hincremental : p.isFull = false) (hsides : p.base ≠ p.target)
  (hbase : p.Scans (tables p.base)) (htarget : p.Scans (tables p.target))

include hs hincremental hsides hbase htarget

/-- **A pass brings a scan nearer to the end of the data**, as long as it is not cancelled. -/
theorem pass_seeks (way : Way) (g : Progress) (a : Notes)
    (h : p.Resumes tables way g a ∧ a.noticed = false) :
    ((p.scan way).round g).Ensures (seekingAlone p tables faults way)
      ((p.scan way).Turns
        (fun g' a' => (p.Resumes tables way g' a' ∧ a'.noticed = false) ∧
          passesLeft p tables faults way g' a' < passesLeft p tables faults way g a)
        fun r a' => IsOver p tables way r a' ∧ a'.noticed = false) a := by
  cases hended : a.ended with
  | some es =>
    -- a scan that has come to the end asks for nothing in these surroundings
    refine ensures_request_bind.mpr ?_
    rintro reply a' ⟨hnone, -⟩
    rw [hended] at hnone
    cases hnone
  | none =>
    have hpass : (p.pass way g).Ensures (seekingAlone p tables faults way) _ a :=
      (Plan.ensures_pass_tried hs hincremental hbase htarget hsides way h.1).restrict
        tried_of_seeking h.2
    refine hpass.mono ?_
    rintro verdict a' ⟨hv, hfree⟩
    cases verdict with
    | finished t => exact absurd (hfree.symm.trans hv.2) Bool.false_ne_true
    | failed e => exact hv.elim
    | again g' =>
      obtain ⟨hresumes, hnearer⟩ := hv
      refine ⟨⟨hresumes, hfree⟩, ?_⟩
      unfold passesLeft
      rw [if_pos hended]
      split
      · exact Nat.succ_lt_succ (hnearer hfree ‹_›)
      · exact Nat.succ_pos _

/-- A scan that is not cancelled comes to the end of the data by itself. -/
theorem Kept.acc {way : Way} (h : Kept p tables faults v way) (hfree : v.shared.cancelled = false) :
    Acc (fun a b => (p.scan way).Step (seekingAlone p tables faults way) b a)
      (v.shared.notes way, v.scanner way) := by
  have hunnoticed : (v.shared.notes way).noticed = false :=
    Bool.eq_false_of_not_eq_true fun hnoticed =>
      absurd (hfree.symm.trans (h.noticed hnoticed)) Bool.false_ne_true
  exact (h.promised.restrict tried_of_seeking hunnoticed).acc (passesLeft p tables faults way)
    (pass_seeks hs hincremental hsides hbase htarget way)

omit hs hincremental hsides hbase htarget in
/-- A validation that is not cancelled goes on. -/
theorem open_of_kept (hv : ∀ way, Kept p tables faults v way) (hfree : v.shared.cancelled = false) :
    v.outcome? = none ∧ ∀ way, ∃ d, v.scanner way = .running d := by
  have hruns : ∀ way, ∃ d, v.scanner way = .running d := by
    intro way
    have hpromised := (hv way).promised
    cases hc : v.scanner way with
    | running d => exact ⟨d, rfl⟩
    | ended r =>
      rw [hc] at hpromised
      obtain ⟨-, -, -, hnoticed⟩ := hpromised
      exact absurd (hfree.symm.trans ((hv way).noticed hnoticed)) Bool.false_ne_true
  obtain ⟨f, hf⟩ := hruns .forward
  obtain ⟨b, hb⟩ := hruns .backward
  exact ⟨by simp [Validating.outcome?, hf, hb], hruns⟩

omit hs hincremental hsides hbase htarget in
/-- As long as one of the scans has not come to the end of the data, it can go on. -/
theorem exists_seeking_step (hv : ∀ way, Kept p tables faults v way)
    (hfree : v.shared.cancelled = false) {way : Way} (hended : (v.shared.notes way).ended = none) :
    ∃ v', Validating.Step p (seeking p tables faults) v v' := by
  obtain ⟨hopen, hruns⟩ := open_of_kept hv hfree
  obtain ⟨d, hd⟩ := hruns way
  have hscan : ∃ x, (p.scan way).Step (seeking p tables faults way) (v.shared,
      v.scanner way) x := by
    rw [hd]
    cases d with
    | done verdict => exact ⟨_, .rounded _ verdict⟩
    | ask r next =>
      obtain ⟨reply, hreply⟩ :=
        Scanning.exists_meets tables (v.shared.failed < faults) v.shared.cancelled r
      exact ⟨_, .answered ⟨hfree, hended, hreply, rfl⟩⟩
  obtain ⟨⟨s', c'⟩, hscan⟩ := hscan
  exact ⟨_, .scan way hopen hscan⟩

/-- **Both scans come to the end of the data**, whichever of them goes first at any moment. -/
theorem ends_atEnd (hv : ∀ way, Kept p tables faults v way) (hfree : v.shared.cancelled = false) :
    Ends (Validating.Step p (seeking p tables faults)) (fun w => w.shared.AtEnd) v := by
  constructor
  · exact Validating.acc_of_own (fun way s => s.notes way) seeking_step_own fun way =>
      (hv way).acc hs hincremental hsides hbase htarget hfree
  intro w hw
  have hkept : (∀ way, Kept p tables faults w way) ∧ w.shared.cancelled = false := by
    induction hw with
    | refl => exact ⟨hv, hfree⟩
    | tail _ hstep ih =>
      obtain ⟨hstep, hsame⟩ := Step.of_seeking hstep
      exact ⟨hstep.kept hs hincremental hsides hbase htarget ih.1, hsame.trans ih.2⟩
  by_cases hend : w.shared.AtEnd
  · exact .inr hend
  · obtain ⟨way, hended⟩ : ∃ way, (w.shared.notes way).ended = none := by
      simpa only [AtEnd, ne_eq, not_forall, not_not] using hend
    exact .inl (exists_seeking_step hkept.1 hkept.2 hended)

/-! ## Every run -/

/-- **Faults in an incremental validation lose nothing and repeat nothing.**  Let the tables stay as
they are, and let queries for pages and for the identities of pages fail, up to any number in all.
Wherever a run has come to, no identity has been published twice.  What a scan had published when it
came to the end of the data is what it has published, and when both have come to the end this is
what they have published in any run without a failure.  A validation that is over returns a tally
which has counted each failed call as an error.  As long as it is not cancelled both scans come to
the end, whichever of them goes first at any moment. -/
theorem faults_lose_and_repeat_nothing (hv : Reaches p tables faults (Validating.start p {}) v) :
    (v.shared.published.map (·.id)).Nodup ∧
      (∀ way es, (v.shared.notes way).ended = some es → (v.shared.notes way).events = es) ∧
      (v.shared.AtEnd → ∀ w, Reaches p tables 0 (Validating.start p {}) w → w.shared.AtEnd →
        v.shared.published = w.shared.published) ∧
      (∀ r, v.outcome? = some r → ∃ t, r = .ok t ∧ t.errors = v.shared.failed) ∧
      (v.shared.cancelled = false →
        Ends (Validating.Step p (seeking p tables faults)) (fun w => w.shared.AtEnd) v) := by
  have hkept := hv.kept hs hincremental hsides hbase htarget
  refine ⟨nodup_published hbase htarget hkept, fun way es hes => ?_, fun hend w hw hend' => ?_,
    fun r hover => errors_of_outcome hkept hover,
    ends_atEnd hs hincremental hsides hbase htarget hkept⟩
  · obtain ⟨hall, hevents⟩ := (hkept way).published.2 es hes
    exact hevents.trans hall.symm
  · have hkept' := hw.kept hs hincremental hsides hbase htarget
    exact (published_of_atEnd hkept hend).trans (published_of_atEnd hkept' hend').symm

end

/-! ## A validation that meets two failures -/

/-- The replies of tables that stay as they are, and that no query is answered if it is to fail. -/
def replies (tables : Side → Table) (fails : Bool) :
    (r : Interface.Request Scanning) → Scanning.Reply r
  | .query on s => some (if fails then .error (.unavailable "lost") else (tables on).answeredRows s)
  | r => Scanning.replies tables r

theorem meets_replies {mayFail : Prop} {fails : Bool} (hfails : fails = true → mayFail)
    (r : Interface.Request Scanning) : Meets tables mayFail false r (replies tables fails r) := by
  rcases r with _ | _ | (⟨on, s⟩ | _ | _ | _) | _
  case guarded.query =>
    cases fails with
    | true => exact .failed on s _ (hfails rfl)
    | false => exact .answered rfl
  all_goals exact .answered (Scanning.undisturbed_replies tables _)

/-- What a validation comes to by one step for the scan of a way, and whether a query is to fail
there. -/
def goOn (p : Plan) (tables : Side → Table) (faults : Nat) (v : Validating Trial)
    (move : Way × Bool) : Validating Trial :=
  match v.outcome?, v.scanner move.1 with
  | none, .running (.done verdict) =>
    ⟨v.shared, Function.update v.scanner move.1 ((p.scan move.1).next verdict)⟩
  | none, .running (.ask r next) =>
    let reply := replies tables (move.2 && v.shared.failed < faults) r
    ⟨{ v.shared with
        notes :=
          Function.update v.shared.notes move.1 (p.note move.1 (v.shared.notes move.1) r reply) },
      Function.update v.scanner move.1 (.running (next reply))⟩
  | _, _ => v

theorem reaches_goOn (hfree : v.shared.cancelled = false) (move : Way × Bool) :
    Reaches p tables faults v (goOn p tables faults v move) ∧
      (goOn p tables faults v move).shared.cancelled = false := by
  unfold goOn
  split
  · rename_i verdict hopen hd
    refine ⟨.single (.scanned (.scan move.1 hopen ?_)), hfree⟩
    rw [hd]
    exact .rounded _ verdict
  · rename_i r next hopen hd
    refine ⟨.single (.scanned (.scan move.1 hopen ?_)), hfree⟩
    rw [hd]
    refine .answered ⟨hfree ▸ meets_replies (fun hfails => ?_) r, rfl⟩
    exact of_decide_eq_true (Bool.and_eq_true_iff.mp hfails).2
  · exact ⟨.refl, hfree⟩

theorem reaches_moves (hfree : v.shared.cancelled = false) (moves : List (Way × Bool)) :
    Reaches p tables faults v (moves.foldl (goOn p tables faults) v) := by
  induction moves generalizing v with
  | nil => exact .refl
  | cons move moves ih =>
    obtain ⟨hstep, hfree'⟩ := reaches_goOn hfree move
    exact hstep.trans (ih hfree')

/-- An incremental validation in the order of the times. -/
def patientPlan : Plan where
  base := .src
  target := .dst
  direction := .src
  table := .items
  sort := "utime"
  batch := 2
  batch_pos := Nat.two_pos
  interval := .ofMillis 5

/-- Tables of which each holds a row that the other lacks. -/
def strangeTables : Side → Table
  | .src => ⟨"items", "id", ["id", "name", "utime"], [[.int 1, .text "a", .int 5]]⟩
  | .dst => ⟨"items", "id", ["id", "name", "utime"], [[.int 2, .text "b", .int 7]]⟩

/-- The first page of the forward scan cannot be read, and the first lookup of the backward scan is
not answered; then both go on to the end of the data. -/
def twoFailures : List (Way × Bool) :=
  (.forward, false) :: (.forward, true) :: List.replicate 8 (.forward, false) ++
    List.replicate 2 (.backward, false) ++ (.backward, true) :: List.replicate 8 (.backward, false)

/-- The validation after this. -/
def recovered : Validating Trial :=
  twoFailures.foldl (goOn patientPlan strangeTables 2) (Validating.start patientPlan {})

/-- Two queries have failed, and both scans have come to the end of the data. -/
theorem failed_recovered : recovered.shared.failed = 2 ∧ recovered.shared.AtEnd := by
  have hnotes : recovered.shared.failed = 2 ∧ (recovered.shared.notes .forward).ended ≠ none ∧
      (recovered.shared.notes .backward).ended ≠ none := by decide +kernel
  obtain ⟨hfailed, hforward, hbackward⟩ := hnotes
  refine ⟨hfailed, fun way => ?_⟩
  cases way with
  | forward => exact hforward
  | backward => exact hbackward

theorem faults_lose_and_repeat_nothing_sample :
    (IsName patientPlan.sort ∧ patientPlan.isFull = false ∧ patientPlan.base ≠ patientPlan.target ∧
      patientPlan.Scans (strangeTables patientPlan.base) ∧
      patientPlan.Scans (strangeTables patientPlan.target) ∧
      Reaches patientPlan strangeTables 2 (Validating.start patientPlan {}) recovered ∧
      recovered.shared.failed = 2 ∧ recovered.shared.AtEnd) ∧
    (recovered.shared.published.map (·.id)).Nodup ∧
      (∀ way es, (recovered.shared.notes way).ended = some es →
        (recovered.shared.notes way).events = es) ∧
      (recovered.shared.AtEnd → ∀ w,
        Reaches patientPlan strangeTables 0 (Validating.start patientPlan {}) w → w.shared.AtEnd →
          recovered.shared.published = w.shared.published) ∧
      (∀ r, recovered.outcome? = some r → ∃ t, r = .ok t ∧ t.errors = recovered.shared.failed) ∧
      (recovered.shared.cancelled = false →
        Ends (Validating.Step patientPlan (seeking patientPlan strangeTables 2))
          (fun w => w.shared.AtEnd) recovered) := by
  have hs : IsName patientPlan.sort := by decide
  have hsides : patientPlan.base ≠ patientPlan.target := by decide
  have hbase : patientPlan.Scans (strangeTables patientPlan.base) := by decide +kernel
  have htarget : patientPlan.Scans (strangeTables patientPlan.target) := by decide +kernel
  have hrun : Reaches patientPlan strangeTables 2 (Validating.start patientPlan {}) recovered :=
    reaches_moves rfl twoFailures
  exact ⟨⟨hs, rfl, hsides, hbase, htarget, hrun, failed_recovered⟩,
    faults_lose_and_repeat_nothing hs rfl hsides hbase htarget hrun⟩

end Trial
end Cutover
