import Cutover.Proofs.Scheduler.Supervision

/-! # Runs that are replaced

A run that is cancelled, because it was stopped or because another of its kind was started, goes on
until it next looks, and the scheduler forgets about a run that was replaced.  So what the operator
sees is the state of the last run of each kind only.  Still it says all there is to say: when no run
of a kind is seen at work, every run of this kind has ended or has been cancelled
(`Scheduler.Quiet`), the replaced ones too, and none of them publishes anything any more, however
long it takes to end.

What this rests on is kept by every step (`Supervision.Sound`): the scheduler is in order between
any two commands, every run has the direction of the phase in which it began and waits for nothing
that does not yield to its cancellation, and the end of a run is noted only when its scans are over.
-/

namespace Cutover

open Dialogue

/-- Whether the operator sees a validation of a kind at work. -/
def Status.running (s : Status) : RunKind → Bool
  | .full => s.fullRunning
  | .incremental => s.incrementalRunning

namespace Scheduler

variable {s s' : Scheduler} {kind : RunKind}

/-- Every run of the kind has ended or has been cancelled. -/
def Quiet (s : Scheduler) (kind : RunKind) : Prop :=
  ∀ (n : Nat) r, s.runs[n]? = some r → r.kind = kind → r.ended = true ∨ r.cancelled = true

/-- **When no run of a kind is seen at work, none of this kind goes on**: if one has not been
cancelled, it is the one that is seen. -/
theorem Sound.quiet (h : s.Sound) (hstatus : s.status.running kind = false) : s.Quiet kind := by
  intro n r hr hkind
  have hrunning : s.isRunning kind = false := by cases kind <;> exact hstatus
  cases hlive : r.cancelled with
  | true => exact .inr rfl
  | false =>
    have hcurrent := h.alone n r hr hlive
    rw [hkind] at hcurrent
    have hseen : s.isRunning kind = !r.ended := by simp [isRunning, hcurrent, hr]
    rw [hseen] at hrunning
    exact .inl (by simpa using hrunning)

/-- While no run of the kind is started, it stays quiet. -/
theorem Quiet.grows (h : s.Quiet kind) (hgrows : s.Grows s')
    (hnone : ∀ (n : Nat) r, s'.runs[n]? = some r → r.kind = kind → n < s.runs.size) :
    s'.Quiet kind := by
  intro n r' hr' hkind
  rcases hgrows.run n r' hr' with ⟨r, hr, rfl | rfl⟩ | ⟨hnew, -⟩
  · exact h n r' hr hkind
  · exact .inr rfl
  · have hold := hnone n r' hr' hkind
    omega

/-- The runs after the end of one has been noted. -/
theorem getElem?_finish {n i : Nat} {r' : Run} (h : (s.finish n).runs[i]? = some r') :
    s.runs[i]? = some r' ∨ n = i ∧ ∃ r, s.runs[i]? = some r ∧ r' = { r with ended := true } := by
  rw [finish, getElem?_modifyRun] at h
  split at h
  · obtain ⟨r, hr, rfl⟩ := Option.map_eq_some_iff.mp h
    exact .inr ⟨‹_›, r, hr, rfl⟩
  · exact .inl h

theorem Quiet.finish (h : s.Quiet kind) (n : Nat) : (s.finish n).Quiet kind := by
  intro i r' hr' hkind
  rcases getElem?_finish hr' with hr | ⟨-, r, -, rfl⟩
  · exact h i r' hr hkind
  · exact .inl rfl

end Scheduler

namespace Supervision

variable {stores : Replies} {v v' : Supervision} {kind : RunKind} {n : Nat}

/-- The stores and the direction of a plan are those of the phase in which the run began. -/
def Charge.FromPhase (w : Charge) (p : Plan) : Prop :=
  p.base = w.began.authoritative ∧ p.target = w.began.authoritative.other ∧
    p.direction = w.began.authoritative

/-- The scans of a run are over. -/
def Charge.IsOver (w : Charge) : Prop := (⟨(), w.scanner⟩ : Validating Unit).outcome? ≠ none

/-- All that the scans of a run have still to ask for yields to a cancellation. -/
def Charge.Yields (w : Charge) (p : Plan) : Prop :=
  ∀ way, (p.scan way).Asks Scanning.Request.Yields (w.scanner way)

/-- The invariant of the supervision. -/
structure Sound (v : Supervision) : Prop where
  scheduler : v.scheduler.Sound
  phases : v.Every fun p w => w.FromPhase p
  yields : v.Every fun p w => w.Yields p
  noted : ∀ (n : Nat) (r : Run) (w : Charge), v.scheduler.runs[n]? = some r → v.work[n]? = some w →
    r.ended = true → w.IsOver

theorem sound_start (workplace : Workplace) (phase : Phase) : Sound (start workplace phase) where
  scheduler := Scheduler.sound_start workplace phase
  phases := every_start workplace phase
  yields := every_start workplace phase
  noted n r w _ hw := by simp [start] at hw

theorem Sound.length_work (h : v.Sound) : v.work.length = v.scheduler.runs.size := by
  rw [h.phases.length, Scheduler.plans, List.length_map, Array.length_toList]

theorem Sound.obeyed (h : v.Sound) (o : Operation) : (v.obey o).Sound where
  scheduler := h.scheduler.obey o
  phases := h.phases.obeyed o fun _ hbase htarget hdirection => ⟨hbase, htarget, hdirection⟩
  yields := h.yields.obeyed o fun _ _ _ _ => Plan.scan_yields
  noted n r' w hr' hw hended := by
    rcases (v.scheduler.grows_obey o).run n r' hr' with ⟨r, hr, hkept⟩ | ⟨-, hnew⟩
    · have hn : n < v.work.length := h.length_work ▸ (Array.getElem?_eq_some_iff.mp hr).1
      have hw : v.work[n]? = some w := by
        rw [← hw]
        exact (List.getElem?_append_left hn).symm
      refine h.noted n r w hr hw ?_
      rcases hkept with rfl | rfl <;> exact hended
    · rw [hnew] at hended
      cases hended

/-- A run whose scans go on has not ended. -/
theorem Sound.scanned (h : v.Sound) {run : Run} {w : Charge} {x : Validating (List Publication)}
    (hrun : v.scheduler.runs[n]? = some run) (hw : v.work[n]? = some w)
    (hgoes : ¬ w.IsOver)
    (hyields : ∀ way, (run.plan.scan way).Asks Scanning.Request.Yields (x.scanner way)) :
    Sound
      { v with published := x.shared, work := v.work.set n { w with scanner := x.scanner } } where
  scheduler := h.scheduler
  phases := h.phases.scanned hrun hw (h.phases.each n run.plan w (Scheduler.getElem?_plans hrun) hw)
  yields := h.yields.scanned hrun hw hyields
  noted i r u hr hu hended := by
    rw [List.getElem?_set] at hu
    by_cases hi : n = i
    · subst hi
      obtain rfl := Option.some.inj (hrun.symm.trans hr)
      exact absurd (h.noted n run w hrun hw hended) hgoes
    · rw [if_neg hi] at hu
      exact h.noted i r u hr hu hended

theorem Sound.ended (h : v.Sound) {w : Charge} (hw : v.work[n]? = some w) (hover : w.IsOver) :
    Sound { v with scheduler := v.scheduler.finish n } where
  scheduler := h.scheduler.finish n
  phases := h.phases.ended n
  yields := h.yields.ended n
  noted i r' u hr' hu hended := by
    rcases Scheduler.getElem?_finish hr' with hr | ⟨rfl, -⟩
    · exact h.noted i r' u hr hu hended
    · obtain rfl := Option.some.inj (hw.symm.trans hu)
      exact hover

/-- A run that takes a step is not over. -/
theorem goes_of_step {p : Plan} {ps : List Publication} {w : Charge}
    {gives : Way → Surroundings Scanning (List Publication)} {x : Validating (List Publication)}
    (h : Validating.Step p gives ⟨ps, w.scanner⟩ x) : ¬ w.IsOver := by
  obtain ⟨way, hgoes, -⟩ := h
  exact fun hover => hover hgoes

/-- **Every step keeps the invariant.** -/
theorem Sound.step (h : v.Sound) (hstep : Step stores v v') : v'.Sound := by
  cases hstep with
  | obeyed o => exact h.obeyed o
  | @scanned n run w x hrun hw hstep =>
    have hyields := h.yields.each n run.plan w (Scheduler.getElem?_plans hrun) hw
    exact h.scanned hrun hw (goes_of_step hstep)
      (Plan.asks_step (v := ⟨v.published, w.scanner⟩) hyields hstep)
  | ended hw hover =>
    refine h.ended hw ?_
    rw [Charge.IsOver, hover]
    exact Option.some_ne_none _

theorem Sound.reaches (h : v.Sound) (hrun : Reaches stores v v') : v'.Sound := by
  induction hrun with
  | refl => exact h
  | tail _ hstep ih => exact ih.step hstep

/-! ## What a quiet kind publishes -/

/-- A run stays what it is. -/
theorem Step.kept (hstep : Step stores v v') {r : Run} (hr : v.scheduler.runs[n]? = some r) :
    ∃ r', v'.scheduler.runs[n]? = some r' ∧ r'.kind = r.kind := by
  cases hstep with
  | obeyed o =>
    obtain ⟨r', hr', rfl | rfl⟩ := (v.scheduler.grows_obey o).kept hr
    · exact ⟨r', hr', rfl⟩
    · exact ⟨_, hr', rfl⟩
  | scanned _ _ _ => exact ⟨r, hr, rfl⟩
  | @ended k _ _ _ _ =>
    show ∃ r', (v.scheduler.finish k).runs[n]? = some r' ∧ _
    rw [Scheduler.finish, Scheduler.getElem?_modifyRun, hr]
    split
    · exact ⟨_, rfl, rfl⟩
    · exact ⟨r, rfl, rfl⟩

theorem Reaches.kept (hrun : Reaches stores v v') {r : Run} (hr : v.scheduler.runs[n]? = some r) :
    ∃ r', v'.scheduler.runs[n]? = some r' ∧ r'.kind = r.kind := by
  induction hrun with
  | refl => exact ⟨r, hr, rfl⟩
  | tail _ hstep ih =>
    obtain ⟨r₁, hr₁, hkind⟩ := ih
    obtain ⟨r₂, hr₂, hkind'⟩ := hstep.kept hr₁
    exact ⟨r₂, hr₂, hkind'.trans hkind⟩

theorem Reaches.size_le (hrun : Reaches stores v v') :
    v.scheduler.runs.size ≤ v'.scheduler.runs.size := by
  by_contra hless
  have hn : v'.scheduler.runs.size < v.scheduler.runs.size := Nat.lt_of_not_le hless
  obtain ⟨r', hr', -⟩ := Reaches.kept hrun (Array.getElem?_eq_getElem hn)
  obtain ⟨hlt, -⟩ := Array.getElem?_eq_some_iff.mp hr'
  exact Nat.lt_irrefl _ hlt

/-- What a step of a scan brings to the topic is of its run, and a run that has been cancelled
brings nothing. -/
theorem published_of_step {run : Run} {l : Loop Scanning Progress Verdict (Except StoreError Tally)}
    {c c' : Scanner} {ps : List Publication} (hyields : l.Asks Scanning.Request.Yields c)
    (hstep : l.Step (v.gives stores n run) (v.published, c) (ps, c')) :
    ∃ es : List Event, ps = v.published ++ es.map (⟨n, ·, v.scheduler.phase⟩) ∧
      (run.cancelled = true → es = []) := by
  cases hstep with
  | rounded _ _ => exact ⟨[], by simp, fun _ => rfl⟩
  | @answered _ _ r _ reply hg =>
    obtain ⟨hheeds, -, rfl⟩ := hg
    refine ⟨r.accepted reply, rfl, fun hcancelled => ?_⟩
    rw [hcancelled] at hheeds
    exact Scanning.accepted_of_cancelled hyields.1.1 hheeds

/-- **A step that starts no run of a quiet kind leaves it quiet, and publishes nothing for it.** -/
theorem Sound.quiet_step (h : v.Sound) (hquiet : v.scheduler.Quiet kind) (hstep : Step stores v v')
    (hnone : ∀ (n : Nat) r, v'.scheduler.runs[n]? = some r → r.kind = kind →
      n < v.scheduler.runs.size) :
    v'.scheduler.Quiet kind ∧ ∃ new, v'.published = v.published ++ new ∧
      ∀ x ∈ new, ∃ r, v'.scheduler.runs[x.run]? = some r ∧ r.kind ≠ kind := by
  cases hstep with
  | obeyed o =>
    exact ⟨hquiet.grows (v.scheduler.grows_obey o) hnone, [], (List.append_nil _).symm, by simp⟩
  | ended _ _ => exact ⟨hquiet.finish _, [], (List.append_nil _).symm, by simp⟩
  | @scanned n run w x hrun hw hstep =>
    have hgoes := goes_of_step hstep
    have hyields := h.yields.each n run.plan w (Scheduler.getElem?_plans hrun) hw
    obtain ⟨way, -, hstep⟩ := hstep
    obtain ⟨es, rfl, hsilent⟩ := published_of_step (hyields way) hstep
    refine ⟨hquiet, _, rfl, ?_⟩
    intro y hy
    obtain ⟨e, he, rfl⟩ := List.mem_map.mp hy
    refine ⟨run, hrun, fun hkind => ?_⟩
    -- a run of the kind has ended, and takes no step, or has been cancelled
    rcases hquiet n run hrun hkind with hended | hcancelled
    · exact hgoes (h.noted n run w hrun hw hended)
    · rw [hsilent hcancelled] at he
      cases he

/-- **A quiet kind stays silent until a run of it is started**, by induction on the steps. -/
theorem Sound.quiet_reaches (h : v.Sound) (hquiet : v.scheduler.Quiet kind)
    (hrun : Reaches stores v v')
    (hnone : ∀ (n : Nat) r, v'.scheduler.runs[n]? = some r → r.kind = kind →
      n < v.scheduler.runs.size) :
    v'.scheduler.Quiet kind ∧ ∃ new, v'.published = v.published ++ new ∧
      ∀ x ∈ new, ∃ r, v'.scheduler.runs[x.run]? = some r ∧ r.kind ≠ kind := by
  induction hrun with
  | refl => exact ⟨hquiet, [], (List.append_nil _).symm, by simp⟩
  | @tail u u' hbefore hstep ih =>
    have hkept : ∀ (n : Nat) r, u.scheduler.runs[n]? = some r → r.kind = kind →
        n < v.scheduler.runs.size := by
      intro n r hr hkind
      obtain ⟨r', hr', hsame⟩ := hstep.kept hr
      exact hnone n r' hr' (hsame.trans hkind)
    have hsize : v.scheduler.runs.size ≤ u.scheduler.runs.size := Reaches.size_le hbefore
    obtain ⟨hquiet', new, hnew, hothers⟩ := ih hkept
    obtain ⟨hquiet'', new', hnew', hothers'⟩ := (h.reaches hbefore).quiet_step hquiet' hstep
      fun n r hr hkind => Nat.lt_of_lt_of_le (hnone n r hr hkind) hsize
    refine ⟨hquiet'', new ++ new', by rw [hnew', hnew, List.append_assoc], ?_⟩
    intro x hx
    rcases List.mem_append.mp hx with hx | hx
    · obtain ⟨r, hr, hkind⟩ := hothers x hx
      obtain ⟨r', hr', hsame⟩ := hstep.kept hr
      exact ⟨r', hr', hsame ▸ hkind⟩
    · exact hothers' x hx

/-! ## Commands and runs in order -/

/-- The scheduler and its runs as the operator may rely on them. -/
structure Orderly (stores : Replies) (v : Supervision) : Prop where
  /-- The phase of the scheduler is the one that routes client traffic. -/
  phase : v.scheduler.phase = v.scheduler.routing
  /-- A run that is not cancelled is the current one of its kind. -/
  alone : ∀ (n : Nat) (r : Run), v.scheduler.runs[n]? = some r → r.cancelled = false →
    v.scheduler.current r.kind = some n
  /-- A run has the stores and the direction of the phase in which it began. -/
  begun : ∀ (n : Nat) (r : Run), v.scheduler.runs[n]? = some r →
    ∃ w, v.work[n]? = some w ∧ w.FromPhase r.plan
  /-- A start with an interval of zero is refused and changes nothing. -/
  refused : ∀ (utimeAfter : Int64) (interval : Duration), interval.isZero = true →
    v.scheduler.startIncremental utimeAfter interval = .error (.invalidArgument .zeroInterval) ∧
      v.obey (.startIncremental utimeAfter interval) = v
  /-- When no run of a kind is seen at work, none publishes anything until one is started. -/
  silent : ∀ kind v', v.scheduler.status.running kind = false → Reaches stores v v' →
    (∀ (n : Nat) (r : Run), v'.scheduler.runs[n]? = some r → r.kind = kind →
      n < v.scheduler.runs.size) →
    ∃ new, v'.published = v.published ++ new ∧
      ∀ x ∈ new, ∃ r, v'.scheduler.runs[x.run]? = some r ∧ r.kind ≠ kind

/-- **The scheduler is in order after every sequence of commands**, in whatever way the runs, the
stores and the channel have worked in between. -/
theorem scheduler_is_orderly {workplace : Workplace} {phase : Phase}
    (hrun : Reaches stores (start workplace phase) v) : Orderly stores v := by
  have h : v.Sound := (sound_start workplace phase).reaches hrun
  refine ⟨h.scheduler.phase, h.scheduler.alone, ?_, ?_, ?_⟩
  · intro n r hr
    have hn : n < v.work.length := h.length_work ▸ (Array.getElem?_eq_some_iff.mp hr).1
    have hw : v.work[n]? = some v.work[n] := List.getElem?_eq_getElem hn
    exact ⟨_, hw, h.phases.each n r.plan _ (Scheduler.getElem?_plans hr) hw⟩
  · intro utimeAfter interval hzero
    refine ⟨v.scheduler.startIncremental_of_isZero utimeAfter hzero, ?_⟩
    have hsame : v.scheduler.obey (.startIncremental utimeAfter interval) = v.scheduler := by
      rw [Scheduler.obey_startIncremental, if_pos hzero]
    -- no plan is new, so no scan is begun
    have hnone : v.scheduler.plans.drop v.work.length = [] := by
      rw [h.phases.length, List.drop_length]
    rw [Supervision.obey, hsame, hnone, List.map_nil, List.append_nil]
  · intro kind v' hstatus hrun' hnone
    exact (h.quiet_reaches (h.scheduler.quiet hstatus) hrun' hnone).2

/-- An incremental validation is replaced by another, which is stopped, notices it and ends;
meanwhile a full validation has been started, the phase is switched, and a start with an interval of
zero is tried. -/
def sampleOrders : List Move :=
  [.command (.startIncremental 0 (.ofMillis 5)), .command .startFull,
    .command (.startIncremental 0 (.ofMillis 5)), .command (.stop .incremental),
    .scan 2 .forward, .scan 2 .forward, .scan 2 .backward, .scan 2 .backward, .note 2,
    .command (.switchPhase .dstOnly), .command (.startIncremental 0 ⟨0⟩)]

/-- The incremental validation that was replaced goes on to its end, and the full one reports a
row. -/
def sampleSteps : List Move :=
  [.scan 0 .forward, .scan 0 .forward, .scan 0 .backward, .scan 0 .backward] ++
    List.replicate 6 (.scan 1 .forward)

/-- The scheduler has three runs, and sees no incremental one at work although one has yet to
end. -/
def sampleSupervision : Supervision := sampleOrders.foldl (move onlyInSource) (start bench .srcOnly)

theorem scheduler_is_orderly_sample :
    (Reaches (Scanning.Undisturbed onlyInSource) (start bench .srcOnly) sampleSupervision ∧
      sampleSupervision.scheduler.runs.toList.map (fun r => (r.kind, r.cancelled, r.ended)) =
        [(.incremental, true, false), (.full, false, false), (.incremental, true, true)] ∧
      sampleSupervision.scheduler.status = ⟨.dstOnly, true, false⟩) ∧
    Orderly (Scanning.Undisturbed onlyInSource) sampleSupervision ∧
    ∃ v', Reaches (Scanning.Undisturbed onlyInSource) sampleSupervision v' ∧
      v'.published = sampleSupervision.published ++ [⟨1, ⟨1, .targetMissing, .src⟩, .dstOnly⟩] ∧
      ∃ new, v'.published = sampleSupervision.published ++ new ∧
        ∀ x ∈ new, ∃ r, v'.scheduler.runs[x.run]? = some r ∧ r.kind ≠ .incremental := by
  have hrun : Reaches (Scanning.Undisturbed onlyInSource) (start bench .srcOnly)
      sampleSupervision :=
    reaches_moves onlyInSource (start bench .srcOnly) sampleOrders
  have horderly := scheduler_is_orderly hrun
  have hsteps := reaches_moves onlyInSource sampleSupervision sampleSteps
  refine ⟨⟨hrun, by decide +kernel, by decide +kernel⟩, horderly, _, hsteps, by decide +kernel, ?_⟩
  refine horderly.silent .incremental _ (by decide +kernel) hsteps fun n r hr _ => ?_
  -- no run is started on the way
  have hsize : (sampleSteps.foldl (move onlyInSource) sampleSupervision).scheduler.runs.size =
      sampleSupervision.scheduler.runs.size := by decide +kernel
  exact hsize ▸ (Array.getElem?_eq_some_iff.mp hr).1

end Supervision
end Cutover
