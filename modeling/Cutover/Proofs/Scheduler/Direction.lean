import Cutover.Proofs.Scheduler.Supervision

/-! # The direction of events

The direction of a validation is settled when it starts, by the phase the scheduler is in at that
moment, and a switch of the phase does not touch the runs that are at work.  So an event names the
store that was authoritative when its run began (`Labelled`).  That is the store which is
authoritative when the event is published as long as the phase then has the same authoritative store
as at the start of the run; a run that outlives a switch to the other store goes on to name the old
one.
-/

namespace Cutover

open Dialogue

namespace Supervision

variable {stores : Replies} {v v' : Supervision}

/-- A run at work has the direction of the phase in which it began, and publishes nothing else. -/
def Charge.Follows (w : Charge) (p : Plan) : Prop :=
  p.direction = w.began.authoritative ∧
    ∀ way, (p.scan way).Asks (Plan.Labels p.direction) (w.scanner way)

theorem follows_begin (phase : Phase) {p : Plan} (hp : p.direction = phase.authoritative) :
    Charge.Follows ⟨phase, (Validating.start p ()).scanner⟩ p :=
  ⟨hp, Plan.scan_labels⟩

/-- **What is known of runs and events at every moment**: a run follows its plan, and an event on
the topic has the direction of the plan of its run. -/
structure Labelled (v : Supervision) : Prop where
  run : v.Every fun p w => w.Follows p
  event : ∀ x ∈ v.published, ∃ p, v.scheduler.plans[x.run]? = some p ∧
    x.event.direction = p.direction

theorem labelled_start (workplace : Workplace) (phase : Phase) :
    Labelled (start workplace phase) where
  run := every_start workplace phase
  event x hx := by simp [start] at hx

/-- A run that a command starts begins with the direction of the present phase. -/
theorem Labelled.obeyed (h : Labelled v) (o : Operation) : Labelled (v.obey o) where
  run := h.run.obeyed o fun _ _ _ hdirection => follows_begin _ hdirection
  event x hx := by
    obtain ⟨new, hplans, -⟩ := v.scheduler.plans_obey o
    obtain ⟨p, hp, hdirection⟩ := h.event x hx
    refine ⟨p, ?_, hdirection⟩
    show (v.scheduler.obey o).plans[x.run]? = some p
    rw [hplans, List.getElem?_append_left (List.getElem?_eq_some_iff.mp hp).1]
    exact hp

/-- What a step of a run brings to the topic has the direction of its plan. -/
theorem Charge.Follows.step {w : Charge} {n : Nat} {run : Run} (hw : w.Follows run.plan) {way : Way}
    {ps : List Publication} {c : Scanner}
    (hstep : (run.plan.scan way).Step (v.gives stores n run) (v.published, w.scanner way) (ps, c)) :
    Charge.Follows { w with scanner := Function.update w.scanner way c } run.plan ∧
      ∀ y ∈ ps, y ∈ v.published ∨ y.run = n ∧ y.event.direction = run.plan.direction := by
  have hasks := hw.2 way
  refine ⟨⟨hw.1, fun way' => ?_⟩, fun y hy => ?_⟩
  · show (run.plan.scan way').Asks _ (Function.update w.scanner way c way')
    by_cases hway : way' = way
    · subst hway
      rw [Function.update_self]
      exact hasks.step hstep
    · rw [Function.update_of_ne hway]
      exact hw.2 way'
  · generalize w.scanner way = c₀ at hstep hasks
    cases hstep with
    | answered hg =>
      obtain ⟨-, -, rfl⟩ := hg
      obtain hy | hy := List.mem_append.mp hy
      · exact .inl hy
      · obtain ⟨e, he, rfl⟩ := List.mem_map.mp hy
        exact .inr ⟨rfl, hasks.1.1 e (Scanning.mem_published_of_accepted he)⟩
    | rounded _ _ => exact .inl hy

/-- A step of a run. -/
theorem Labelled.scanned (h : Labelled v) {n : Nat} {run : Run} {w : Charge}
    {x : Validating (List Publication)} (hrun : v.scheduler.runs[n]? = some run)
    (hw : v.work[n]? = some w)
    (hstep : Validating.Step run.plan (fun _ => v.gives stores n run) ⟨v.published, w.scanner⟩ x) :
    Labelled
      { v with published := x.shared, work := v.work.set n { w with scanner := x.scanner } } := by
  have hplan := Scheduler.getElem?_plans hrun
  obtain ⟨way, -, hstep⟩ := hstep
  obtain ⟨hfollows, hshared⟩ := (h.run.each n run.plan w hplan hw).step hstep
  refine ⟨h.run.scanned hrun hw hfollows, ?_⟩
  intro y hy
  obtain hy | ⟨rfl, hdirection⟩ := hshared y hy
  · exact h.event y hy
  · exact ⟨run.plan, hplan, hdirection⟩

theorem Labelled.step (h : Labelled v) (hstep : Step stores v v') : Labelled v' := by
  cases hstep with
  | obeyed o => exact h.obeyed o
  | scanned hrun hw hstep => exact h.scanned hrun hw hstep
  | @ended n _ _ _ _ =>
    have hplans : (v.scheduler.finish n).plans = v.scheduler.plans := Scheduler.plans_finish n
    exact ⟨h.run.ended n, hplans ▸ h.event⟩

theorem Labelled.reaches (h : Labelled v) (hrun : Reaches stores v v') : Labelled v' := by
  induction hrun with
  | refl => exact h
  | tail _ hstep ih => exact ih.step hstep

/-! ## A run that outlives a switch -/

/-- A full validation is started while the source is authoritative, then the phase is switched, so
that the destination is, and the forward scan of the validation goes on. -/
def switchedAtWork : List Move :=
  [.command .startFull, .command (.switchPhase .dstOnly)] ++ List.replicate 6 (.scan 0 .forward)

/-- The run goes on after the switch and reports the missing row under its old direction. -/
theorem exists_outlived_switch :
    ∃ v, Reaches (Scanning.Undisturbed onlyInSource) (start bench .srcOnly) v ∧
      v.published = [⟨0, ⟨1, .targetMissing, .src⟩, .dstOnly⟩] := by
  refine ⟨_, reaches_moves onlyInSource (start bench .srcOnly) switchedAtWork, ?_⟩
  decide +kernel

/-! ## What an event names -/

/-- **An event names the store that was authoritative when its run began**, whatever the operator
has commanded since, and however the runs, the stores and the channel have worked.  So it names the
store that is authoritative at the moment of its publication if that has not changed since its run
began. -/
theorem events_name_store_of_their_run {workplace : Workplace} {phase : Phase}
    (hrun : Reaches stores (start workplace phase) v) {x : Publication} (hx : x ∈ v.published) :
    ∃ w : Charge, v.work[x.run]? = some w ∧ x.event.direction = w.began.authoritative ∧
      (x.phase.authoritative = w.began.authoritative →
        x.event.direction = x.phase.authoritative) := by
  have hlabelled := (labelled_start workplace phase).reaches hrun
  obtain ⟨p, hp, hdirection⟩ := hlabelled.event x hx
  have hlength : x.run < v.work.length := by
    rw [hlabelled.run.length]
    exact (List.getElem?_eq_some_iff.mp hp).1
  obtain ⟨w, hw⟩ : ∃ w, v.work[x.run]? = some w := ⟨_, List.getElem?_eq_getElem hlength⟩
  have hbegan : x.event.direction = w.began.authoritative :=
    hdirection.trans (hlabelled.run.each x.run p w hp hw).1
  exact ⟨w, hw, hbegan, fun hsame => hbegan.trans hsame.symm⟩

theorem events_name_store_of_their_run_sample :
    ∃ v x, (Reaches (Scanning.Undisturbed onlyInSource) (start bench .srcOnly) v ∧
      x ∈ v.published) ∧ (∃ w :
      Charge, v.work[x.run]? = some w ∧ x.event.direction = w.began.authoritative ∧
        (x.phase.authoritative = w.began.authoritative →
          x.event.direction = x.phase.authoritative)) := by
  obtain ⟨v, hrun, hpublished⟩ := exists_outlived_switch
  have hx : (⟨0, ⟨1, .targetMissing, .src⟩, .dstOnly⟩ : Publication) ∈ v.published := by
    simp [hpublished]
  exact ⟨v, _, ⟨hrun, hx⟩, events_name_store_of_their_run hrun hx⟩

/-- **A run that outlives a switch names a store that is no longer authoritative**: it is not so
that every event names the store that is authoritative at the moment of its publication. -/
theorem event_may_name_replaced_store :
    ¬ ∀ v, Reaches (Scanning.Undisturbed onlyInSource) (start bench .srcOnly) v →
      ∀ x ∈ v.published, x.event.direction = x.phase.authoritative := by
  intro hall
  obtain ⟨v, hrun, hpublished⟩ := exists_outlived_switch
  have hdirection := hall v hrun ⟨0, ⟨1, .targetMissing, .src⟩, .dstOnly⟩ (by simp [hpublished])
  exact absurd hdirection (by decide)

end Supervision
end Cutover
