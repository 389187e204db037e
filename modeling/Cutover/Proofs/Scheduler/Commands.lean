import Cutover.Scheduler

/-! # Commands

The operator switches the phase and starts and stops validations, in any order and as often as he
likes.  Every command but a start leaves each run as it is or cancels it, and a start does so too
and adds one run (`Scheduler.Grows`).  What holds between two commands (`Scheduler.Sound`): the
phase is the one that routes client traffic, and a run that has not been cancelled is the current
one of its kind.  So of each kind at most one run is not cancelled, and a start replaces the current
run of its kind and touches nothing else (`Scheduler.Replaced`).
-/

namespace Cutover

/-- A command of the operator. -/
inductive Operation where
  | switchPhase (p : Phase)
  | startFull
  | startIncremental (utimeAfter : Int64) (interval : Duration)
  | stop (kind : RunKind)
  | shutdown
  deriving DecidableEq

namespace Scheduler

variable (s : Scheduler)

/-- The scheduler after a command; a command that it refuses changes nothing. -/
def obey : Operation → Scheduler
  | .switchPhase p => s.switchPhase p
  | .startFull => s.startFull
  | .startIncremental utimeAfter interval =>
    match s.startIncremental utimeAfter interval with
    | .ok s' => s'
    | .error _ => s
  | .stop kind => s.stop kind
  | .shutdown => s.shutdown

/-- The plans of all runs, in the order of their starts. -/
def plans : List Plan := s.runs.toList.map (·.plan)

variable {s}

theorem getElem?_plans {n : Nat} {r : Run} (h : s.runs[n]? = some r) :
    s.plans[n]? = some r.plan := by
  rw [plans, List.getElem?_map, Array.getElem?_toList, h]
  rfl

/-- To change runs without their plans leaves the plans as they are. -/
theorem plans_modifyRun (n : Nat) {f : Run → Run} (hf : ∀ r, (f r).plan = r.plan) :
    (s.modifyRun n f).plans = s.plans := by
  refine List.ext_getElem? fun i => ?_
  rw [plans, plans, modifyRun, Array.toList_modify, List.getElem?_map, List.getElem?_map,
    List.getElem?_modify]
  cases s.runs.toList[i]? with
  | none => rfl
  | some r =>
    by_cases hi : n = i
    · simp [hi, hf]
    · simp [hi]

theorem plans_finish (n : Nat) : (s.finish n).plans = s.plans := plans_modifyRun n fun _ => rfl

theorem plans_stop (kind : RunKind) : (s.stop kind).plans = s.plans := by
  unfold stop
  split
  · rfl
  · exact plans_modifyRun _ fun _ => rfl

theorem plans_launch (kind : RunKind) (p : Plan) : (s.launch kind p).plans = s.plans ++ [p] := by
  have hpush : (s.launch kind p).plans = (s.stop kind).plans ++ [p] := by
    cases kind <;> simp [launch, setCurrent, plans]
  rw [hpush, plans_stop]

/-- A start with an interval of zero is refused. -/
theorem startIncremental_of_isZero (s : Scheduler) (utimeAfter : Int64) {interval : Duration}
    (hzero : interval.isZero = true) :
    s.startIncremental utimeAfter interval = .error (.invalidArgument .zeroInterval) :=
  if_pos hzero

theorem obey_startIncremental (s : Scheduler) (utimeAfter : Int64) (interval : Duration) :
    s.obey (.startIncremental utimeAfter interval) =
      if interval.isZero then s
      else s.launch .incremental (s.plan s.workplace.table.utimeColumn utimeAfter interval) := by
  by_cases hzero : interval.isZero <;> simp [obey, startIncremental, hzero]

/-- **A command starts at most one run, and with the phase of this moment**: the authoritative store
is the base and gives the direction, the other store is the target. -/
theorem plans_obey (s : Scheduler) (o : Operation) :
    ∃ new, (s.obey o).plans = s.plans ++ new ∧
      ∀ p ∈ new, p.base = s.phase.authoritative ∧ p.target = s.phase.authoritative.other ∧
        p.direction = s.phase.authoritative := by
  cases o with
  | switchPhase p => exact ⟨[], (List.append_nil _).symm, by simp⟩
  | startFull =>
    refine ⟨_, plans_launch _ _, fun p hp => ?_⟩
    rw [List.mem_singleton.mp hp]
    exact ⟨rfl, rfl, rfl⟩
  | startIncremental utimeAfter interval =>
    rw [obey_startIncremental]
    split
    · exact ⟨[], (List.append_nil _).symm, by simp⟩
    · refine ⟨_, plans_launch _ _, fun p hp => ?_⟩
      rw [List.mem_singleton.mp hp]
      exact ⟨rfl, rfl, rfl⟩
  | stop kind => exact ⟨[], (plans_stop kind).trans (List.append_nil _).symm, by simp⟩
  | shutdown =>
    refine ⟨[], ?_, by simp⟩
    rw [List.append_nil]
    exact (plans_stop _).trans (plans_stop _)

theorem getElem?_modifyRun (n : Nat) (f : Run → Run) (i : Nat) :
    (s.modifyRun n f).runs[i]? = if n = i then s.runs[i]?.map f else s.runs[i]? := by
  simp [modifyRun, Array.getElem?_modify]

/-! ## What a command does to the runs -/

/-- The runs after some commands: each of those before, left as it was or cancelled, and new ones,
which have not ended. -/
structure Grows (s s' : Scheduler) : Prop where
  size : s.runs.size ≤ s'.runs.size
  run : ∀ (n : Nat) r', s'.runs[n]? = some r' →
    (∃ r, s.runs[n]? = some r ∧ (r' = r ∨ r' = { r with cancelled := true })) ∨
      s.runs.size ≤ n ∧ r'.ended = false

theorem grows_of_runs_eq {s' : Scheduler} (h : s'.runs = s.runs) : s.Grows s' where
  size := h ▸ Nat.le_refl _
  run _ r' hr := .inl ⟨r', h ▸ hr, .inl rfl⟩

theorem Grows.trans {s' s'' : Scheduler} (h : s.Grows s') (h' : s'.Grows s'') : s.Grows s'' where
  size := Nat.le_trans h.size h'.size
  run n r'' hr := by
    rcases h'.run n r'' hr with ⟨r', hr', hkept'⟩ | ⟨hnew, hended⟩
    · rcases h.run n r' hr' with ⟨r, hr, hkept⟩ | ⟨hnew, hended⟩
      · refine .inl ⟨r, hr, ?_⟩
        rcases hkept with rfl | rfl
        · exact hkept'
        · exact .inr (hkept'.elim id id)
      · exact .inr ⟨hnew, by rcases hkept' with rfl | rfl <;> exact hended⟩
    · exact .inr ⟨Nat.le_trans h.size hnew, hended⟩

/-- A run stays where it is. -/
theorem Grows.kept {s' : Scheduler} (h : s.Grows s') {n : Nat} {r : Run}
    (hr : s.runs[n]? = some r) :
    ∃ r', s'.runs[n]? = some r' ∧ (r' = r ∨ r' = { r with cancelled := true }) := by
  obtain ⟨hn, -⟩ := Array.getElem?_eq_some_iff.mp hr
  have hn' : n < s'.runs.size := Nat.lt_of_lt_of_le hn h.size
  have hr' : s'.runs[n]? = some s'.runs[n] := Array.getElem?_eq_getElem hn'
  rcases h.run n _ hr' with ⟨r₀, hr₀, hkept⟩ | ⟨hnew, -⟩
  · obtain rfl := Option.some.inj (hr.symm.trans hr₀)
    exact ⟨_, hr', hkept⟩
  · omega

theorem grows_stop (s : Scheduler) (kind : RunKind) : s.Grows (s.stop kind) := by
  unfold stop
  split
  · exact grows_of_runs_eq rfl
  · rename_i k _
    constructor
    case size => simp [cancel, modifyRun]
    case run =>
      intro n r' hr
      rw [cancel, getElem?_modifyRun] at hr
      split at hr
      · obtain ⟨r, hbefore, rfl⟩ := Option.map_eq_some_iff.mp hr
        exact .inl ⟨r, hbefore, .inr rfl⟩
      · exact .inl ⟨r', hr, .inl rfl⟩

/-- The runs after a start: those after a stop, and the new one. -/
theorem runs_launch (kind : RunKind) (p : Plan) :
    (s.launch kind p).runs = (s.stop kind).runs.push { kind, plan := p } := by
  cases kind <;> rfl

theorem grows_launch (s : Scheduler) (kind : RunKind) (p : Plan) : s.Grows (s.launch kind p) := by
  refine (grows_stop s kind).trans ⟨?_, ?_⟩
  · simp [runs_launch]
  · intro n r' hr
    rw [runs_launch, Array.getElem?_push] at hr
    split at hr
    · rename_i hn
      cases hr
      exact .inr ⟨Nat.le_of_eq hn.symm, rfl⟩
    · exact .inl ⟨r', hr, .inl rfl⟩

theorem grows_obey (s : Scheduler) (o : Operation) : s.Grows (s.obey o) := by
  cases o with
  | switchPhase p => exact grows_of_runs_eq rfl
  | startFull => exact grows_launch s .full _
  | startIncremental utimeAfter interval =>
    rw [obey_startIncremental]
    split
    · exact grows_of_runs_eq rfl
    · exact grows_launch s .incremental _
  | stop kind => exact grows_stop s kind
  | shutdown => exact (grows_stop s .full).trans (grows_stop _ .incremental)

/-! ## What holds between commands -/

/-- The invariant of the scheduler. -/
structure Sound (s : Scheduler) : Prop where
  /-- The phase is the one that routes client traffic. -/
  phase : s.phase = s.routing
  /-- The current run of a kind is a run of this kind. -/
  stored : ∀ kind n, s.current kind = some n → ∃ r, s.runs[n]? = some r ∧ r.kind = kind
  /-- A run that is not cancelled is the current one of its kind. -/
  alone : ∀ (n : Nat) r, s.runs[n]? = some r → r.cancelled = false → s.current r.kind = some n

theorem sound_start (workplace : Workplace) (phase : Phase) : (start workplace phase).Sound where
  phase := rfl
  stored kind n h := by cases kind <;> cases h
  alone n r h := by simp [start] at h

theorem current_modifyRun (n : Nat) (f : Run → Run) (kind : RunKind) :
    (s.modifyRun n f).current kind = s.current kind := by
  cases kind <;> rfl

/-- To change a run leaves the invariant, unless it changes the kind or takes a cancellation
back. -/
theorem Sound.modifyRun (h : s.Sound) (n : Nat) {f : Run → Run} (hkind : ∀ r, (f r).kind = r.kind)
    (hcancel : ∀ r, (f r).cancelled = false → r.cancelled = false) : (s.modifyRun n f).Sound where
  phase := h.phase
  stored kind i hi := by
    rw [current_modifyRun] at hi
    obtain ⟨r, hr, hrkind⟩ := h.stored kind i hi
    rw [getElem?_modifyRun, hr]
    split
    · exact ⟨f r, rfl, (hkind r).trans hrkind⟩
    · exact ⟨r, rfl, hrkind⟩
  alone i r hr hlive := by
    rw [current_modifyRun]
    rw [getElem?_modifyRun] at hr
    split at hr
    · obtain ⟨r₀, hr₀, rfl⟩ := Option.map_eq_some_iff.mp hr
      rw [hkind]
      exact h.alone i r₀ hr₀ (hcancel r₀ hlive)
    · exact h.alone i r hr hlive

theorem Sound.finish (h : s.Sound) (n : Nat) : (s.finish n).Sound :=
  h.modifyRun n (fun _ => rfl) fun _ hlive => hlive

theorem Sound.stop (h : s.Sound) (kind : RunKind) : (s.stop kind).Sound := by
  unfold Scheduler.stop
  split
  · exact h
  · exact h.modifyRun _ (fun _ => rfl) fun _ hlive => nomatch hlive

theorem current_stop (kind kind' : RunKind) : (s.stop kind).current kind' = s.current kind' := by
  unfold stop
  split
  · rfl
  · exact current_modifyRun _ _ _

/-- **A stop leaves no run of its kind that is not cancelled.** -/
theorem Sound.cancelled_of_stop (h : s.Sound) {n : Nat} {r : Run} {kind : RunKind}
    (hr : (s.stop kind).runs[n]? = some r) (hkind : r.kind = kind) : r.cancelled = true := by
  rw [← Bool.not_eq_false]
  intro hlive
  have hcurrent := (h.stop kind).alone n r hr hlive
  rw [current_stop, hkind] at hcurrent
  -- so it is the run that was stopped
  have hstopped : (s.stop kind).runs[n]? = s.runs[n]?.map fun r =>
      { r with cancelled := true } := by
    simp [Scheduler.stop, hcurrent, cancel, getElem?_modifyRun]
  rw [hr] at hstopped
  obtain ⟨r₀, -, hr₀⟩ := Option.map_eq_some_iff.mp hstopped.symm
  rw [← hr₀] at hlive
  cases hlive

theorem current_launch_self (kind : RunKind) (p : Plan) :
    (s.launch kind p).current kind = some (s.stop kind).runs.size := by
  cases kind <;> rfl

theorem current_launch_of_ne {kind kind' : RunKind} (hne : kind' ≠ kind) (p : Plan) :
    (s.launch kind p).current kind' = s.current kind' := by
  rw [← current_stop (s := s) kind kind']
  cases kind <;> cases kind' <;> first | exact absurd rfl hne | rfl

/-- **A start keeps the invariant**: the run that it replaces has been cancelled. -/
theorem Sound.launch (h : s.Sound) (kind : RunKind) (p : Plan) : (s.launch kind p).Sound where
  phase := by
    have hphase : (s.stop kind).phase = (s.stop kind).routing := (h.stop kind).phase
    cases kind <;> exact hphase
  stored kind' n hn := by
    rw [runs_launch, Array.getElem?_push]
    by_cases hne : kind' = kind
    · subst hne
      rw [current_launch_self] at hn
      cases hn
      exact ⟨_, if_pos rfl, rfl⟩
    · rw [current_launch_of_ne hne, ← current_stop kind] at hn
      obtain ⟨r, hr, hkind⟩ := (h.stop kind).stored kind' n hn
      obtain ⟨hlt, -⟩ := Array.getElem?_eq_some_iff.mp hr
      rw [if_neg (Nat.ne_of_lt hlt)]
      exact ⟨r, hr, hkind⟩
  alone n r hr hlive := by
    rw [runs_launch, Array.getElem?_push] at hr
    split at hr
    · rename_i hn
      cases hr
      rw [current_launch_self, hn]
    · have hne : r.kind ≠ kind := by
        intro hkind
        rw [h.cancelled_of_stop hr hkind] at hlive
        cases hlive
      rw [current_launch_of_ne hne, ← current_stop kind]
      exact (h.stop kind).alone n r hr hlive

/-- **Every command keeps the invariant.** -/
theorem Sound.obey (h : s.Sound) (o : Operation) : (s.obey o).Sound := by
  cases o with
  | switchPhase p =>
    refine ⟨rfl, fun kind => ?_, fun n r => ?_⟩
    · cases kind
      · exact h.stored .full
      · exact h.stored .incremental
    · intro hr hlive
      have hcurrent := h.alone n r hr hlive
      cases hkind : r.kind <;> rw [hkind] at hcurrent <;> exact hcurrent
  | startFull => exact h.launch .full _
  | startIncremental utimeAfter interval =>
    rw [obey_startIncremental]
    split
    · exact h
    · exact h.launch .incremental _
  | stop kind => exact h.stop kind
  | shutdown => exact (h.stop .full).stop .incremental

/-! ## What a start does -/

theorem getElem?_stop (s : Scheduler) (kind : RunKind) (n : Nat) : (s.stop kind).runs[n]? =
    if s.current kind = some n then s.runs[n]?.map fun r =>
    { r with cancelled := true } else s.runs[n]? := by
  cases hcurrent : s.current kind with
  | none => simp [stop, hcurrent]
  | some k => simp [stop, hcurrent, cancel, getElem?_modifyRun]

theorem size_stop (s : Scheduler) (kind : RunKind) : (s.stop kind).runs.size = s.runs.size := by
  unfold stop
  split
  · rfl
  · simp [cancel, modifyRun]

/-- A run with this plan has taken the place of the current one of its kind, which has been
cancelled, and nothing else has changed. -/
structure Replaced (s s' : Scheduler) (kind : RunKind) (p : Plan) : Prop where
  workplace : s'.workplace = s.workplace
  phase : s'.phase = s.phase
  routing : s'.routing = s.routing
  highLoad : s'.highLoad = s.highLoad
  size : s'.runs.size = s.runs.size + 1
  /-- Every run but the current one of this kind is what it was. -/
  kept : ∀ n, n < s.runs.size → s.current kind ≠ some n → s'.runs[n]? = s.runs[n]?
  /-- The current run of another kind stays the current one, and what it was. -/
  others : ∀ kind', kind' ≠ kind → s'.current kind' = s.current kind' ∧
    ∀ n, s.current kind' = some n → s'.runs[n]? = s.runs[n]?
  cancelled : ∀ n, s.current kind = some n → ∃ r, s.runs[n]? = some r ∧ r.kind = kind ∧
    s'.runs[n]? = some { r with cancelled := true }
  current : s'.current kind = some s.runs.size
  started : s'.runs[s.runs.size]? = some { kind, plan := p }
  /-- No other run of this kind goes on. -/
  alone : ∀ (n : Nat) r, s'.runs[n]? = some r → r.kind = kind → r.cancelled = false →
    n = s.runs.size

/-- **A start replaces the current run of its kind and touches nothing else.** -/
theorem Sound.replaced (h : s.Sound) (kind : RunKind) (p : Plan) :
    s.Replaced (s.launch kind p) kind p := by
  have hruns : ∀ n, (s.launch kind p).runs[n]? =
      if n = s.runs.size then some { kind, plan := p } else (s.stop kind).runs[n]? := by
    intro n
    rw [runs_launch, Array.getElem?_push, size_stop]
  have hkept : ∀ n, n < s.runs.size → s.current kind ≠ some n →
      (s.launch kind p).runs[n]? = s.runs[n]? := by
    intro n hn hne
    rw [hruns, if_neg (Nat.ne_of_lt hn), getElem?_stop, if_neg hne]
  have hcurrent : (s.launch kind p).current kind = some s.runs.size := by
    rw [current_launch_self, size_stop]
  have hstop : (s.stop kind).workplace = s.workplace ∧ (s.stop kind).phase = s.phase ∧
      (s.stop kind).routing = s.routing ∧ (s.stop kind).highLoad = s.highLoad := by
    unfold Scheduler.stop
    split <;> exact ⟨rfl, rfl, rfl, rfl⟩
  obtain ⟨hworkplace, hphase, hrouting, hload⟩ := hstop
  constructor
  case workplace => cases kind <;> exact hworkplace
  case phase => cases kind <;> exact hphase
  case routing => cases kind <;> exact hrouting
  case highLoad => cases kind <;> exact hload
  case size => rw [runs_launch, Array.size_push, size_stop]
  case kept => exact hkept
  case others =>
    intro kind' hne
    refine ⟨current_launch_of_ne hne p, fun n hn => ?_⟩
    obtain ⟨r, hr, hkind⟩ := h.stored kind' n hn
    refine hkept n (Array.getElem?_eq_some_iff.mp hr).1 fun hsame => ?_
    -- a run is of one kind only
    obtain ⟨r', hr', hkind'⟩ := h.stored kind n hsame
    obtain rfl := Option.some.inj (hr.symm.trans hr')
    exact hne (hkind.symm.trans hkind')
  case cancelled =>
    intro n hn
    obtain ⟨r, hr, hkind⟩ := h.stored kind n hn
    refine ⟨r, hr, hkind, ?_⟩
    rw [hruns, if_neg (Nat.ne_of_lt (Array.getElem?_eq_some_iff.mp hr).1), getElem?_stop,
      if_pos hn, hr]
    rfl
  case current => exact hcurrent
  case started => rw [hruns, if_pos rfl]
  case alone =>
    intro n r hr hkind hlive
    have hn := (h.launch kind p).alone n r hr hlive
    rw [hkind, hcurrent] at hn
    exact (Option.some.inj hn).symm

end Scheduler
end Cutover
