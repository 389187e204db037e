import Cutover.Proofs.Scheduler.Commands
import Cutover.Proofs.Validation.Publishing

/-! # Validations under supervision

The operator gives commands while the validations that earlier commands started are at work.  A
command takes effect at once and as a whole; between any two of them any number of requests of any
run may be answered, and between any two requests of a run any number of commands may be given
(`Supervision.Step`).  A run never looks at the scheduler.  All that reaches it is the cancellation
of its token: a request that yields to a cancellation has no reply exactly when the token has been
cancelled (`Scanning.Heeds`).  What the stores and the channel reply otherwise is left open.

An event is on the topic when the channel has accepted it.  Of each the supervision notes which run
published it and which phase the scheduler was in at that moment.
-/

namespace Cutover

open Dialogue

/-! ## Runs at work -/

namespace Scanning

/-- How the token of a run shows in the replies. -/
def Heeds (cancelled : Bool) : (r : Request) → Scanning.Reply r → Prop
  | .cancelled, reply => reply = cancelled
  | .guarded _, reply => Option.isNone reply = cancelled
  | .loaded, _ | .awaited _, _ => True

theorem heeds_replies (tables : Side → Table) (r : Interface.Request Scanning) :
    Heeds false r (replies tables r) := by
  cases r with
  | loaded | awaited c => trivial
  | cancelled | guarded c => rfl

/-- The replies of tables that stay as they are, to a run whose token is as said. -/
def repliesUnder (cancelled : Bool) (tables : Side → Table) :
    (r : Interface.Request Scanning) → Scanning.Reply r
  | .cancelled => cancelled
  | .loaded => false
  | .guarded c => if cancelled then none else some (c.answered tables)
  | .awaited c => c.answered tables

theorem heeds_repliesUnder (cancelled : Bool) (tables : Side → Table)
    (r : Interface.Request Scanning) : Heeds cancelled r (repliesUnder cancelled tables r) := by
  cases r with
  | loaded | awaited c => trivial
  | cancelled => rfl
  | guarded c => cases cancelled <;> rfl

theorem undisturbed_repliesUnder (tables : Side → Table) (r : Interface.Request Scanning) :
    Undisturbed tables r (repliesUnder false tables r) := by
  cases r with
  | loaded => trivial
  | cancelled | guarded c | awaited c => rfl

/-- The event that a reply brings to the topic. -/
def Request.accepted : (r : Request) → Scanning.Reply r → List Event
  | .publish e, some (.ok _) => [e]
  | .awaited (.publish e), .ok _ => [e]
  | _, _ => []

theorem mem_published_of_accepted {r : Request} {reply : Scanning.Reply r} {e : Event}
    (h : e ∈ r.accepted reply) : e ∈ r.published := by
  unfold Request.accepted at h
  split at h
  · exact h
  · exact h
  · cases h

/-- Nothing is accepted of what yields to the cancellation. -/
theorem accepted_of_cancelled {r : Request} {reply : Scanning.Reply r} (hr : r.Yields)
    (h : Heeds true r reply) : r.accepted reply = [] := by
  cases r with
  | cancelled | loaded => rfl
  | awaited c => exact hr.elim
  | guarded c =>
    obtain rfl := Option.isNone_iff_eq_none.mp h
    cases c <;> rfl

end Scanning

/-- A run at work: the phase in which it began, and its scans. -/
structure Supervision.Charge where
  began : Phase
  scanner : Way → Scanner

/-- An event on the topic: the run that published it, and the phase of the scheduler at that
moment. -/
structure Publication where
  run : Nat
  event : Event
  phase : Phase
  deriving DecidableEq

/-- The scheduler, its runs at work, and what they have published. -/
structure Supervision where
  scheduler : Scheduler
  work : List Supervision.Charge := []
  published : List Publication := []

namespace Supervision

/-- What the stores and the channel may reply while a token is not cancelled. -/
abbrev Replies : Type := (r : Scanning.Request) → Scanning.Reply r → Prop

variable (v : Supervision) (stores : Replies)

/-- Before the first command. -/
def start (workplace : Workplace) (phase : Phase) : Supervision where
  scheduler := .start workplace phase

/-- After a command; the runs it has started are at their beginning. -/
def obey (o : Operation) : Supervision where
  scheduler := v.scheduler.obey o
  work := v.work ++ ((v.scheduler.obey o).plans.drop v.work.length).map fun p =>
    ⟨v.scheduler.phase, (Validating.start p ()).scanner⟩
  published := v.published

/-- How the requests of a run are answered, and what is published by that. -/
def gives (n : Nat) (run : Run) : Surroundings Scanning (List Publication) :=
  fun ps r reply ps' =>
    Scanning.Heeds run.cancelled r reply ∧ (run.cancelled = false → stores r reply) ∧
      ps' = ps ++ (r.accepted reply).map (⟨n, ·, v.scheduler.phase⟩)

/-- A step: a command, a step of a run that is not over, or that its end is noted. -/
inductive Step : Supervision → Supervision → Prop where
  | obeyed (v : Supervision) (o : Operation) : Step v (v.obey o)
  | scanned {v : Supervision} {n : Nat} {run : Run} {w : Charge}
      {x : Validating (List Publication)} : v.scheduler.runs[n]? = some run → v.work[n]? = some w →
      Validating.Step run.plan (fun _ => v.gives stores n run) ⟨v.published, w.scanner⟩ x →
      Step v { v with published := x.shared, work := v.work.set n { w with scanner := x.scanner } }
  | ended {v : Supervision} {n : Nat} {w : Charge} {r : Except StoreError Tally} :
      v.work[n]? = some w → (⟨(), w.scanner⟩ : Validating Unit).outcome? = some r →
      Step v { v with scheduler := v.scheduler.finish n }

/-- A run of the supervision: any number of steps. -/
abbrev Reaches : Supervision → Supervision → Prop := Relation.ReflTransGen (Step stores)

/-! ## Every run and its scans -/

/-- What holds of the plan of every run and of its scans, which are one for each plan. -/
structure Every (v : Supervision) (Q : Plan → Charge → Prop) : Prop where
  length : v.work.length = v.scheduler.plans.length
  each : ∀ (n : Nat) (p : Plan) (w : Charge), v.scheduler.plans[n]? = some p → v.work[n]? = some w →
    Q p w

variable {v : Supervision} {Q : Plan → Charge → Prop}

theorem every_start (workplace : Workplace) (phase : Phase) : (start workplace phase).Every Q where
  length := rfl
  each n p w hp := by simp [start, Scheduler.start, Scheduler.plans] at hp

/-- **After a command it is enough to look at the runs it has started**: they are at their beginning
and have the direction of the present phase. -/
theorem Every.obeyed (h : v.Every Q) (o : Operation)
    (hnew : ∀ p : Plan, p.base = v.scheduler.phase.authoritative →
      p.target = v.scheduler.phase.authoritative.other →
      p.direction = v.scheduler.phase.authoritative →
      Q p ⟨v.scheduler.phase, (Validating.start p ()).scanner⟩) : (v.obey o).Every Q := by
  obtain ⟨new, hplans, hphase⟩ := v.scheduler.plans_obey o
  have hplans : (v.obey o).scheduler.plans = v.scheduler.plans ++ new := hplans
  have hwork : (v.obey o).work =
      v.work ++ new.map fun p => ⟨v.scheduler.phase, (Validating.start p ()).scanner⟩ := by
    show v.work ++ ((v.obey o).scheduler.plans.drop v.work.length).map _ = _
    rw [hplans, h.length, List.drop_left]
  constructor
  case length =>
    rw [hwork, hplans, List.length_append, List.length_append, List.length_map, h.length]
  case each =>
    intro n p w hp hw
    rw [hplans] at hp
    rw [hwork] at hw
    by_cases hn : n < v.work.length
    · rw [List.getElem?_append_left (h.length ▸ hn)] at hp
      rw [List.getElem?_append_left hn] at hw
      exact h.each n p w hp hw
    · have hn : v.work.length ≤ n := Nat.le_of_not_lt hn
      rw [List.getElem?_append_right (h.length ▸ hn), ← h.length] at hp
      rw [List.getElem?_append_right hn, List.getElem?_map, hp] at hw
      obtain rfl := Option.some.inj hw
      obtain ⟨hbase, htarget, hdirection⟩ := hphase p (List.mem_of_getElem? hp)
      exact hnew p hbase htarget hdirection

/-- A step of a run leaves the others alone. -/
theorem Every.scanned (h : v.Every Q) {n : Nat} {run : Run} {w w' : Charge} {ps : List Publication}
    (hrun : v.scheduler.runs[n]? = some run) (hw : v.work[n]? = some w) (hQ : Q run.plan w') :
    Every { v with published := ps, work := v.work.set n w' } Q where
  length := List.length_set.trans h.length
  each i p u hp hu := by
    have hn : n < v.work.length := (List.getElem?_eq_some_iff.mp hw).1
    rw [List.getElem?_set] at hu
    by_cases hi : n = i
    · subst hi
      rw [if_pos rfl, if_pos hn] at hu
      obtain rfl := Option.some.inj hu
      obtain rfl := Option.some.inj ((Scheduler.getElem?_plans hrun).symm.trans hp)
      exact hQ
    · rw [if_neg hi] at hu
      exact h.each i p u hp hu

/-- That an end is noted changes neither plans nor scans. -/
theorem Every.ended (h : v.Every Q) (n : Nat) :
    Every { v with scheduler := v.scheduler.finish n } Q := by
  have hplans : (v.scheduler.finish n).plans = v.scheduler.plans := Scheduler.plans_finish n
  exact ⟨h.length.trans (congrArg List.length hplans.symm), hplans ▸ h.each⟩

/-! ## A supervision that is told how to go on -/

/-- What may happen next: a command, a step of a scan of a run, or that the end of a run is
noted. -/
inductive Move where
  | command (o : Operation)
  | scan (n : Nat) (way : Way)
  | note (n : Nat)

/-- What the supervision comes to by a step of a scan of a run, on tables that stay as they are. -/
def goOn (tables : Side → Table) (v : Supervision) (n : Nat) (run : Run) (w : Charge) (way : Way) :
    Supervision :=
  let after (c : Scanner) := v.work.set n { w with scanner := Function.update w.scanner way c }
  match (⟨(), w.scanner⟩ : Validating Unit).outcome?, w.scanner way with
  | none, .running (.done verdict) => { v with work := after ((run.plan.scan way).next verdict) }
  | none, .running (.ask r next) =>
    let reply := Scanning.repliesUnder run.cancelled tables r
    { v with
      published :=
        v.published ++ (Scanning.Request.accepted r reply).map (⟨n, ·, v.scheduler.phase⟩)
      work := after (.running (next reply)) }
  | _, _ => v

theorem reaches_goOn {tables : Side → Table} {n : Nat} {run : Run} {w : Charge}
    (hrun : v.scheduler.runs[n]? = some run) (hw : v.work[n]? = some w) (way : Way) :
    Reaches (Scanning.Undisturbed tables) v (v.goOn tables n run w way) := by
  unfold goOn
  split
  · rename_i verdict hopen hd
    refine .single (.scanned hrun hw (.scan way hopen ?_))
    dsimp only
    rw [hd]
    exact .rounded _ verdict
  · rename_i r next hopen hd
    refine .single (.scanned hrun hw (.scan way hopen ?_))
    dsimp only
    rw [hd]
    refine .answered ⟨Scanning.heeds_repliesUnder run.cancelled tables r, fun hfree => ?_, rfl⟩
    rw [hfree]
    exact Scanning.undisturbed_repliesUnder tables r
  · exact .refl

/-- What the supervision comes to by a move; one that cannot be made changes nothing. -/
def move (tables : Side → Table) (v : Supervision) : Move → Supervision
  | .command o => v.obey o
  | .scan n way =>
    match v.scheduler.runs[n]?, v.work[n]? with
    | some run, some w => v.goOn tables n run w way
    | _, _ => v
  | .note n =>
    match v.work[n]? with
    | some w =>
      if (⟨(), w.scanner⟩ : Validating Unit).outcome?.isSome then
        { v with scheduler := v.scheduler.finish n }
      else v
    | none => v

theorem reaches_move (tables : Side → Table) (v : Supervision) (m : Move) :
    Reaches (Scanning.Undisturbed tables) v (v.move tables m) := by
  cases m with
  | command o => exact .single (.obeyed v o)
  | scan n way =>
    dsimp only [move]
    split
    · rename_i run w hrun hw
      exact reaches_goOn hrun hw way
    · exact .refl
  | note n =>
    dsimp only [move]
    split
    · rename_i w hw
      split
      · rename_i hover
        obtain ⟨r, hr⟩ := Option.isSome_iff_exists.mp hover
        exact .single (.ended hw hr)
      · exact .refl
    · exact .refl

/-- Any moves may follow each other. -/
theorem reaches_moves (tables : Side → Table) (v : Supervision) (ms : List Move) :
    Reaches (Scanning.Undisturbed tables) v (ms.foldl (move tables) v) := by
  induction ms generalizing v with
  | nil => exact .refl
  | cons m ms ih => exact (reaches_move tables v m).trans (ih (v.move tables m))

/-- Where a table of items is moved. -/
def bench : Workplace where
  table := .items

/-- A table of which the source has a row that the destination lacks. -/
def onlyInSource : Side → Table
  | .src => ⟨"items", "id", ["id", "name"], [[.int 1, .text "a"]]⟩
  | .dst => ⟨"items", "id", ["id", "name"], []⟩

end Supervision
end Cutover
