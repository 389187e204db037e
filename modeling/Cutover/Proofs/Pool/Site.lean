import Cutover.Pool
import Cutover.Proofs.Pool.Client
import Mathlib.Logic.Function.Basic

/-! # The two stores under the pool

A store is a machine (`Backend`): what it makes of a call depends on the state it is in, and nothing
is said about how.  Its faults are part of it.  A `Site` is the stores of both sides and the phase
in force at each moment.  Every request of the pool takes one moment, so a switch of the phase may
fall between any two of them, in the middle of a call as well as between calls.

A store and the pool over both are services alike (`Backend.service`, `Site.service`).  All writes
of the pool have one form, a call of one store followed by work on the other (`Pool.followedBy`),
and what they come to is said once for that form (`Site.carryOut_followedBy`).
-/

namespace Cutover

open Dialogue Pool

theorem Side.eq_or_eq_other (d on : Side) : d = on ∨ d = on.other := by
  cases d <;> cases on <;> decide

/-- A store as a machine. -/
structure Backend (σ : Type) where
  /-- The answer to a call, and the state after it. -/
  carry : (c : Call) → σ → Except StoreError c.Result × σ
  /-- The state after a transaction has been let go. -/
  release : Nat → σ → σ

/-- A store as a client is given it. -/
def Backend.service {σ : Type} (b : Backend σ) : Service σ Nat where
  exec s := b.carry (.exec s)
  query s := b.carry (.query s)
  queryRow s := b.carry (.queryRow s)
  columns sql := b.carry (.columns sql)
  begin := b.carry .begin
  execIn tx s := b.carry (.txExec tx s)
  queryIn tx s := b.carry (.txQuery tx s)
  queryRowIn tx s := b.carry (.txQueryRow tx s)
  commit tx := b.carry (.txCommit tx)
  rollback tx := b.carry (.txRollback tx)
  drop := b.release

/-- The stores of the two sides, each with states of its own kind, and the phase at each moment. -/
structure Site (σ : Side → Type) where
  backend : (side : Side) → Backend (σ side)
  phase : Nat → Phase

/-- The states of the two stores at a moment. -/
structure Moment (σ : Side → Type) where
  held : (side : Side) → σ side
  time : Nat := 0

namespace Moment

variable {σ : Side → Type} (m : Moment σ)

/-- The next moment, at which a store is in another state. -/
def put (on : Side) (x : σ on) : Moment σ := ⟨Function.update m.held on x, m.time + 1⟩

/-- The next moment, at which both stores are as they were. -/
def tick : Moment σ := { m with time := m.time + 1 }

@[simp] theorem held_tick : m.tick.held = m.held := rfl

@[simp] theorem held_put_self (on : Side) (x : σ on) : (m.put on x).held on = x :=
  Function.update_self _ _ _

@[simp] theorem held_put_of_ne {on d : Side} (h : d ≠ on) (x : σ on) :
    (m.put on x).held d = m.held d :=
  Function.update_of_ne h _ _

end Moment

/-! ## The form of the pool's writes -/

/-- A phase that writes both repeats on the other side what it does on the authoritative one. -/
theorem Phase.secondary?_eq {p : Phase} (hp : p.writesBoth) :
    p.secondary? = some p.authoritative.other :=
  if_pos hp

/-- The second store of a phase is not the first. -/
theorem Phase.secondary?_ne {p : Phase} {d : Side} (h : p.secondary? = some d) :
    d ≠ p.authoritative := by
  rw [Phase.secondary?] at h
  split at h
  · cases h
    exact Side.other_ne _
  · cases h

namespace Pool

/-- Work that does not change the answer to a call, done when the call succeeded. -/
def followUp {α : Type} (d : Dialogue Work Unit) :
    Except StoreError α → Dialogue Work (Except StoreError α)
  | .error e => return .error e
  | .ok a => do
    d
    return .ok a

/-- A call of one store and, when it succeeded, work that the answer does not depend on. -/
def followedBy (on : Side) (c : Call) (d : Dialogue Work Unit) :
    Dialogue Work (Except StoreError c.Result) :=
  callStore on c >>= followUp d

theorem exec_eq (s : Statement) :
    exec s = phase >>= fun p =>
      followedBy p.authoritative (.exec s) (repeatOn p.secondary? (.exec s)) := by
  refine congrArg (phase >>= ·) (funext fun p =>
    congrArg (callStore _ _ >>= ·) (funext fun r => ?_))
  cases r <;> rfl

namespace Transaction

variable (t : Transaction)

theorem exec_eq (s : Statement) :
    t.exec s = followedBy t.primary.side (.txExec t.primary.tx s) (t.repeatCall (.txExec · s)) := by
  refine congrArg (callStore _ _ >>= ·) (funext fun r => ?_)
  cases r <;> rfl

theorem commit_eq :
    t.commit = followedBy t.primary.side (.txCommit t.primary.tx) (t.repeatCall .txCommit) := by
  refine congrArg (callStore _ _ >>= ·) (funext fun r => ?_)
  cases r <;> rfl

theorem rollback_eq :
    t.rollback = followedBy t.primary.side (.txRollback t.primary.tx)
    (t.repeatCall .txRollback) := by
  refine congrArg (callStore _ _ >>= ·) (funext fun r => ?_)
  cases r <;> rfl

end Transaction
end Pool

/-! ## Conversations at a site -/

namespace Site

variable {σ : Side → Type} (S : Site σ)

/-- The reply to a request of the pool, and the next moment. -/
def answer : (r : Work.Request) → Moment σ → Work.Reply r × Moment σ
  | .call on c, m =>
    let (reply, x) := (S.backend on).carry c (m.held on)
    (reply, m.put on x)
  | .phase, m => (S.phase m.time, m.tick)
  | .pause _, m => ((), m.tick)
  | .chance, m => ((0 : Nat), m.tick)

/-- What a conversation comes to, and the moment after it. -/
def carryOut {α : Type} (d : Dialogue Work α) (m : Moment σ) : α × Moment σ := d.runWith S.answer m

section
variable {α β : Type} {m : Moment σ}

theorem carryOut_bind (d : Dialogue Work α) (f : α → Dialogue Work β) :
    S.carryOut (d >>= f) m = S.carryOut (f (S.carryOut d m).1) (S.carryOut d m).2 :=
  runWith_bind _ d f m

@[simp]
theorem carryOut_phase (f : Phase → Dialogue Work β) :
    S.carryOut (Pool.phase >>= f) m = S.carryOut (f (S.phase m.time)) m.tick := rfl

theorem carryOut_callStore (on : Side) (c : Call) :
    S.carryOut (callStore on c) m =
      (((S.backend on).carry c (m.held on)).1, m.put on ((S.backend on).carry c (m.held on)).2) :=
      rfl

theorem carryOut_repeatOn (side : Side) (c : Call) :
    (S.carryOut (repeatOn (some side) c) m).2 =
      m.put side ((S.backend side).carry c (m.held side)).2 := rfl

/-- **What follows a call is carried out when the call succeeded**, and the answer is that of the
call. -/
theorem carryOut_followedBy (on : Side) (c : Call) (d : Dialogue Work Unit) :
    S.carryOut (followedBy on c d) m =
      match (S.backend on).carry c (m.held on) with
      | (.error e, x) => (.error e, m.put on x)
      | (.ok r, x) => (.ok r, (S.carryOut d (m.put on x)).2) := by
  rw [followedBy, carryOut_bind, carryOut_callStore]
  rcases (S.backend on).carry c (m.held on) with ⟨e | r, x⟩
  · rfl
  · exact S.carryOut_bind d _

/-- **A transaction begins when the authoritative store begins one**, and has a second branch if the
other store is asked for one and begins it. -/
theorem carryOut_begin {on : Side} (hon : (S.phase m.time).authoritative = on) :
    S.carryOut Pool.begin m =
      match (S.backend on).carry .begin (m.held on) with
      | (.error e, x) => (.error e, m.tick.put on x)
      | (.ok tx, x) =>
        match (S.phase m.time).secondary? with
        | none => (.ok ⟨⟨on, tx⟩, none⟩, m.tick.put on x)
        | some side =>
          match (S.backend side).carry .begin ((m.tick.put on x).held side) with
          | (.error _, y) => (.ok ⟨⟨on, tx⟩, none⟩, (m.tick.put on x).put side y)
          | (.ok tx', y) => (.ok ⟨⟨on, tx⟩, some ⟨side, tx'⟩⟩, (m.tick.put on x).put side y) := by
  subst hon
  rw [Pool.begin, carryOut_phase, carryOut_bind, carryOut_callStore, Moment.held_tick]
  rcases (S.backend (S.phase m.time).authoritative).carry .begin
    (m.held (S.phase m.time).authoritative) with ⟨e | tx, x⟩
  · rfl
  · dsimp only
    cases (S.phase m.time).secondary? with
    | none => rfl
    | some side =>
      dsimp only
      rw [carryOut_bind, carryOut_callStore]
      rcases (S.backend side).carry .begin
        ((m.tick.put (S.phase m.time).authoritative x).held side) with ⟨e | tx', y⟩ <;> rfl

end

/-- A branch of a transaction is let go. -/
def release (b : Branch) (m : Moment σ) : Moment σ :=
  { m with held := Function.update m.held b.side ((S.backend b.side).release b.tx (m.held b.side)) }

theorem held_release_self (b : Branch) (m : Moment σ) :
    (S.release b m).held b.side = (S.backend b.side).release b.tx (m.held b.side) :=
  Function.update_self _ _ _

theorem held_release_of_ne {b : Branch} {d : Side} (h : d ≠ b.side) (m : Moment σ) :
    (S.release b m).held d = m.held d :=
  Function.update_of_ne h _ _

/-- The second branch of a transaction is let go. -/
def releaseSecond (t : Transaction) (m : Moment σ) : Moment σ :=
  match t.secondary with
  | none => m
  | some b => S.release b m

theorem releaseSecond_of_some {t : Transaction} {b : Branch} (h : t.secondary = some b)
    (m : Moment σ) : S.releaseSecond t m = S.release b m := by
  rw [releaseSecond, h]

/-- The end of a transaction: when the authoritative branch fails, the second one is let go. -/
def ending {α : Type} (t : Transaction) (d : Dialogue Work (Except StoreError α)) (m : Moment σ) :
    Except StoreError α × Moment σ :=
  match S.carryOut d m with
  | (.ok a, m) => (.ok a, m)
  | (.error e, m) => (.error e, S.releaseSecond t m)

theorem ending_followedBy (t : Transaction) (on : Side) (c : Call) (d : Dialogue Work Unit)
    (m : Moment σ) :
    S.ending t (followedBy on c d) m =
      match (S.backend on).carry c (m.held on) with
      | (.error e, x) => (.error e, S.releaseSecond t (m.put on x))
      | (.ok r, x) => (.ok r, (S.carryOut d (m.put on x)).2) := by
  rw [ending, carryOut_followedBy]
  rcases (S.backend on).carry c (m.held on) with ⟨e | r, x⟩ <;> rfl

/-- The pool as a client is given it. -/
def service : Service (Moment σ) Transaction where
  exec s := S.carryOut (Pool.exec s)
  query s := S.carryOut (Pool.query s)
  queryRow s := S.carryOut (Pool.queryRow s)
  columns sql := S.carryOut (Pool.columns sql)
  begin := S.carryOut Pool.begin
  execIn t s := S.carryOut (t.exec s)
  queryIn t s := S.carryOut (t.query s)
  queryRowIn t s := S.carryOut (t.queryRow s)
  commit t := S.ending t t.commit
  rollback t := S.ending t t.rollback
  drop t m := S.releaseSecond t (S.release t.primary m)

end Site
end Cutover
