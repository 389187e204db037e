import Cutover.Proofs.Pool.Site
import Cutover.Proofs.Repair.Stores
import Cutover.Proofs.Table.Content

/-! # A repair and a write at the same time

While a repair of a row is on its way a client may write to the pool.  Each of them makes two calls
of stores: the repair looks the row up in the base (`Fixer.fix_eq`) and writes what it saw to the
target (`Fixer.write_of_saw`); the pool carries the client's write out on the authoritative store
and repeats it on the other one.  Nothing keeps the calls of the one from falling between those of
the other.  A `Race` is the two at work, with the calls made so far in the order in which they were
made; both come to an end in every order (`Site.race_isOver`).
-/

namespace Cutover

open Dialogue Pool

/-! ## The second half of a repair -/

namespace Fixer

variable (f : Fixer) (id : Int64)

/-- What a repair does when it has looked the row up in the base. -/
def write : Except StoreError (Option Row) → Dialogue Work (Except CutoverError FixOutcome)
  | .error e => return .error (.store e)
  | .ok (some row) =>
    match f.table.upsert row f.columns with
    | .error e => return .error (.store e)
    | .ok b => do
      match ← f.target.exec (b.statement f.dialect) with
      | .error e => return .error (.store e)
      | .ok _ => return .ok .upserted
  | .ok none => do
    match ← f.target.exec ((f.table.deleteById id).statement f.dialect) with
    | .error e => return .error (.store e)
    | .ok _ => return .ok .deleted

theorem fix_eq :
    f.fix id = f.base.queryRow ((f.table.byId id).statement f.dialect) >>= f.write id := by
  refine congrArg (f.base.queryRow _ >>= ·) (funext fun reply => ?_)
  rcases reply with e | row | row <;> rfl

/-- The statements that a repair may send. -/
inductive Says : Statement → Prop where
  | lookup : Says ((f.table.byId id).statement f.dialect)
  | delete : Says ((f.table.deleteById id).statement f.dialect)
  | upsert {row : Row} {b : Sql.BoundCommand} : f.table.upsert row f.columns = .ok b →
      Says (b.statement f.dialect)

/-- How a repair ends. -/
def outcome (o : FixOutcome) : Except StoreError Nat → Except CutoverError FixOutcome
  | .error e => .error (.store e)
  | .ok _ => .ok o

variable {f id}

/-- **What a repair writes makes the target hold what it saw**, whatever the target holds by then,
and touches no other row. -/
theorem wrote_of_saw {d : Side} (id : Int64) (hf : f.Copies d f.table f.columns) {b : Table}
    (hb : b.Keyed f.table) (hcolumns : b.columns = f.columns) :
    ∃ st o, f.Says id st ∧
      f.write id (.ok ((b.lookup f.table id).map (b.shown none))) =
        (callStore d.other (.exec st) >>= fun reply => .done (outcome o reply)) ∧
      ∀ t : Table, t.Suits f.table f.columns → ∃ a t' row, t.runStatement st = .ok (a, t') ∧
        t.Wrote f.table id row t' ∧ t'.content f.table id = b.content f.table id := by
  have hend : ∀ o, (fun reply : Except StoreError Nat => (match reply with
      | .error e => return .error (.store e)
      | .ok _ => return .ok o : Dialogue Work (Except CutoverError FixOutcome))) =
      fun reply => .done (outcome o reply) := by
    intro o
    funext reply
    cases reply <;> rfl
  cases hlookup : b.lookup f.table id with
  | none =>
    refine ⟨_, .deleted, .delete, ?_, fun t ht => ?_⟩
    · rw [Option.map_none, write, hf.target]
      exact congrArg (callStore d.other _ >>= ·) (hend .deleted)
    · obtain ⟨n, t', hrun, hwrote⟩ := ht.keyed.deleteById_answer f.dialect id
      refine ⟨_, t', _, hrun, hwrote, ?_⟩
      rw [hwrote.content, Table.content, hlookup]
      rfl
  | some r =>
    obtain ⟨hr, rfl⟩ := hb.lookup_eq_some.mp hlookup
    obtain ⟨bound, -, -, -, hbound, -⟩ := hb.upsert_answer hb (fun _ => Iff.rfl) hr f.dialect
    rw [hcolumns] at hbound
    refine ⟨bound.statement f.dialect, .upserted, .upsert hbound, ?_, fun t ht => ?_⟩
    · rw [Option.map_some, write, hbound, hf.target]
      exact congrArg (callStore d.other _ >>= ·) (hend .upserted)
    · have hsame : b.SameColumns t := by
        intro c
        rw [hcolumns]
        exact ht.columns c
      obtain ⟨bound', n, new, t', hbound', hrun, hwrote, hcells⟩ :=
        hb.upsert_answer ht.keyed hsame hr f.dialect
      rw [hcolumns, hbound] at hbound'
      obtain rfl := Except.ok.inj hbound'
      refine ⟨_, t', _, hrun, hwrote, ?_⟩
      rw [hwrote.content, Table.content, hlookup, Option.map_some, Option.map_some,
        hsame.cell_eq hcells]

/-- What a repair writes leaves a table of the same kind. -/
theorem write_of_saw {d : Side} (hf : f.Copies d f.table f.columns) {b : Table}
    (hb : b.Keyed f.table) (hcolumns : b.columns = f.columns) :
    ∃ st o, f.Says id st ∧
      f.write id (.ok ((b.lookup f.table id).map (b.shown none))) =
        (callStore d.other (.exec st) >>= fun reply => .done (outcome o reply)) ∧
      ∀ t : Table, t.Suits f.table f.columns → ∃ a t', t.runStatement st = .ok (a, t') ∧
        t'.Suits f.table f.columns ∧ t'.content f.table id = b.content f.table id := by
  obtain ⟨st, o, hsays, hwrite, hwrote⟩ := wrote_of_saw id hf hb hcolumns
  refine ⟨st, o, hsays, hwrite, fun t ht => ?_⟩
  obtain ⟨a, t', row, hrun, hrow, hcontent⟩ := hwrote t ht
  exact ⟨a, t', hrun, hrow.suits ht, hcontent⟩

end Fixer

/-! ## The two at work -/

/-- Whether a conversation is over. -/
def Dialogue.isDone {I : Interface} {α : Type} : Dialogue I α → Bool
  | .done _ => true
  | .ask .. => false

/-- Who makes a call. -/
inductive Actor where
  | repair
  | client
  deriving DecidableEq

/-- A repair and a write of a client at work, and who has made the calls of stores so far. -/
structure Race (σ : Side → Type) where
  moment : Moment σ
  repair : Dialogue Work (Except CutoverError FixOutcome)
  client : Dialogue Work (Except StoreError Nat)
  calls : List Actor := []

/-- Whether both are over. -/
def Race.isOver {σ : Side → Type} (r : Race σ) : Bool := r.repair.isDone && r.client.isDone

namespace Site

variable {σ : Side → Type} (S : Site σ) {α : Type}

/-- What is left of a conversation when its next request has been answered, the moment after it, and
whether the request was a call. -/
def turn : Dialogue Work α → Moment σ → Dialogue Work α × Moment σ × Bool
  | .done a, m => (.done a, m, false)
  | .ask r next, m =>
    (next (S.answer r m).1, (S.answer r m).2, match r with | .call .. => true | _ => false)

variable {m : Moment σ}

theorem turn_callStore (on : Side) (c : Call) (f : Except StoreError c.Result → Dialogue Work α) :
    S.turn (callStore on c >>= f) m =
      (f ((S.backend on).carry c (m.held on)).1, m.put on ((S.backend on).carry c (m.held on)).2,
        true) := rfl

theorem turn_phase (f : Phase → Dialogue Work α) :
    S.turn (Pool.phase >>= f) m = (f (S.phase m.time), m.tick, false) := rfl

/-- The race after the next request of one of the two. -/
def advance (r : Race σ) : Actor → Race σ
  | .repair =>
    let (d, m, called) := S.turn r.repair r.moment
    { r with repair := d, moment := m, calls := if called then r.calls ++ [.repair] else r.calls }
  | .client =>
    let (d, m, called) := S.turn r.client r.moment
    { r with client := d, moment := m, calls := if called then r.calls ++ [.client] else r.calls }

section
variable {S} {r : Race σ}

theorem advance_repair {d : Dialogue Work (Except CutoverError FixOutcome)} {called : Bool}
    (h : S.turn r.repair r.moment = (d, m, called)) :
    S.advance r .repair =
      { r with repair := d, moment := m, calls := if called then r.calls ++ [.repair]
        else r.calls } := by
  rw [advance, h]

theorem advance_repair_of_done {a : Except CutoverError FixOutcome} (h : r.repair = .done a) :
    S.advance r .repair = r := by
  obtain ⟨m, repair, client, calls⟩ := r
  obtain rfl := h
  rfl

theorem advance_client {d : Dialogue Work (Except StoreError Nat)} {called : Bool}
    (h : S.turn r.client r.moment = (d, m, called)) :
    S.advance r .client =
      { r with client := d, moment := m, calls := if called then r.calls ++ [.client]
        else r.calls } := by
  rw [advance, h]

theorem advance_client_of_done {a : Except StoreError Nat} (h : r.client = .done a) :
    S.advance r .client = r := by
  obtain ⟨m, repair, client, calls⟩ := r
  obtain rfl := h
  rfl

end

/-- The race after any number of requests, made in this order. -/
def race (schedule : List Actor) (r : Race σ) : Race σ := schedule.foldl S.advance r

end Site

/-! ## How long the two take -/

/-- The conversation is over after so many requests at most, whatever the replies are. -/
def Dialogue.Within {I : Interface} {α : Type} : Nat → Dialogue I α → Prop
  | _, .done _ => True
  | 0, .ask .. => False
  | n + 1, .ask _ next => ∀ reply, (next reply).Within n

theorem Dialogue.Within.mono {I : Interface} {α : Type} {d : Dialogue I α} {n k : Nat}
    (h : d.Within n) (hk : n ≤ k) : d.Within k := by
  induction n generalizing d k with
  | zero =>
    cases d with
    | done a => cases k <;> trivial
    | ask r next => exact h.elim
  | succ n ih =>
    obtain ⟨k, rfl⟩ := Nat.exists_eq_add_of_le' (Nat.one_le_of_lt hk)
    cases d with
    | done a => trivial
    | ask r next => exact fun reply => ih (h reply) (Nat.le_of_succ_le_succ hk)

theorem Dialogue.Within.isDone {I : Interface} {α : Type} {d : Dialogue I α} (h : d.Within 0) :
    d.isDone = true := by
  cases d with
  | done a => rfl
  | ask r next => exact h.elim

section
variable {f : Fixer} {d : Side} {s : TableSpec} {columns : List String}

theorem Fixer.write_within (hf : f.Copies d s columns) (id : Int64)
    (reply : Except StoreError (Option Row)) : (f.write id reply).Within 1 := by
  rcases reply with e | _ | row
  · trivial
  · rw [Fixer.write, hf.target]
    intro reply
    cases reply <;> trivial
  · rw [Fixer.write]
    cases f.table.upsert row f.columns with
    | error e => trivial
    | ok b =>
      rw [hf.target]
      intro reply
      cases reply <;> trivial

/-- A repair makes two requests at most: it looks the row up and writes what it saw. -/
theorem Fixer.fix_within (hf : f.Copies d s columns) (id : Int64) : (f.fix id).Within 2 := by
  rw [f.fix_eq, hf.base]
  exact f.write_within hf id

end

/-- A write of a client makes three requests at most: it asks for the phase and writes both
stores. -/
theorem Pool.exec_within (st : Statement) : (Pool.exec st).Within 3 := by
  rw [Pool.exec_eq]
  intro p reply
  cases reply with
  | error e => trivial
  | ok n =>
    cases p.secondary? with
    | none => trivial
    | some side => exact fun _ => trivial

namespace Site

variable {σ : Side → Type} {S : Site σ} {α : Type} {m : Moment σ}

theorem within_turn {d : Dialogue Work α} {n : Nat} (h : d.Within (n + 1)) :
    (S.turn d m).1.Within n := by
  cases d with
  | done a => cases n <;> trivial
  | ask r next => exact h _

/-- **A race is over when each of the two has had as many turns as it takes**, in whatever order. -/
theorem race_isOver {schedule : List Actor} {r : Race σ}
    (hrepair : r.repair.Within (schedule.count .repair))
    (hclient : r.client.Within (schedule.count .client)) : (S.race schedule r).isOver = true := by
  induction schedule generalizing r with
  | nil => exact Bool.and_eq_true_iff.mpr ⟨hrepair.isDone, hclient.isDone⟩
  | cons a schedule ih =>
    cases a with
    | repair =>
      rw [List.count_cons_self] at hrepair
      rw [List.count_cons_of_ne (by decide)] at hclient
      exact ih (within_turn hrepair) hclient
    | client =>
      rw [List.count_cons_of_ne (by decide)] at hrepair
      rw [List.count_cons_self] at hclient
      exact ih hrepair (within_turn hclient)

end Site

end Cutover
