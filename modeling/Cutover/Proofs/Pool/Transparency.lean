import Cutover.Proofs.Pool.Site
import Cutover.Rehearsal.Replica

/-! # The pool is transparent

While every phase has the same authoritative store, the pool answers as that store would by itself,
and what it does elsewhere is of no consequence.  The reason is one observation about each of its
calls: the answer is the one that the authoritative store gave, and all that follows is asked of the
other store, with nothing made of the replies (`answerAlike_followedBy`).  A transaction of the pool
stands for the transaction of its first branch.  So the pool mirrors the authoritative store
(`mirrors`), and no client can tell them apart, nor tell from its results what the other store does.
-/

namespace Cutover

open Dialogue Pool

namespace Site

variable {σ : Side → Type} {α : Type} {S : Site σ} {a : Side} {m : Moment σ}

/-- All phases have this side's store as the authoritative one. -/
def Keeps (S : Site σ) (a : Side) : Prop := ∀ n, (S.phase n).authoritative = a

/-- The store of a side is in a state. -/
def HoldsOn (a : Side) (m : Moment σ) (x : σ a) : Prop := m.held a = x

/-- A transaction of the pool that has its first branch, under a number, in the store of a side and
nothing else there. -/
def StandsFor (a : Side) (t : Transaction) (tx : Nat) : Prop :=
  t.primary = ⟨a, tx⟩ ∧ ∀ b, t.secondary = some b → b.side ≠ a

/-- Work that leaves the store of a side as it is. -/
def Spares (S : Site σ) (a : Side) (d : Dialogue Work α) : Prop :=
  ∀ m, (S.carryOut d m).2.held a = m.held a

/-! ## The other store -/

theorem spares_callStore {on : Side} (h : on ≠ a) (c : Call) : S.Spares a (callStore on c) :=
  fun m => m.held_put_of_ne h.symm _

theorem spares_bind_done {d : Dialogue Work α} (h : S.Spares a d) {β : Type} (b : β) :
    S.Spares a (d >>= fun _ => .done b) := by
  intro m
  rw [carryOut_bind]
  exact h m

theorem spares_repeatOn {secondary : Option Side} (h : ∀ side, secondary = some side → side ≠ a)
    (c : Call) : S.Spares a (repeatOn secondary c) := by
  cases secondary with
  | none => exact fun _ => rfl
  | some side => exact spares_bind_done (spares_callStore (h side rfl) c) ()

theorem spares_repeatCall {t : Transaction} (h : ∀ b, t.secondary = some b → b.side ≠ a)
    (c : Nat → Call) : S.Spares a (t.repeatCall c) := by
  unfold Transaction.repeatCall
  cases hb : t.secondary with
  | none => exact fun _ => rfl
  | some b => exact spares_bind_done (spares_callStore (h b hb) (c b.tx)) ()

theorem releaseSecond_held {t : Transaction} (h : ∀ b, t.secondary = some b → b.side ≠ a)
    (m : Moment σ) : (S.releaseSecond t m).held a = m.held a := by
  unfold releaseSecond
  cases hb : t.secondary with
  | none => rfl
  | some b => exact S.held_release_of_ne (h b hb).symm m

/-- A write is never repeated on the authoritative store itself. -/
theorem Keeps.secondary_ne (hS : S.Keeps a) (n : Nat) :
    ∀ side, (S.phase n).secondary? = some side → side ≠ a := by
  intro side hside
  rw [← hS n]
  exact Phase.secondary?_ne hside

/-! ## The calls of the pool -/

/-- The answer and the state of the store of a side are those that a call of this store alone
has. -/
theorem answerAlike_callStore (c : Call) {x : σ a} (hx : HoldsOn a m x) :
    AnswerAlike (HoldsOn a) (S.carryOut (callStore a c) m) ((S.backend a).carry c x) := by
  cases hx
  exact ⟨rfl, Moment.held_put_self _ _ _⟩

/-- **What follows a call changes neither its answer nor the store**, if it is work elsewhere. -/
theorem answerAlike_followedBy (c : Call) {d : Dialogue Work Unit} (hd : S.Spares a d) {x : σ a}
    (hx : HoldsOn a m x) :
    AnswerAlike (HoldsOn a) (S.carryOut (followedBy a c d) m) ((S.backend a).carry c x) := by
  cases hx
  rw [carryOut_followedBy]
  rcases (S.backend a).carry c (m.held a) with ⟨e | r, x⟩
  · exact ⟨rfl, m.held_put_self a x⟩
  · exact ⟨rfl, (hd _).trans (m.held_put_self a x)⟩

/-- The same for the call that ends a transaction. -/
theorem answerAlike_ending {t : Transaction} {tx : Nat} (ht : StandsFor a t tx) (c : Call)
    {d : Dialogue Work Unit} (hd : S.Spares a d) {x : σ a} (hx : HoldsOn a m x) :
    AnswerAlike (HoldsOn a) (S.ending t (followedBy a c d) m) ((S.backend a).carry c x) := by
  cases hx
  rw [ending_followedBy]
  rcases (S.backend a).carry c (m.held a) with ⟨e | r, x⟩
  · exact ⟨rfl, (releaseSecond_held ht.2 _).trans (m.held_put_self a x)⟩
  · exact ⟨rfl, (hd _).trans (m.held_put_self a x)⟩

/-- A transaction of the pool begins when the one of the authoritative store does, and stands for
it. -/
theorem beginAlike (hS : S.Keeps a) {x : σ a} (hx : HoldsOn a m x) :
    BeginAlike (StandsFor a) (S.carryOut Pool.begin m).1 ((S.backend a).carry .begin x).1 ∧
      HoldsOn a (S.carryOut Pool.begin m).2 ((S.backend a).carry .begin x).2 := by
  cases hx
  have hne := hS.secondary_ne m.time
  rw [S.carryOut_begin (hS m.time)]
  rcases (S.backend a).carry .begin (m.held a) with ⟨e | tx, x⟩
  · exact ⟨.failed e, m.tick.held_put_self a x⟩
  · have hstored : (m.tick.put a x).held a = x := m.tick.held_put_self a x
    cases hside : (S.phase m.time).secondary? with
    | none => exact ⟨.begun ⟨rfl, by simp⟩, hstored⟩
    | some side =>
      have hother := hne side hside
      dsimp only
      rcases (S.backend side).carry .begin ((m.tick.put a x).held side) with ⟨e | tx', y⟩
      · exact ⟨.begun ⟨rfl, by simp⟩, (Moment.held_put_of_ne _ hother.symm y).trans hstored⟩
      · exact ⟨.begun ⟨rfl, by simp [hother]⟩,
          (Moment.held_put_of_ne _ hother.symm y).trans hstored⟩

/-- **The pool answers as the authoritative store does.** -/
theorem mirrors (hS : S.Keeps a) :
    S.service.Mirrors (S.backend a).service (HoldsOn a) (StandsFor a) where
  exec s m x hx := by
    have hother := spares_repeatOn (S := S) (hS.secondary_ne m.time) (.exec s)
    have halike := answerAlike_followedBy (m := m.tick) (.exec s) hother hx
    show AnswerAlike _ (S.carryOut (Pool.exec s) m) _
    rw [Pool.exec_eq, carryOut_phase, hS m.time]
    exact halike
  query s m x hx := by
    show AnswerAlike _ (S.carryOut (Pool.query s) m) _
    rw [Pool.query, carryOut_phase, hS m.time]
    exact answerAlike_callStore (m := m.tick) (.query s) hx
  queryRow s m x hx := by
    show AnswerAlike _ (S.carryOut (Pool.queryRow s) m) _
    rw [Pool.queryRow, carryOut_phase, hS m.time]
    exact answerAlike_callStore (m := m.tick) (.queryRow s) hx
  columns sql m x hx := by
    show AnswerAlike _ (S.carryOut (Pool.columns sql) m) _
    rw [Pool.columns, carryOut_phase, hS m.time]
    exact answerAlike_callStore (m := m.tick) (.columns sql) hx
  begin m x hx := beginAlike hS hx
  execIn t tx s m x ht hx := by
    have hother := spares_repeatCall (S := S) ht.2 (.txExec · s)
    show AnswerAlike _ (S.carryOut (t.exec s) m) _
    rw [t.exec_eq, ht.1]
    exact answerAlike_followedBy (.txExec tx s) hother hx
  queryIn t tx s m x ht hx := by
    show AnswerAlike _ (S.carryOut (t.query s) m) _
    rw [Transaction.query, ht.1]
    exact answerAlike_callStore (.txQuery tx s) hx
  queryRowIn t tx s m x ht hx := by
    show AnswerAlike _ (S.carryOut (t.queryRow s) m) _
    rw [Transaction.queryRow, ht.1]
    exact answerAlike_callStore (.txQueryRow tx s) hx
  commit t tx m x ht hx := by
    have hother := spares_repeatCall (S := S) ht.2 .txCommit
    show AnswerAlike _ (S.ending t t.commit m) _
    rw [t.commit_eq, ht.1]
    exact answerAlike_ending ht (.txCommit tx) hother hx
  rollback t tx m x ht hx := by
    have hother := spares_repeatCall (S := S) ht.2 .txRollback
    show AnswerAlike _ (S.ending t t.rollback m) _
    rw [t.rollback_eq, ht.1]
    exact answerAlike_ending ht (.txRollback tx) hother hx
  drop t tx m x ht hx := by
    cases hx
    show (S.releaseSecond t (S.release t.primary m)).held a = _
    rw [releaseSecond_held ht.2, ht.1]
    exact S.held_release_self ⟨a, tx⟩ m

/-! ## Whole histories -/

/-- What a client of the pool sees and what is then in the stores, when it gives its orders at a
moment. -/
def served (S : Site σ) (orders : List Order) (m : Moment σ) : List Seen × Moment σ :=
  let (seen, c) := S.service.run orders ⟨m, []⟩
  (seen, c.state)

/-- What a client of one store sees and what is then in it, when it gives its orders to this store
alone. -/
def servedAlone (b : Backend α) (orders : List Order) (x : α) : List Seen × α :=
  let (seen, c) := b.service.run orders ⟨x, []⟩
  (seen, c.state)

/-- The pool shows a client and does to the authoritative store what this store alone would. -/
theorem served_alike (hS : S.Keeps a) (orders : List Order) {x : σ a} (hx : HoldsOn a m x) :
    AnswerAlike (HoldsOn a) (S.served orders m) (servedAlone (S.backend a) orders x) := by
  have hstart : Client.Alike (HoldsOn a) (StandsFor a) (⟨m, []⟩ : Client (Moment σ) Transaction)
      ⟨x, []⟩ := ⟨hx, .nil⟩
  obtain ⟨hseen, hend⟩ := (mirrors hS).run hstart orders
  exact ⟨hseen, hend.state⟩

/-- **The pool is transparent.**  While the authoritative store stays the same, a client sees of its
orders what it would see of this store alone, and leaves it as it would leave it alone.  So at two
sites with the same authoritative store it sees and leaves the same, whatever the stores across make
of their calls and whenever the phases switch. -/
theorem pool_is_transparent (S S' : Site σ) (m m' : Moment σ) (orders : List Order)
    (hS : S.Keeps a) (hS' : S'.Keeps a) (hbackend : S'.backend a = S.backend a)
    (hheld : m'.held a = m.held a) :
    ((S.served orders m).1 = (servedAlone (S.backend a) orders (m.held a)).1 ∧
      (S.served orders m).2.held a = (servedAlone (S.backend a) orders (m.held a)).2) ∧
    ((S'.served orders m').1 = (S.served orders m).1 ∧
      (S'.served orders m').2.held a = (S.served orders m).2.held a) := by
  have halone : AnswerAlike (HoldsOn a) (S.served orders m) _ := served_alike hS orders rfl
  have halone' : AnswerAlike (HoldsOn a) (S'.served orders m') _ := served_alike hS' orders rfl
  rw [hbackend, hheld] at halone'
  refine ⟨halone, halone'.1.trans halone.1.symm, ?_⟩
  exact Eq.trans halone'.2 (Eq.symm halone.2)

/-- A rehearsed store as a machine. -/
def rehearsed : Backend Rehearsal.Replica where
  carry c r := r.carry c
  release tx r := r.close tx

/-- A store that refuses every call. -/
def refusing : Backend Rehearsal.Replica where
  carry _ r := (.error Table.refused, r)
  release _ r := r

/-- Two rehearsed stores, while writes are repeated at every second moment only. -/
def flickering (across : Backend Rehearsal.Replica) : Site fun _ => Rehearsal.Replica where
  backend
    | .src => rehearsed
    | .dst => across
  phase n := if n % 2 = 0 then .srcFirst else .srcOnly

/-- A moment at which both stores are empty and the one across fails at its first write. -/
def bothEmpty : Moment fun _ => Rehearsal.Replica where
  held
    | .src => { table := ⟨"items", "id", ["id", "name"], []⟩ }
    | .dst =>
      { table := ⟨"items", "id", ["id", "name"], []⟩
        rules := [{ effect := .fail (.unavailable "gone"), call := some "exec", times := some 1 }] }

/-- Two rows are written, one of them in a transaction, one is written a second time, and one is
read. -/
def writing : List Order :=
  let insert (id : Int64) (name : String) : Statement :=
    ⟨"INSERT INTO items (id, name) VALUES (?, ?)", [.int id, .text name]⟩
  [.exec (insert 1 "a"), .begin, .execIn 0 (insert 2 "b"), .exec (insert 1 "c"), .commit 0,
    .queryRow ⟨"SELECT * FROM items WHERE id = ?", [.int 2]⟩]

theorem pool_is_transparent_sample :
    ((flickering rehearsed).Keeps .src ∧ (flickering refusing).Keeps .src ∧
      (flickering refusing).backend .src = (flickering rehearsed).backend .src ∧
      bothEmpty.held .src = bothEmpty.held .src) ∧
    ((((flickering rehearsed).served writing bothEmpty).1 =
        (servedAlone rehearsed writing (bothEmpty.held .src)).1 ∧
      ((flickering rehearsed).served writing bothEmpty).2.held .src =
        (servedAlone rehearsed writing (bothEmpty.held .src)).2) ∧
    (((flickering refusing).served writing bothEmpty).1 =
        ((flickering rehearsed).served writing bothEmpty).1 ∧
      ((flickering refusing).served writing bothEmpty).2.held .src =
        ((flickering rehearsed).served writing bothEmpty).2.held .src)) ∧
    ((servedAlone rehearsed writing (bothEmpty.held .src)).2.table.rows =
        [[.int 1, .text "a"], [.int 2, .text "b"]] ∧
      (((flickering rehearsed).served writing bothEmpty).2.held .dst).table.rows ≠
        [[.int 1, .text "a"], [.int 2, .text "b"]]) := by
  have hkeeps (across : Backend Rehearsal.Replica) : (flickering across).Keeps .src := by
    intro n
    unfold flickering
    dsimp only
    split <;> rfl
  refine ⟨⟨hkeeps _, hkeeps _, rfl, rfl⟩, ?_, ?_⟩
  · exact pool_is_transparent _ _ _ _ _ (hkeeps _) (hkeeps _) rfl rfl
  · decide +kernel

end Site
end Cutover
