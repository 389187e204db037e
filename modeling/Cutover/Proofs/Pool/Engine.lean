import Cutover.Proofs.Pool.Site
import Cutover.Table

/-! # Stores that only depend on their content

What a healthy store makes of a call depends on its content and on nothing else: the same statement
on the same content has the same answer and the same effect, and a statement that fails has none.  A
transaction works on something of its own, which the store made of the content when it began, and
its commit is what brings the work into the content.  An `Engine` is such a store without its state:
it does not say what a content is, nor what becomes of the work of a transaction when others have
committed meanwhile, so that it stands for every way of isolating transactions.

The state is a `Holding`: the content, and what the open transactions work on under the numbers the
store has given them.
-/

namespace Cutover

/-- What a store makes of calls, as far as that depends on contents.  A content is of the first
type, what a transaction works on of the second. -/
structure Engine (α κ : Type) where
  /-- The answer to a statement, and the content after it. -/
  run : Statement → α → Except StoreError (Table.Answer × α)
  /-- The column names of a statement's result. -/
  names : String → α → Except StoreError (List String)
  /-- Whether a statement can be prepared. -/
  check : String → α → Except StoreError Unit
  /-- What a transaction that begins works on. -/
  fork : α → Except StoreError κ
  /-- The answer to a statement in a transaction, and what the transaction works on after it. -/
  runIn : Statement → κ → Except StoreError (Table.Answer × κ)
  /-- The content after the commit of a transaction. -/
  merge : κ → α → Except StoreError α
  /-- Whether a transaction can be ended without effect. -/
  discard : κ → α → Except StoreError Unit

/-- The state of a store. -/
structure Holding (α κ : Type) where
  contents : α
  /-- What the open transactions work on. -/
  copies : Nat → Option κ := fun _ => none
  /-- The number of the next transaction. -/
  next : Nat := 0

namespace Holding

variable {α κ : Type} (x : Holding α κ)

/-- The store with something else under the number of a transaction. -/
def setCopy (tx : Nat) (k : Option κ) : Holding α κ :=
  { x with copies := Function.update x.copies tx k }

@[simp] theorem copies_setCopy_self (tx : Nat) (k : Option κ) : (x.setCopy tx k).copies tx = k :=
  Function.update_self _ _ _

theorem copies_setCopy_of_ne {tx tx' : Nat} (h : tx' ≠ tx) (k : Option κ) :
    (x.setCopy tx k).copies tx' = x.copies tx' :=
  Function.update_of_ne h _ _

theorem setCopy_eq_self {tx : Nat} {k : Option κ} (h : x.copies tx = k) : x.setCopy tx k = x := by
  rw [setCopy, ← h, Function.update_eq_self]

end Holding

namespace Engine

variable {α κ β : Type} (E : Engine α κ)

/-- A statement outside transactions. -/
def statement (f : Table.Answer → β) (s : Statement) (x : Holding α κ) :
    Except StoreError β × Holding α κ :=
  match E.run s x.contents with
  | .ok (a, y) => (.ok (f a), { x with contents := y })
  | .error e => (.error e, x)

/-- A statement in a transaction. -/
def statementIn (f : Table.Answer → β) (tx : Nat) (s : Statement) (x : Holding α κ) :
    Except StoreError β × Holding α κ :=
  match x.copies tx with
  | none => (.error Table.refused, x)
  | some k =>
    match E.runIn s k with
    | .ok (a, k) => (.ok (f a), x.setCopy tx (some k))
    | .error e => (.error e, x)

/-- The beginning of a transaction. -/
def begin (x : Holding α κ) : Except StoreError Nat × Holding α κ :=
  match E.fork x.contents with
  | .ok k => (.ok x.next, { x.setCopy x.next (some k) with next := x.next + 1 })
  | .error e => (.error e, x)

/-- The end of a transaction with effect.  It is over even when the store refuses the effect. -/
def commit (tx : Nat) (x : Holding α κ) : Except StoreError Unit × Holding α κ :=
  match x.copies tx with
  | none => (.error Table.refused, x)
  | some k =>
    match E.merge k x.contents with
    | .ok y => (.ok (), { x.setCopy tx none with contents := y })
    | .error e => (.error e, x.setCopy tx none)

/-- The end of a transaction without effect. -/
def rollback (tx : Nat) (x : Holding α κ) : Except StoreError Unit × Holding α κ :=
  match x.copies tx with
  | none => (.error Table.refused, x)
  | some k => (E.discard k x.contents, x.setCopy tx none)

/-! ## What calls leave behind -/

/-- The content after a statement. -/
def after (s : Statement) (y : α) : α :=
  match E.run s y with
  | .ok (_, z) => z
  | .error _ => y

/-- What a transaction works on after a statement. -/
def afterIn (s : Statement) (k : κ) : κ :=
  match E.runIn s k with
  | .ok (_, l) => l
  | .error _ => k

/-- The content after the end of a transaction with effect. -/
def merged (k : κ) (y : α) : α :=
  match E.merge k y with
  | .ok z => z
  | .error _ => y

section
variable {x x' : Holding α κ} {tx tx' : Nat} {k : κ}

theorem begin_eq_error {e : StoreError} (h : E.fork x.contents = .error e) :
    E.begin x = (.error e, x) := by
  rw [begin, h]

theorem begin_eq_ok (h : E.fork x.contents = .ok k) :
    E.begin x = (.ok x.next, { x.setCopy x.next (some k) with next := x.next + 1 }) := by
  rw [begin, h]

theorem statement_eq_ok {f : Table.Answer → β} {s : Statement} {a : Table.Answer} {y : α}
    (h : E.run s x.contents = .ok (a, y)) :
    E.statement f s x = (.ok (f a), { x with contents := y }) := by
  rw [statement, h]

theorem statement_eq_error {f : Table.Answer → β} {s : Statement} {e : StoreError}
    (h : E.run s x.contents = .error e) : E.statement f s x = (.error e, x) := by
  rw [statement, h]

theorem statement_snd (f : Table.Answer → β) (s : Statement) :
    (E.statement f s x).2 = { x with contents := E.after s x.contents } := by
  unfold statement after
  rcases E.run s x.contents with e | ⟨a, y⟩ <;> rfl

/-- A statement that fails on a content changes nothing on the same content. -/
theorem statement_kept {f : Table.Answer → β} {s : Statement} {e : StoreError} {y : Holding α κ}
    (hsame : x'.contents = x.contents) (h : E.statement f s x = (.error e, y)) :
    (E.statement f s x').2 = x' := by
  unfold statement at h ⊢
  rw [hsame]
  rcases hrun : E.run s x.contents with e' | ⟨a, z⟩
  · rfl
  · rw [hrun] at h
    cases h

theorem statementIn_snd (h : x.copies tx = some k) (f : Table.Answer → β) (s : Statement) :
    (E.statementIn f tx s x).2 = x.setCopy tx (some (E.afterIn s k)) := by
  unfold statementIn afterIn
  rw [h]
  dsimp only
  rcases E.runIn s k with e | ⟨a, l⟩
  · exact (x.setCopy_eq_self h).symm
  · rfl

/-- A statement that fails in a transaction changes nothing in one that works on the same. -/
theorem statementIn_kept {f : Table.Answer → β} {s : Statement} {e : StoreError} {y : Holding α κ}
    (hk : x.copies tx = some k) (hk' : x'.copies tx' = some k)
    (h : E.statementIn f tx s x = (.error e, y)) : (E.statementIn f tx' s x').2 = x' := by
  unfold statementIn at h ⊢
  rw [hk] at h
  rw [hk']
  dsimp only at h ⊢
  rcases hrun : E.runIn s k with e' | ⟨a, l⟩
  · rfl
  · rw [hrun] at h
    cases h

theorem commit_snd (h : x.copies tx = some k) :
    (E.commit tx x).2 = { x.setCopy tx none with contents := E.merged k x.contents } := by
  unfold commit merged
  rw [h]
  dsimp only
  rcases E.merge k x.contents with e | y <;> rfl

/-- A commit that fails only ends the transaction that works on the same. -/
theorem commit_kept {e : StoreError} {y : Holding α κ} (hk : x.copies tx = some k)
    (hk' : x'.copies tx' = some k) (hsame : x'.contents = x.contents)
    (h : E.commit tx x = (.error e, y)) : (E.commit tx' x').2 = x'.setCopy tx' none := by
  unfold commit at h ⊢
  rw [hk] at h
  rw [hk', hsame]
  dsimp only at h ⊢
  rcases hmerge : E.merge k x.contents with e' | z
  · rfl
  · rw [hmerge] at h
    cases h

theorem rollback_snd (h : x.copies tx = some k) : (E.rollback tx x).2 = x.setCopy tx none := by
  unfold rollback
  rw [h]

end

/-! ## The machine -/

/-- The answer to a call, and the state after it. -/
def carry : (c : Call) → Holding α κ → Except StoreError c.Result × Holding α κ
  | .exec s => E.statement (·.affected) s
  | .query s => E.statement (·.rows) s
  | .queryRow s => E.statement (·.rows.head?) s
  | .columns sql => fun x => (E.names sql x.contents, x)
  | .prepare sql => fun x => (E.check sql x.contents, x)
  | .begin => E.begin
  | .txExec tx s => E.statementIn (·.affected) tx s
  | .txQuery tx s => E.statementIn (·.rows) tx s
  | .txQueryRow tx s => E.statementIn (·.rows.head?) tx s
  | .txCommit tx => E.commit tx
  | .txRollback tx => E.rollback tx

/-- The store as a machine. -/
def backend : Backend (Holding α κ) where
  carry := E.carry
  release tx x := x.setCopy tx none

/-- Stores of this kind on both sides. -/
def site (phase : Nat → Phase) : Site fun _ => Holding α κ where
  backend _ := E.backend
  phase := phase

theorem site_exec (phase : Nat → Phase) (d : Side) (s : Statement) (x : Holding α κ) :
    ((E.site phase).backend d).carry (.exec s) x = E.statement (·.affected) s x := rfl

theorem site_queryRow (phase : Nat → Phase) (d : Side) (s : Statement) (x : Holding α κ) :
    ((E.site phase).backend d).carry (.queryRow s) x = E.statement (·.rows.head?) s x := rfl

theorem site_begin (phase : Nat → Phase) (d : Side) (x : Holding α κ) :
    ((E.site phase).backend d).carry .begin x = E.begin x := rfl

/-- A store of one table, on a copy of which a transaction works until it takes the place of the
table. -/
def ofTable : Engine Table Table where
  run s t := t.runStatement s
  names sql t := t.namesOf sql
  check sql t := t.checkStatement sql
  fork t := .ok t
  runIn s t := t.runStatement s
  merge copy _ := .ok copy
  discard _ _ := .ok ()

end Engine
end Cutover
