import Cutover.Store
import Mathlib.Data.List.Forall2
import Mathlib.Data.Option.Basic

/-! # Clients

A client gives orders, one after the other: statements, readings, the beginning of a transaction,
and whatever is to be done in one of the transactions it has begun.  It does not know what it works
on.  A `Service` is anything it can be given: operations that answer and change a state, and
transactions, which the client can use but not look into.  So a client names a transaction by its
number, counted in the order in which it began them, and all it ever learns is what it sees of its
orders (`Seen`).

One service *mirrors* another when each operation answers the same and keeps the states and the
transactions in relation.  A client cannot tell the two apart (`Service.Mirrors.run`).
-/

namespace Cutover

/-- What a client orders.  A transaction goes by its number. -/
inductive Order where
  | exec (s : Statement)
  | query (s : Statement)
  | queryRow (s : Statement)
  | columns (sql : String)
  | begin
  | execIn (n : Nat) (s : Statement)
  | queryIn (n : Nat) (s : Statement)
  | queryRowIn (n : Nat) (s : Statement)
  | commit (n : Nat)
  | rollback (n : Nat)
  /-- Lets a transaction go without an end. -/
  | drop (n : Nat)
  deriving DecidableEq

/-- What a client sees of an order: a result or an error, and nothing of a transaction that is let
go or not open. -/
inductive Seen where
  | affected (r : Except StoreError Nat)
  | rows (r : Except StoreError (List Row))
  | row (r : Except StoreError (Option Row))
  | names (r : Except StoreError (List String))
  | done (r : Except StoreError Unit)
  | nothing

/-- What a client can be given to work on: the operations of a store with states of one type and
transactions of another. -/
structure Service (σ τ : Type) where
  exec : Statement → σ → Except StoreError Nat × σ
  query : Statement → σ → Except StoreError (List Row) × σ
  queryRow : Statement → σ → Except StoreError (Option Row) × σ
  columns : String → σ → Except StoreError (List String) × σ
  begin : σ → Except StoreError τ × σ
  execIn : τ → Statement → σ → Except StoreError Nat × σ
  queryIn : τ → Statement → σ → Except StoreError (List Row) × σ
  queryRowIn : τ → Statement → σ → Except StoreError (Option Row) × σ
  commit : τ → σ → Except StoreError Unit × σ
  rollback : τ → σ → Except StoreError Unit × σ
  /-- The transaction is let go. -/
  drop : τ → σ → σ

/-- A client at work: the state of what it works on, and its transactions in the order in which it
began them, those that are over being forgotten. -/
structure Client (σ τ : Type) where
  state : σ
  begun : List (Option τ) := []

namespace Client

variable {σ τ α : Type} (c : Client σ τ)

/-- The transaction of a number, if it is open. -/
def open? (n : Nat) : Option τ := c.begun[n]?.join

/-- The client after an operation, and what it sees of it. -/
def sees (f : α → Seen) (r : α × σ) : Seen × Client σ τ := (f r.1, { c with state := r.2 })

/-- The client after the beginning of a transaction, if it was one. -/
def opens (r : Except StoreError τ × σ) : Seen × Client σ τ :=
  match r with
  | (.ok t, x) => (.done (.ok ()), ⟨x, c.begun ++ [some t]⟩)
  | (.error e, x) => (.done (.error e), ⟨x, c.begun⟩)

/-- The client without a transaction, which is over. -/
def forget (n : Nat) : Client σ τ := { c with begun := c.begun.set n none }

/-- What is done in a transaction, if it is open. -/
def within (n : Nat) (f : τ → Seen × Client σ τ) : Seen × Client σ τ :=
  match c.open? n with
  | none => (.nothing, c)
  | some t => f t

variable {c}

theorem open?_forget (n i : Nat) : (c.forget n).open? i = if i = n then none else c.open? i := by
  unfold open? forget
  rw [List.getElem?_set]
  by_cases hi : i = n
  · rw [if_pos hi.symm, if_pos hi]
    split <;> rfl
  · rw [if_neg (Ne.symm hi), if_neg hi]

/-- The open transactions after a beginning are those before it and the new one. -/
theorem open?_snoc {x : σ} {t u : τ} {i : Nat}
    (h : (⟨x, c.begun ++ [some t]⟩ : Client σ τ).open? i = some u) :
    (i = c.begun.length ∧ u = t) ∨ c.open? i = some u := by
  unfold open? at h ⊢
  obtain hi | hi | hi := Nat.lt_trichotomy i c.begun.length
  · rw [List.getElem?_append_left hi] at h
    exact .inr h
  · subst hi
    rw [List.getElem?_concat_length] at h
    exact .inl ⟨rfl, (Option.some.inj h).symm⟩
  · have hlength : (c.begun ++ [some t]).length ≤ i := by
      rw [List.length_append]
      exact hi
    rw [List.getElem?_eq_none hlength] at h
    cases h

/-- What holds of a client holds after an order in a transaction, if it does when that is open. -/
theorem within_kept {P : Client σ τ → Prop} {n : Nat} {f : τ → Seen × Client σ τ} (hc : P c)
    (hf : ∀ t, c.open? n = some t → P (f t).2) : P (c.within n f).2 := by
  unfold within
  cases hopen : c.open? n with
  | none => exact hc
  | some t => exact hf t hopen

end Client

namespace Service

variable {σ τ : Type} (v : Service σ τ)

/-- What a client sees of an order, and the client after it. -/
def serve (o : Order) (c : Client σ τ) : Seen × Client σ τ :=
  match o with
  | .exec s => c.sees .affected (v.exec s c.state)
  | .query s => c.sees .rows (v.query s c.state)
  | .queryRow s => c.sees .row (v.queryRow s c.state)
  | .columns sql => c.sees .names (v.columns sql c.state)
  | .begin => c.opens (v.begin c.state)
  | .execIn n s => c.within n fun t => c.sees .affected (v.execIn t s c.state)
  | .queryIn n s => c.within n fun t => c.sees .rows (v.queryIn t s c.state)
  | .queryRowIn n s => c.within n fun t => c.sees .row (v.queryRowIn t s c.state)
  | .commit n => c.within n fun t => (c.forget n).sees .done (v.commit t c.state)
  | .rollback n => c.within n fun t => (c.forget n).sees .done (v.rollback t c.state)
  | .drop n => c.within n fun t => (.nothing, { c.forget n with state := v.drop t c.state })

/-- What a client sees of its orders, and the client after them. -/
def run : List Order → Client σ τ → List Seen × Client σ τ
  | [], c => ([], c)
  | o :: os, c =>
    let (seen, c) := v.serve o c
    let (rest, c) := run os c
    (seen :: rest, c)

theorem run_cons (o : Order) (os : List Order) (c : Client σ τ) :
    v.run (o :: os) c =
      ((v.serve o c).1 :: (v.run os (v.serve o c).2).1, (v.run os (v.serve o c).2).2) := rfl

/-- What every order keeps is kept by all of them. -/
theorem run_kept {P : Client σ τ → Prop} {orders : List Order} {c : Client σ τ} (hc : P c)
    (hserve : ∀ o ∈ orders, ∀ c, P c → P (v.serve o c).2) : P (v.run orders c).2 := by
  induction orders generalizing c with
  | nil => exact hc
  | cons o os ih =>
    rw [run_cons]
    have hfirst : P (v.serve o c).2 := hserve o List.mem_cons_self c hc
    exact ih hfirst fun o' ho' => hserve o' (List.mem_cons_of_mem o ho')

end Service

/-! ## Services that cannot be told apart -/

section
variable {σ τ σ' τ' α : Type}

/-- Two operations have answered the same and left related states. -/
def AnswerAlike (R : σ → σ' → Prop) (a : α × σ) (b : α × σ') : Prop := a.1 = b.1 ∧ R a.2 b.2

/-- Two beginnings have failed with the same error, or both have brought a transaction. -/
inductive BeginAlike (T : τ → τ' → Prop) : Except StoreError τ → Except StoreError τ' → Prop where
  | failed (e : StoreError) : BeginAlike T (.error e) (.error e)
  | begun {t : τ} {u : τ'} : T t u → BeginAlike T (.ok t) (.ok u)

/-- One service answers as another does, from related states and for related transactions. -/
structure Service.Mirrors (v : Service σ τ) (w : Service σ' τ') (R : σ → σ' → Prop)
    (T : τ → τ' → Prop) : Prop where
  exec : ∀ s x y, R x y → AnswerAlike R (v.exec s x) (w.exec s y)
  query : ∀ s x y, R x y → AnswerAlike R (v.query s x) (w.query s y)
  queryRow : ∀ s x y, R x y → AnswerAlike R (v.queryRow s x) (w.queryRow s y)
  columns : ∀ sql x y, R x y → AnswerAlike R (v.columns sql x) (w.columns sql y)
  begin : ∀ x y, R x y → BeginAlike T (v.begin x).1 (w.begin y).1 ∧ R (v.begin x).2 (w.begin y).2
  execIn : ∀ t u s x y, T t u → R x y → AnswerAlike R (v.execIn t s x) (w.execIn u s y)
  queryIn : ∀ t u s x y, T t u → R x y → AnswerAlike R (v.queryIn t s x) (w.queryIn u s y)
  queryRowIn : ∀ t u s x y, T t u → R x y → AnswerAlike R (v.queryRowIn t s x) (w.queryRowIn u s y)
  commit : ∀ t u x y, T t u → R x y → AnswerAlike R (v.commit t x) (w.commit u y)
  rollback : ∀ t u x y, T t u → R x y → AnswerAlike R (v.rollback t x) (w.rollback u y)
  drop : ∀ t u x y, T t u → R x y → R (v.drop t x) (w.drop u y)

/-- Two clients that have given the same orders to services of which one mirrors the other. -/
structure Client.Alike (R : σ → σ' → Prop) (T : τ → τ' → Prop) (c : Client σ τ) (d : Client σ' τ') :
    Prop where
  state : R c.state d.state
  begun : List.Forall₂ (Option.Rel T) c.begun d.begun

variable {R : σ → σ' → Prop} {T : τ → τ' → Prop} {c : Client σ τ} {d : Client σ' τ'}

/-- What clients see and are after an order that they have given alike. -/
def ServedAlike (R : σ → σ' → Prop) (T : τ → τ' → Prop) (a : Seen × Client σ τ)
    (b : Seen × Client σ' τ') : Prop :=
  a.1 = b.1 ∧ Client.Alike R T a.2 b.2

namespace Client.Alike

theorem open? (h : Alike R T c d) (n : Nat) : Option.Rel T (c.open? n) (d.open? n) := by
  have hlength : c.begun.length = d.begun.length := h.begun.length_eq
  unfold Client.open?
  by_cases hn : n < c.begun.length
  · have hn' : n < d.begun.length := hlength ▸ hn
    have hrel : Option.Rel T c.begun[n] d.begun[n] := h.begun.get hn hn'
    rw [List.getElem?_eq_getElem hn, List.getElem?_eq_getElem hn']
    exact hrel
  · have hc : c.begun[n]? = none := List.getElem?_eq_none (Nat.le_of_not_lt hn)
    have hd : d.begun[n]? = none := List.getElem?_eq_none (hlength ▸ Nat.le_of_not_lt hn)
    rw [hc, hd]
    exact .none

theorem sees (h : Alike R T c d) (f : α → Seen) {a : α × σ} {b : α × σ'} (hab : AnswerAlike R a b) :
    ServedAlike R T (c.sees f a) (d.sees f b) :=
  ⟨congrArg f hab.1, hab.2, h.begun⟩

theorem opens (h : Alike R T c d) {a : Except StoreError τ × σ} {b : Except StoreError τ' × σ'}
    (hbegun : BeginAlike T a.1 b.1) (hstate : R a.2 b.2) :
    ServedAlike R T (c.opens a) (d.opens b) := by
  obtain ⟨a, x⟩ := a
  obtain ⟨b, y⟩ := b
  cases hbegun with
  | failed e => exact ⟨rfl, hstate, h.begun⟩
  | begun htu =>
    refine ⟨rfl, hstate, ?_⟩
    exact List.rel_append h.begun (.cons (.some htu) .nil)

theorem forget (h : Alike R T c d) (n : Nat) : Alike R T (c.forget n) (d.forget n) where
  state := h.state
  begun := by
    unfold Client.forget
    generalize c.begun = ts, d.begun = us, h.begun = hbegun
    induction hbegun generalizing n with
    | nil => exact .nil
    | cons hrel hrest ih =>
      cases n with
      | zero => exact .cons .none hrest
      | succ n => exact .cons hrel (ih n)

/-- A transaction is open for both clients or for neither. -/
theorem within (h : Alike R T c d) (n : Nat) {f : τ → Seen × Client σ τ}
    {g : τ' → Seen × Client σ' τ'} (hfg : ∀ t u, T t u → ServedAlike R T (f t) (g u)) :
    ServedAlike R T (c.within n f) (d.within n g) := by
  have hrel := h.open? n
  unfold Client.within
  cases hc : c.open? n with
  | none =>
    rw [hc] at hrel
    cases hd : d.open? n with
    | none => exact ⟨rfl, h⟩
    | some u =>
      rw [hd] at hrel
      cases hrel
  | some t =>
    rw [hc] at hrel
    cases hd : d.open? n with
    | none =>
      rw [hd] at hrel
      cases hrel
    | some u =>
      rw [hd] at hrel
      cases hrel with
      | some htu => exact hfg t u htu

end Client.Alike

namespace Service.Mirrors

variable {v : Service σ τ} {w : Service σ' τ'}

/-- An order is answered alike. -/
theorem serve (h : v.Mirrors w R T) (hcd : Client.Alike R T c d) (o : Order) :
    ServedAlike R T (v.serve o c) (w.serve o d) := by
  cases o with
  | exec s => exact hcd.sees _ (h.exec s _ _ hcd.state)
  | query s => exact hcd.sees _ (h.query s _ _ hcd.state)
  | queryRow s => exact hcd.sees _ (h.queryRow s _ _ hcd.state)
  | columns sql => exact hcd.sees _ (h.columns sql _ _ hcd.state)
  | begin =>
    obtain ⟨hbegun, hstate⟩ := h.begin _ _ hcd.state
    exact hcd.opens hbegun hstate
  | execIn n s => exact hcd.within n fun t u htu => hcd.sees _ (h.execIn t u s _ _ htu hcd.state)
  | queryIn n s => exact hcd.within n fun t u htu => hcd.sees _ (h.queryIn t u s _ _ htu hcd.state)
  | queryRowIn n s =>
    exact hcd.within n fun t u htu => hcd.sees _ (h.queryRowIn t u s _ _ htu hcd.state)
  | commit n =>
    exact hcd.within n fun t u htu => (hcd.forget n).sees _ (h.commit t u _ _ htu hcd.state)
  | rollback n =>
    exact hcd.within n fun t u htu => (hcd.forget n).sees _ (h.rollback t u _ _ htu hcd.state)
  | drop n =>
    exact hcd.within n fun t u htu =>
      ⟨rfl, h.drop t u _ _ htu hcd.state, (hcd.forget n).begun⟩

/-- **A client cannot tell a service from one that it mirrors**, whatever orders it gives. -/
theorem run (h : v.Mirrors w R T) (hcd : Client.Alike R T c d) (orders : List Order) :
    (v.run orders c).1 = (w.run orders d).1 ∧
      Client.Alike R T (v.run orders c).2 (w.run orders d).2 := by
  induction orders generalizing c d with
  | nil => exact ⟨rfl, hcd⟩
  | cons o os ih =>
    obtain ⟨hseen, hafter⟩ := h.serve hcd o
    obtain ⟨hrest, hend⟩ := ih hafter
    refine ⟨?_, hend⟩
    rw [run_cons, run_cons, hseen, hrest]

end Service.Mirrors
end
end Cutover
