import Cutover.Proofs.Dialogue.Path
import Cutover.Proofs.Pool.Site
import Mathlib.Logic.Relation

/-! # Many calls of the pool at a time

The pool serves many callers at once.  Of every order that has been given it keeps an *errand*: what
is left of the pool's work for it.  Between any two calls of stores that are made for one errand any
number may be made for others, orders may be given, and the phase may be switched; nothing is said
about the stores, which may answer anything at any time (`Switchboard.Step`).  An errand looks at
the phase in the moment in which it starts, if it does at all: there is nothing to wait for in
between.  A caller may give an errand up, and then nothing more is done for it.

A transaction goes by the number of the errand that began it.  Orders can be given in it until one
of them is its end.

For an errand at most two calls are made: one of the authoritative store and, when that has
succeeded, perhaps one of the other store (`Relays`).
-/

namespace Cutover

open Dialogue Pool

namespace Order

/-- The transaction in which an order is given, if it is in one. -/
def within? : Order → Option Nat
  | .execIn n _ | .queryIn n _ | .queryRowIn n _ | .commit n | .rollback n | .drop n => some n
  | .exec _ | .query _ | .queryRow _ | .columns _ | .begin => none

/-- Whether an order is the last one in its transaction. -/
def isEnd : Order → Bool
  | .commit _ | .rollback _ | .drop _ => true
  | .exec _ | .query _ | .queryRow _ | .columns _ | .begin | .execIn .. | .queryIn ..
  | .queryRowIn .. => false

/-- Whether an order is carried out on both stores of a pair, rather than on the authoritative one
only. -/
def isRepeated : Order → Bool
  | .exec _ | .begin | .execIn .. | .commit _ | .rollback _ => true
  | .query _ | .queryRow _ | .columns _ | .queryIn .. | .queryRowIn .. | .drop _ => false

/-- The call of a store that carries an order out, in a transaction under the number that the store
has given it.  Letting a transaction go takes no call. -/
def call? : Order → Nat → Option Call
  | .exec s, _ => some (.exec s)
  | .query s, _ => some (.query s)
  | .queryRow s, _ => some (.queryRow s)
  | .columns sql, _ => some (.columns sql)
  | .begin, _ => some .begin
  | .execIn _ s, tx => some (.txExec tx s)
  | .queryIn _ s, tx => some (.txQuery tx s)
  | .queryRowIn _ s, tx => some (.txQueryRow tx s)
  | .commit _, tx => some (.txCommit tx)
  | .rollback _, tx => some (.txRollback tx)
  | .drop _, _ => none

/-- What the pool does for an order, in a transaction if it is for one; it comes to the transaction
that has been begun, if one has. -/
def job (o : Order) (t : Option Transaction) : Dialogue Work (Option Transaction) :=
  match o, t with
  | .exec s, _ => Pool.exec s >>= fun _ => .done none
  | .query s, _ => Pool.query s >>= fun _ => .done none
  | .queryRow s, _ => Pool.queryRow s >>= fun _ => .done none
  | .columns sql, _ => Pool.columns sql >>= fun _ => .done none
  | .begin, _ => Pool.begin >>= fun r => .done r.toOption
  | .execIn _ s, some t => t.exec s >>= fun _ => .done none
  | .queryIn _ s, some t => t.query s >>= fun _ => .done none
  | .queryRowIn _ s, some t => t.queryRow s >>= fun _ => .done none
  | .commit _, some t => t.commit >>= fun _ => .done none
  | .rollback _, some t => t.rollback >>= fun _ => .done none
  | .drop _, _ | _, none => .done none

/-- The same operation has the same statement in either store. -/
theorem call?_alike {o : Order} {tx tx' : Nat} {c c' : Call} (h : o.call? tx = some c)
    (h' : o.call? tx' = some c') : c'.name = c.name ∧ c'.statement? = c.statement? := by
  cases o <;> cases h <;> cases h' <;> exact ⟨rfl, rfl⟩

end Order

/-- What is left of a piece of work when it has looked at the phase. -/
def Dialogue.routed {α : Type} (p : Phase) : Dialogue Work α → Dialogue Work α
  | .ask .phase next => next p
  | d => d

/-! ## The switchboard -/

/-- An order that is being carried out: the phase in force when it was given, what is left to do,
and whether the caller has given it up. -/
structure Errand where
  order : Order
  phase : Phase
  left : Dialogue Work (Option Transaction)
  givenUp : Bool := false

/-- A call of a store, the errand it was made for, and its answer. -/
structure Placed where
  errand : Nat
  on : Side
  call : Call
  reply : Except StoreError call.Result

namespace Placed

/-- Whether the store has carried the call out. -/
def succeeded (x : Placed) : Bool := x.reply.isOk

/-- The call as the pool's work has made it. -/
def exchange (x : Placed) : Exchange Work := ⟨.call x.on x.call, x.reply⟩

/-- Whether the call ends a transaction. -/
def isEnd (x : Placed) : Bool :=
  match x.call with
  | .txCommit _ | .txRollback _ => true
  | _ => false

end Placed

/-- The phase in force, the errands in the order in which they were started, and the calls of stores
in the order in which they were answered. -/
structure Switchboard where
  phase : Phase
  errands : List Errand := []
  log : List Placed := []

namespace Switchboard

/-- An order may be given: outside transactions always, in one when it has begun and no end of it
has been ordered. -/
inductive Admits (v : Switchboard) : Order → Option Transaction → Prop where
  | plain {o : Order} : o.within? = none → Admits v o none
  | inside {o : Order} {n : Nat} {b : Errand} {t : Transaction} : o.within? = some n →
      v.errands[n]? = some b → b.order = .begin → b.left = .done (some t) →
      (∀ e ∈ v.errands, e.order.within? = some n → e.order.isEnd = false) → Admits v o (some t)

/-- A step: the phase is switched, an order is given, a store answers a call, or an errand is given
up. -/
inductive Step : Switchboard → Switchboard → Prop where
  | switched (v : Switchboard) (p : Phase) : Step v { v with phase := p }
  | started {v : Switchboard} {o : Order} {t : Option Transaction} : v.Admits o t →
      Step v { v with errands := v.errands ++ [⟨o, v.phase, (o.job t).routed v.phase, false⟩] }
  | answered {v : Switchboard} {n : Nat} {e : Errand} {on : Side} {c : Call}
      {next : Except StoreError c.Result → Dialogue Work (Option Transaction)}
      (reply : Except StoreError c.Result) : v.errands[n]? = some e →
      e.left = .ask (I := Work) (.call on c) next →
      Step v { v with
        errands := v.errands.set n { e with left := next reply }
        log := v.log ++ [⟨n, on, c, reply⟩] }
  | gaveUp {v : Switchboard} {n : Nat} {e : Errand} : v.errands[n]? = some e →
      Step v { v with errands := v.errands.set n { e with left := .done none, givenUp := true } }

/-- A run: any number of steps. -/
abbrev Reaches : Switchboard → Switchboard → Prop := Relation.ReflTransGen Step

/-- Before the first order. -/
def start (p : Phase) : Switchboard := { phase := p }

/-- The calls that were made for an errand. -/
def madeFor (v : Switchboard) (n : Nat) : List Placed := v.log.filter fun x => x.errand = n

variable {v v' : Switchboard}

/-- An errand stays one for the same order, given in the same phase. -/
theorem Step.kept (h : Step v v') {n : Nat} {e : Errand} (he : v.errands[n]? = some e) :
    ∃ e', v'.errands[n]? = some e' ∧ e'.order = e.order ∧ e'.phase = e.phase := by
  have hn : n < v.errands.length := (List.getElem?_eq_some_iff.mp he).1
  -- an errand that is overwritten keeps its order and its phase
  have hset : ∀ {k : Nat} {f f' : Errand}, v.errands[k]? = some f → f'.order = f.order →
      f'.phase = f.phase →
      ∃ e', (v.errands.set k f')[n]? = some e' ∧ e'.order = e.order ∧ e'.phase = e.phase := by
    intro k f f' hf horder hphase
    by_cases hk : k = n
    · subst hk
      obtain rfl := Option.some.inj (he.symm.trans hf)
      exact ⟨f', List.getElem?_set_self hn, horder, hphase⟩
    · exact ⟨e, (List.getElem?_set_ne hk).trans he, rfl, rfl⟩
  cases h with
  | switched p => exact ⟨e, he, rfl, rfl⟩
  | started _ => exact ⟨e, (List.getElem?_append_left hn).trans he, rfl, rfl⟩
  | answered _ hf _ => exact hset hf rfl rfl
  | gaveUp hf => exact hset hf rfl rfl

end Switchboard

/-! ## At most two calls for an order -/

/-- **The work makes one call and, when that has succeeded, perhaps another one**, the answer to
which makes no difference. -/
def Relays {α : Type} (first : Side × Call) (second : Option (Side × Call)) (d : Dialogue Work α) :
    Prop :=
  ∃ next, d = .ask (I := Work) (.call first.1 first.2) next ∧
    ∀ reply : Except StoreError first.2.Result,
      (∃ a, next reply = .done a ∧ (reply.isOk = true → second = none)) ∨
        ∃ on c next', reply.isOk = true ∧ second = some (on, c) ∧
          next reply = .ask (I := Work) (.call on c) next' ∧ ∀ reply', ∃ a, next' reply' = .done a

/-- What two stores are asked for an order outside transactions, in the form of a transaction. -/
def Phase.pair (p : Phase) : Transaction := ⟨⟨p.authoritative, 0⟩, p.secondary?.map (⟨·, 0⟩)⟩

namespace Order

/-- The stores that an order is for: those of its transaction, or of the phase in which it is
given. -/
def stores (o : Order) (p : Phase) (t : Option Transaction) : Transaction :=
  match o.within? with
  | none => p.pair
  | some _ => t.getD p.pair

theorem stores_plain {o : Order} (h : o.within? = none) (p : Phase) (t : Option Transaction) :
    o.stores p t = p.pair := by
  rw [stores, h]

theorem stores_within {o : Order} {n : Nat} (h : o.within? = some n) (p : Phase) (t : Transaction) :
    o.stores p (some t) = t := by
  rw [stores, h]
  rfl

/-- The call that an order takes on a branch. -/
def on? (o : Order) (b : Branch) : Option (Side × Call) := (o.call? b.tx).map (b.side, ·)

/-- The call that an order takes on the second branch of a pair, if it is repeated there. -/
def again? (o : Order) (t : Transaction) : Option (Side × Call) :=
  if o.isRepeated then t.secondary.bind o.on? else none

end Order

section
variable {α : Type} {on : Side} {c : Call}

/-- A call and nothing else. -/
theorem relays_callStore {f : Except StoreError c.Result → Dialogue Work α}
    (hf : ∀ reply, ∃ a, f reply = .done a) : Relays (on, c) none (callStore on c >>= f) := by
  refine ⟨f, rfl, fun reply => ?_⟩
  obtain ⟨a, ha⟩ := hf reply
  exact .inl ⟨a, ha, fun _ => rfl⟩

/-- A call, and another one on the other store. -/
theorem relays_followedBy (second : Option (Side × Call)) {d : Dialogue Work Unit}
    (hd : d = match second with
      | none => .done ()
      | some (on', c') => callStore on' c' >>= fun _ => .done ())
    {f : Except StoreError c.Result → α} :
    Relays (on, c) second (followedBy on c d >>= fun r => .done (f r)) := by
  refine ⟨fun reply => followUp d reply >>= fun r => .done (f r), rfl, fun reply => ?_⟩
  subst hd
  rcases reply with e | r
  · exact .inl ⟨_, rfl, nofun⟩
  · rcases second with _ | ⟨on', c'⟩
    · exact .inl ⟨_, rfl, fun _ => rfl⟩
    · exact .inr ⟨on', c', _, rfl, rfl, rfl, fun reply' => ⟨_, rfl⟩⟩

/-- A call in a transaction, and the same in its second branch. -/
theorem relays_repeatCall (t : Transaction) (c : Nat → Call)
    {f : Except StoreError (c t.primary.tx).Result → α} :
    Relays (t.primary.side, c t.primary.tx) (t.secondary.map fun b => (b.side, c b.tx))
      (followedBy t.primary.side (c t.primary.tx) (t.repeatCall c) >>= fun r => .done (f r)) := by
  refine relays_followedBy _ ?_
  obtain ⟨primary, secondary⟩ := t
  cases secondary <;> rfl

/-- The beginning of a transaction, in a phase. -/
theorem routed_begin (p : Phase) :
    (Order.begin.job none).routed p = .ask (I := Work) (.call p.authoritative .begin) fun
      | .error _ => .done none
      | .ok tx =>
        match p.secondary? with
        | none => .done (some ⟨⟨p.authoritative, tx⟩, none⟩)
        | some d => .ask (I := Work) (.call d .begin) fun
          | .error _ => .done (some ⟨⟨p.authoritative, tx⟩, none⟩)
          | .ok tx' => .done (some ⟨⟨p.authoritative, tx⟩, some ⟨d, tx'⟩⟩) := by
  refine congrArg (Dialogue.ask (I := Work) (.call p.authoritative .begin)) (funext fun reply => ?_)
  rcases reply with e | tx
  · rfl
  · cases p with
    | srcOnly | dstOnly => rfl
    | srcFirst | dstFirst =>
      refine congrArg (Dialogue.ask (I := Work) (.call _ .begin)) (funext fun reply' => ?_)
      cases reply' <;> rfl

theorem relays_begin (p : Phase) :
    Relays (p.authoritative, .begin) (p.secondary?.map (·, .begin))
      ((Order.begin.job none).routed p) := by
  refine ⟨_, routed_begin p, fun reply => ?_⟩
  rcases reply with e | tx
  · exact .inl ⟨_, rfl, nofun⟩
  · cases p.secondary? with
    | none => exact .inl ⟨_, rfl, fun _ => rfl⟩
    | some d =>
      refine .inr ⟨_, _, _, rfl, rfl, rfl, fun reply' => ?_⟩
      cases reply' <;> exact ⟨_, rfl⟩

/-- An order in a transaction. -/
theorem Order.relays_within {o : Order} {n : Nat} (hn : o.within? = some n) (p : Phase)
    (t : Transaction) {first : Side × Call} (hfirst : o.on? t.primary = some first) :
    Relays first (o.again? t) ((o.job (some t)).routed p) := by
  have hsecond (c : Nat → Call) : t.secondary.bind (fun b => some (b.side, c b.tx)) =
      t.secondary.map fun b => (b.side, c b.tx) := by cases t.secondary <;> rfl
  cases o with
  | exec s | query s | queryRow s | columns sql | begin => cases hn
  | drop n => cases hfirst
  | queryIn n s | queryRowIn n s =>
    obtain rfl := Option.some.inj hfirst
    exact relays_callStore fun reply => ⟨_, rfl⟩
  | execIn n s =>
    obtain rfl := Option.some.inj hfirst
    have hrelays := relays_repeatCall t (.txExec · s) (f := fun _ => (none : Option Transaction))
    rw [← t.exec_eq, ← hsecond (.txExec · s)] at hrelays
    exact hrelays
  | commit n =>
    obtain rfl := Option.some.inj hfirst
    have hrelays := relays_repeatCall t .txCommit (f := fun _ => (none : Option Transaction))
    rw [← t.commit_eq, ← hsecond] at hrelays
    exact hrelays
  | rollback n =>
    obtain rfl := Option.some.inj hfirst
    have hrelays := relays_repeatCall t .txRollback (f := fun _ => (none : Option Transaction))
    rw [← t.rollback_eq, ← hsecond] at hrelays
    exact hrelays

/-- An order outside transactions. -/
theorem Order.relays_plain {o : Order} (hn : o.within? = none) (p : Phase) {first : Side × Call}
    (hfirst : o.on? p.pair.primary = some first) :
    Relays first (o.again? p.pair) ((o.job none).routed p) := by
  cases o with
  | execIn n s | queryIn n s | queryRowIn n s | commit n | rollback n | drop n => cases hn
  | query s | queryRow s | columns sql =>
    obtain rfl := Option.some.inj hfirst
    exact relays_callStore fun reply => ⟨_, rfl⟩
  | begin =>
    obtain rfl := Option.some.inj hfirst
    have hbegin := relays_begin p
    cases p <;> exact hbegin
  | exec s =>
    obtain rfl := Option.some.inj hfirst
    show Relays _ _ (Dialogue.routed p (Pool.exec s >>= fun _ => .done none))
    rw [Pool.exec_eq]
    refine relays_followedBy _ ?_
    cases p <;> rfl

end
end Cutover
