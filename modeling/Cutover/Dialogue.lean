/-! # Dialogues

A piece of the cutover never touches a store, a clock or a channel itself.  It *asks* for one thing
at a time and goes on with the answer, so all it can do is a tree: at each node a request, below it
one branch for every reply.  Such a tree is finite along every path, whatever the replies are.  How
long a request takes, whether it fails and what else happens meanwhile is up to whoever answers; a
statement about every surrounding is a statement about every path through the tree.
-/

namespace Cutover

/-- What may be asked, and what kind of reply each request has. -/
structure Interface where
  Request : Type
  Reply : Request → Type

/-- A finite conversation over an interface that comes to a result. -/
inductive Dialogue (I : Interface) (α : Type) where
  | done (a : α)
  | ask (request : I.Request) (next : I.Reply request → Dialogue I α)

namespace Dialogue

variable {I J : Interface} {α β γ : Type}

/-- A conversation, then another that depends on its result. -/
def bind : Dialogue I α → (α → Dialogue I β) → Dialogue I β
  | .done a, f => f a
  | .ask r next, f => .ask r fun reply => (next reply).bind f

instance : Monad (Dialogue I) where
  pure := .done
  bind := bind

@[simp] theorem pure_eq_done (a : α) : (pure a : Dialogue I α) = .done a := rfl

@[simp] theorem done_bind (a : α) (f : α → Dialogue I β) : (Dialogue.done a >>= f) = f a := rfl

@[simp] theorem ask_bind (r : I.Request) (next : I.Reply r → Dialogue I α) (f : α → Dialogue I β) :
    (Dialogue.ask r next >>= f) = .ask r fun reply => next reply >>= f := rfl

theorem bind_done (d : Dialogue I α) : (d >>= Dialogue.done) = d := by
  induction d with
  | done a => rfl
  | ask r next ih => rw [ask_bind]; congr 1; funext reply; exact ih reply

theorem bind_assoc (d : Dialogue I α) (f : α → Dialogue I β) (g : β → Dialogue I γ) :
    (d >>= f) >>= g = d >>= fun a => f a >>= g := by
  induction d with
  | done a => rfl
  | ask r next ih => simp only [ask_bind]; congr 1; funext reply; exact ih reply

theorem id_map (d : Dialogue I α) : id <$> d = d := bind_done d

instance : LawfulMonad (Dialogue I) :=
  .mk' _ id_map (fun _ _ => rfl) bind_assoc

/-- The conversation of a single request. -/
def request (r : I.Request) : Dialogue I (I.Reply r) := .ask r .done

/-- The same conversation over another interface, on which each request is made by a
conversation. -/
def interpret (f : (r : I.Request) → Dialogue J (I.Reply r)) : Dialogue I α → Dialogue J α
  | .done a => .done a
  | .ask r next => (f r).bind fun reply => (next reply).interpret f

/-- The result and the final state when every request is answered at once by a function of the
state. -/
def runWith {σ : Type} (answer : (r : I.Request) → σ → I.Reply r × σ) : Dialogue I α → σ → α × σ
  | .done a, s => (a, s)
  | .ask r next, s =>
    let (reply, s) := answer r s
    (next reply).runWith answer s

theorem runWith_bind {σ : Type} (answer : (r : I.Request) → σ → I.Reply r × σ)
    (d : Dialogue I α) (f : α → Dialogue I β) (s : σ) :
    (d >>= f).runWith answer s =
      (f (d.runWith answer s).1).runWith answer (d.runWith answer s).2 := by
  induction d generalizing s with
  | done a => rfl
  | ask r next ih => exact ih _ _

end Dialogue
end Cutover
