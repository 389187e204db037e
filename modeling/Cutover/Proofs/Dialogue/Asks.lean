import Cutover.Proofs.Dialogue.Loop

/-! # What a conversation may ask

Some facts about a piece of work do not depend on the replies it gets: which stores it touches, what
its events say.  Such a fact is about all requests along all paths of a conversation (`Asks`).
Conversations put together from others ask what these ask, and a loop asks what its rounds ask.
-/

namespace Cutover

open Dialogue

namespace Dialogue

variable {I : Interface} {α β : Type} {P : I.Request → Prop}
  {answers : (r : I.Request) → I.Reply r → Prop}

/-- Every request that the conversation may come to is as said, whatever the replies are. -/
def Asks (P : I.Request → Prop) : Dialogue I α → Prop
  | .done _ => True
  | .ask r next => P r ∧ ∀ reply, (next reply).Asks P

@[simp]
theorem asks_done (a : α) : (Dialogue.done a : Dialogue I α).Asks P := trivial

/-- One conversation followed by another asks what the two of them ask. -/
theorem Asks.bind {d : Dialogue I α} {f : α → Dialogue I β} (hd : d.Asks P)
    (hf : ∀ a, (f a).Asks P) : (d >>= f).Asks P := by
  induction d with
  | done a => exact hf a
  | ask r next ih => exact ⟨hd.1, fun reply => ih reply (hd.2 reply)⟩

/-- Every request that the conversation may come to is as said, as long as the replies are as said
too. -/
def AsksGiven (answers : (r : I.Request) → I.Reply r → Prop) (P : I.Request → Prop) :
    Dialogue I α → Prop
  | .done _ => True
  | .ask r next => P r ∧ ∀ reply, answers r reply → (next reply).AsksGiven answers P

theorem asksGiven_done (a : α) : (Dialogue.done a : Dialogue I α).AsksGiven answers P := trivial

/-- A request, then what depends on its reply. -/
theorem asksGiven_request_bind {r : I.Request} {f : I.Reply r → Dialogue I α} (hr : P r)
    (hf : ∀ reply, answers r reply → (f reply).AsksGiven answers P) :
    (request r >>= f).AsksGiven answers P := ⟨hr, hf⟩

theorem AsksGiven.bind {d : Dialogue I α} {f : α → Dialogue I β} (hd : d.AsksGiven answers P)
    (hf : ∀ a, (f a).AsksGiven answers P) : (d >>= f).AsksGiven answers P := by
  induction d with
  | done a => exact hf a
  | ask r next ih => exact ⟨hd.1, fun reply hreply => ih reply (hd.2 reply hreply)⟩

/-- What is asked whatever the replies are. -/
theorem AsksGiven.asks {Q : I.Request → Prop} {d : Dialogue I α}
    (h : d.AsksGiven (fun _ _ => True) P) (hpq : ∀ r, P r → Q r) : d.Asks Q := by
  induction d with
  | done a => trivial
  | ask r next ih => exact ⟨hpq r h.1, fun reply => ih reply (h.2 reply trivial)⟩

end Dialogue

namespace Loop

variable {I : Interface} {G V R σ : Type} {l : Loop I G V R} {gives : Surroundings I σ}
  {P : I.Request → Prop} {answers : (r : I.Request) → I.Reply r → Prop}

/-- What is left of a loop asks only as said, in this round and in all to come. -/
def Asks (l : Loop I G V R) (P : I.Request → Prop) : Process I V R → Prop
  | .running d => d.Asks P ∧ ∀ g, (l.round g).Asks P
  | .ended _ => True

theorem asks_start (h : ∀ g, (l.round g).Asks P) (g : G) : l.Asks P (l.start g) := ⟨h g, h⟩

/-- A step leaves a loop that asks only as said. -/
theorem Asks.step {s s' : σ} {c c' : Process I V R} (hc : l.Asks P c)
    (hstep : l.Step gives (s, c) (s', c')) : l.Asks P c' := by
  cases hstep with
  | answered _ => exact ⟨hc.1.2 _, hc.2⟩
  | rounded s v =>
    unfold Loop.next
    cases l.after v with
    | inl g => exact asks_start hc.2 g
    | inr r => trivial

/-- What is left of a round asks only as said, as long as the replies are as said too. -/
def AsksGiven (answers : (r : I.Request) → I.Reply r → Prop) (P : I.Request → Prop) :
    Process I V R → Prop
  | .running d => d.AsksGiven answers P
  | .ended _ => True

theorem asksGiven_next (h : ∀ g, (l.round g).AsksGiven answers P) (v : V) :
    AsksGiven answers P (l.next v) := by
  unfold Loop.next
  cases l.after v with
  | inl g => exact h g
  | inr r => trivial

end Loop
end Cutover
