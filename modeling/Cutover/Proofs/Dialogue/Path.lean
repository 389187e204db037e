import Cutover.Proofs.Dialogue.Ensures

/-! # Paths through a conversation

What was asked and answered so far says where a conversation stands (`Leads`): it is the branch that
these exchanges lead to, and there is no other.  A conversation that is over was led to its result,
so the exchanges tell how the result came about; of one conversation followed by another they fall
into two parts (`leads_bind_done`).
-/

namespace Cutover

/-- A request with the reply it got. -/
structure Exchange (I : Interface) where
  request : I.Request
  reply : I.Reply request

namespace Dialogue

variable {I J : Interface} {α β : Type}

/-- The exchanges lead from one conversation to another, which is what is left of it. -/
inductive Leads : Dialogue I α → List (Exchange I) → Dialogue I α → Prop where
  | nil (d : Dialogue I α) : Leads d [] d
  | cons {r : I.Request} {next : I.Reply r → Dialogue I α} {reply : I.Reply r}
      {es : List (Exchange I)} {d : Dialogue I α} :
      Leads (next reply) es d → Leads (.ask r next) (⟨r, reply⟩ :: es) d

/-- One more request is answered. -/
theorem Leads.snoc {d : Dialogue I α} {es : List (Exchange I)} {r : I.Request}
    {next : I.Reply r → Dialogue I α} (h : Leads d es (.ask r next)) (reply : I.Reply r) :
    Leads d (es ++ [⟨r, reply⟩]) (next reply) := by
  generalize he : Dialogue.ask r next = d' at h
  induction h with
  | nil d =>
    subst he
    exact .cons (.nil _)
  | cons _ ih => exact .cons (ih he)

/-- The exchanges say where a conversation stands. -/
theorem Leads.unique {d a b : Dialogue I α} {es : List (Exchange I)} (ha : Leads d es a)
    (hb : Leads d es b) : a = b := by
  induction ha with
  | nil d =>
    cases hb
    rfl
  | cons _ ih =>
    cases hb with
    | cons hb => exact ih hb

/-- Exchanges fall into two parts at any place. -/
theorem leads_append {d b : Dialogue I α} {es fs : List (Exchange I)} :
    Leads d (es ++ fs) b ↔ ∃ a, Leads d es a ∧ Leads a fs b := by
  induction es generalizing d with
  | nil =>
    constructor
    · intro h
      exact ⟨d, .nil d, h⟩
    · rintro ⟨a, ha, hb⟩
      cases ha
      exact hb
  | cons e es ih =>
    constructor
    · intro h
      cases h with
      | cons h =>
        obtain ⟨a, ha, hb⟩ := ih.mp h
        exact ⟨a, .cons ha, hb⟩
    · rintro ⟨a, ha, hb⟩
      cases ha with
      | cons ha => exact .cons (ih.mpr ⟨a, ha, hb⟩)

/-- A conversation that is over leads nowhere. -/
theorem Leads.of_done {a : α} {es : List (Exchange I)} {d : Dialogue I α}
    (h : Leads (.done a) es d) : es = [] ∧ d = .done a := by
  cases h
  exact ⟨rfl, rfl⟩

/-- **What one conversation followed by another was led by falls into what led the one to its result
and what led the other to its own.** -/
theorem leads_bind_done {d : Dialogue I α} {f : α → Dialogue I β} {es : List (Exchange I)} {b : β}
    (h : Leads (d >>= f) es (.done b)) :
    ∃ fs gs a, es = fs ++ gs ∧ Leads d fs (.done a) ∧ Leads (f a) gs (.done b) := by
  induction d generalizing es with
  | done a => exact ⟨[], es, a, rfl, .nil _, h⟩
  | ask r next ih =>
    rw [ask_bind] at h
    cases h with
    | @cons _ _ reply es _ h =>
      obtain ⟨fs, gs, a, rfl, hd, hf⟩ := ih reply h
      exact ⟨⟨r, reply⟩ :: fs, gs, a, rfl, .cons hd, hf⟩

/-! ## Results -/

/-- Every result of the conversation, whatever the replies, is as said. -/
def Returns (P : α → Prop) (d : Dialogue I α) : Prop :=
  d.Ensures (fun _ _ _ _ => True) (fun a (_ : Unit) => P a) ()

variable {P : α → Prop} {Q : β → Prop}

theorem Leads.returns {d : Dialogue I α} {es : List (Exchange I)} {a : α}
    (h : Leads d es (.done a)) (hd : d.Returns P) : P a := by
  generalize he : Dialogue.done a = d' at h
  induction h with
  | nil d =>
    subst he
    exact hd
  | cons _ ih => exact ih (hd _ _ trivial) he

theorem returns_true (d : Dialogue I α) : d.Returns fun _ => True := by
  induction d with
  | done a => trivial
  | ask r next ih => exact fun reply _ _ => ih reply

theorem Returns.bind {d : Dialogue I α} {f : α → Dialogue I β} (hf : ∀ a, (f a).Returns Q) :
    (d >>= f).Returns Q :=
  Ensures.bind (returns_true d) fun a _ _ => hf a

end Dialogue
end Cutover
