import Cutover.Dialogue

/-! # What a conversation ensures

Whoever answers the requests of a conversation keeps a state: tables, a log, what has been
published.  `Surroundings` say which replies a request may get in a state and which state that
leaves; several are allowed, since a call may fail and a flag may change.  A conversation *ensures*
something when this holds of its result and of the final state whatever replies it gets (`Ensures`).

For conversations that are put together from others it is enough to know what each of them ensures
(`ensures_bind`).  That an answer exists at all is a fact about the surroundings and is not told
here.
-/

namespace Cutover.Dialogue

variable {I : Interface} {α β σ : Type}

/-- Which replies a request may get in a state, and the state after each. -/
abbrev Surroundings (I : Interface) (σ : Type) : Type :=
  σ → (r : I.Request) → I.Reply r → σ → Prop

/-- However the requests are answered, the result and the final state are as said. -/
def Ensures (gives : Surroundings I σ) (Q : α → σ → Prop) : Dialogue I α → σ → Prop
  | .done a, s => Q a s
  | .ask r next, s => ∀ reply s', gives s r reply s' → Ensures gives Q (next reply) s'

variable {gives : Surroundings I σ} {P Q : α → σ → Prop}

@[simp]
theorem ensures_done {a : α} {s : σ} : Ensures gives Q (.done a) s ↔ Q a s := Iff.rfl

@[simp]
theorem ensures_ask {r : I.Request} {next : I.Reply r → Dialogue I α} {s : σ} :
    Ensures gives Q (.ask r next) s ↔
      ∀ reply s', gives s r reply s' → Ensures gives Q (next reply) s' := Iff.rfl

/-- A single request, then the rest. -/
theorem ensures_request_bind {r : I.Request} {f : I.Reply r → Dialogue I α} {s : σ} :
    Ensures gives Q (request r >>= f) s ↔
      ∀ reply s', gives s r reply s' → Ensures gives Q (f reply) s' := Iff.rfl

theorem Ensures.mono (hpq : ∀ a s, P a s → Q a s) {d : Dialogue I α} {s : σ}
    (h : Ensures gives P d s) : Ensures gives Q d s := by
  induction d generalizing s with
  | done a => exact hpq a s h
  | ask r next ih => exact fun reply s' hg => ih reply (h reply s' hg)

theorem Ensures.of_forall (h : ∀ a s, Q a s) (d : Dialogue I α) (s : σ) : Ensures gives Q d s := by
  induction d generalizing s with
  | done a => exact h a s
  | ask r next ih => exact fun reply s' _ => ih reply s'

/-- What is ensured under any of the replies is ensured under fewer of them, as long as these keep
to what makes them fewer. -/
theorem Ensures.restrict {gives' : Surroundings I σ} {K : σ → Prop}
    (hfewer : ∀ s r reply s', K s → gives' s r reply s' → gives s r reply s' ∧ K s')
    {d : Dialogue I α} {s : σ} (h : Ensures gives Q d s) (hs : K s) :
    Ensures gives' (fun a s' => Q a s' ∧ K s') d s := by
  induction d generalizing s with
  | done a => exact ⟨h, hs⟩
  | ask r next ih =>
    intro reply s' hg
    obtain ⟨hg, hs'⟩ := hfewer s r reply s' hs hg
    exact ih reply (h reply s' hg) hs'

/-- **A conversation followed by another ensures what the other ensures after it.** -/
theorem ensures_bind {d : Dialogue I α} {f : α → Dialogue I β} {R : β → σ → Prop} {s : σ} :
    Ensures gives R (d >>= f) s ↔ Ensures gives (fun a s' => Ensures gives R (f a) s') d s := by
  induction d generalizing s with
  | done a => exact Iff.rfl
  | ask r next ih =>
    constructor
    · intro h reply s' hg
      exact (ih reply).mp (h reply s' hg)
    · intro h reply s' hg
      exact (ih reply).mpr (h reply s' hg)

/-- What is known of the first conversation is used in the second. -/
theorem Ensures.bind {d : Dialogue I α} {f : α → Dialogue I β} {R : β → σ → Prop} {s : σ}
    (hd : Ensures gives P d s) (hf : ∀ a s', P a s' → Ensures gives R (f a) s') :
    Ensures gives R (d >>= f) s :=
  ensures_bind.mpr (hd.mono hf)

/-- If each request has an answer, a conversation may come to an end, and to one that it ensures. -/
theorem Ensures.exists_end {K : σ → Prop}
    (hanswer : ∀ s r, K s → ∃ reply s', gives s r reply s' ∧ K s') {d : Dialogue I α} {s : σ}
    (h : Ensures gives Q d s) (hs : K s) : ∃ a s', Q a s' ∧ K s' := by
  induction d generalizing s with
  | done a => exact ⟨a, s, h, hs⟩
  | ask r next ih =>
    obtain ⟨reply, s', hg, hs'⟩ := hanswer s r hs
    exact ih reply (h reply s' hg) hs'

section
variable {J : Interface} {τ : Type} {gives' : Surroundings J τ}
  {f : (r : I.Request) → Dialogue J (I.Reply r)}

/-- **A conversation held over another interface** ensures what it ensures by itself, if the states
go together and each request is answered there as it is here. -/
theorem Ensures.interpret {R : σ → τ → Prop}
    (hf : ∀ r s t, R s t →
      Ensures gives' (fun reply t' => ∃ s', gives s r reply s' ∧ R s' t') (f r) t)
    {d : Dialogue I α} {s : σ} {t : τ} (hd : Ensures gives P d s) (hst : R s t) :
    Ensures gives' (fun a t' => ∃ s', P a s' ∧ R s' t') (d.interpret f) t := by
  induction d generalizing s t with
  | done a => exact ⟨s, hd, hst⟩
  | ask r next ih =>
    refine Ensures.bind (hf r s t hst) ?_
    rintro reply t' ⟨s', hg, hst'⟩
    exact ih reply (hd reply s' hg) hst'

end

end Cutover.Dialogue
