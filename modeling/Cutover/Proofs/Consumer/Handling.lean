import Cutover.Consumer
import Cutover.Proofs.Dialogue.Path

/-! # What handling a message comes to

Handling a payload *resolves* it when the payload is no event that could be handled, or when a
repair of the row it names, in the direction it names, has succeeded (`Consumer.Resolves`).  A
message is committed for no other reason: the errors of a repair are errors of a store, so none of
them is taken for a payload that can never be handled (`outcome_cases`).
-/

namespace Cutover

open Dialogue

/-! ## Attempts -/

namespace Retry

variable {α : Type}

/-- An operation that succeeded in the end did so at its last attempt. -/
theorem last_attempt_ok {r : Retry} {wait : Duration → Dialogue Work Unit}
    {chance : Dialogue Work Nat} {operation : Dialogue Work (Except CutoverError α)}
    {left attempt : Nat} {es : List (Exchange Work)} {a : α}
    (h : Leads (r.attemptsFrom wait chance operation left attempt) es
      (.done (.finished (.ok a)))) :
    ∃ before last, es = before ++ last ∧ Leads operation last (.done (.ok a)) := by
  induction left generalizing attempt es with
  | zero =>
    rw [attemptsFrom] at h
    obtain ⟨fs, gs, result, rfl, hop, hrest⟩ := leads_bind_done h
    cases result with
    | ok b =>
      obtain ⟨rfl, he⟩ := hrest.of_done
      cases he
      exact ⟨[], fs, by simp, hop⟩
    | error e =>
      simp only at hrest
      split at hrest
      · obtain ⟨-, he⟩ := hrest.of_done
        cases he
      · obtain ⟨-, he⟩ := hrest.of_done
        cases he
  | succ left ih =>
    rw [attemptsFrom] at h
    obtain ⟨fs, gs, result, rfl, hop, hrest⟩ := leads_bind_done h
    cases result with
    | ok b =>
      obtain ⟨rfl, he⟩ := hrest.of_done
      cases he
      exact ⟨[], fs, by simp, hop⟩
    | error e =>
      simp only at hrest
      split at hrest
      · obtain ⟨-, he⟩ := hrest.of_done
        cases he
      · split at hrest
        · obtain ⟨-, he⟩ := hrest.of_done
          cases he
        · -- the next attempt comes after the wait
          obtain ⟨ws, rs, d, rfl, -, hrest⟩ := leads_bind_done hrest
          obtain ⟨ps, rs, -, rfl, -, hrest⟩ := leads_bind_done hrest
          obtain ⟨before, last, rfl, hlast⟩ := ih hrest
          exact ⟨fs ++ (ws ++ (ps ++ before)), last, by simp, hlast⟩

section
variable {I : Interface} {σ : Type} {gives : Surroundings I σ} {r : Retry}
  {wait : Duration → Dialogue I Unit} {chance : Dialogue I Nat}
  {operation : Dialogue I (Except CutoverError α)} {K : σ → Prop}
  {P : Except CutoverError α → σ → Prop} {Q : Outcome α → σ → Prop}

/-- A draw of chance for a wait keeps what chance keeps. -/
theorem ensures_actualDelay (hchance : ∀ s, K s → chance.Ensures gives (fun _ s' => K s') s)
    (d : Duration) {s : σ} (hs : K s) :
    (r.actualDelay chance d).Ensures gives (fun _ s' => K s') s := by
  unfold actualDelay
  split
  · exact (hchance s hs).bind fun _ _ hs' => hs'
  · exact hs

/-- **What attempts ensure.**  Before each attempt holds what waits and failed attempts keep; the
outcome is what an attempt ensures of it, or a wait that is no span of time has come up. -/
theorem ensures_attemptsFrom (hop : ∀ s, K s → operation.Ensures gives P s)
    (hresult : ∀ result s, P result s → Q (.finished result) s)
    (hfailed : ∀ e s, P (.error e) s → K s)
    (hwait : ∀ d s, K s → (wait d).Ensures gives (fun _ s' => K s') s)
    (hchance : ∀ s, K s → chance.Ensures gives (fun _ s' => K s') s)
    {left attempt : Nat}
    (hspan : ∀ k < attempt + left, r.delay? k = none → ∀ s, K s → Q .unboundedWait s)
    {s : σ} (hs : K s) :
    (r.attemptsFrom wait chance operation left attempt).Ensures gives Q s := by
  induction left generalizing attempt s with
  | zero =>
    rw [attemptsFrom]
    refine (hop s hs).bind fun result s₁ hresult₁ => ?_
    cases result with
    | ok a => exact hresult _ _ hresult₁
    | error e =>
      simp only
      split <;> exact hresult _ _ hresult₁
  | succ left ih =>
    rw [attemptsFrom]
    refine (hop s hs).bind fun result s₁ hresult₁ => ?_
    cases result with
    | ok a => exact hresult _ _ hresult₁
    | error e =>
      have hs₁ := hfailed e s₁ hresult₁
      simp only
      split
      · exact hresult _ _ hresult₁
      · split
        · rename_i hnone
          exact hspan attempt (by omega) hnone s₁ hs₁
        · rename_i d _
          -- the next attempt comes after the wait
          refine (ensures_actualDelay hchance d hs₁).bind fun d' s₂ hs₂ => ?_
          refine (hwait d' s₂ hs₂).bind fun _ s₃ hs₃ => ?_
          exact ih (fun k hk => hspan k (by omega)) hs₃

/-- An operation that succeeds is not attempted again. -/
theorem ensures_attemptsFrom_of_ok {Q : α → σ → Prop} {s : σ}
    (hop : operation.Ensures gives (fun result s' => ∃ a, result = .ok a ∧ Q a s') s)
    (left attempt : Nat) : (r.attemptsFrom wait chance operation left attempt).Ensures gives
      (fun o s' => ∃ a, o = .finished (.ok a) ∧ Q a s') s := by
  cases left with
  | zero | succ left =>
    rw [attemptsFrom]
    refine hop.bind ?_
    rintro _ s' ⟨a, rfl, ha⟩
    exact ⟨a, rfl, ha⟩

end

/-- What holds of every result of the operation holds of every result of its attempts. -/
theorem returns_attemptsFrom {P : Except CutoverError α → Prop} {r : Retry}
    {wait : Duration → Dialogue Work Unit} {chance : Dialogue Work Nat}
    {operation : Dialogue Work (Except CutoverError α)} (h : operation.Returns P)
    (left attempt : Nat) :
    (r.attemptsFrom wait chance operation left attempt).Returns
      fun o => ∀ result, o = .finished result → P result := by
  have hkept : ∀ {β : Type} (d : Dialogue Work β), ∀ s : Unit, True →
      d.Ensures (fun _ _ _ _ => True) (fun _ _ => True) s := fun d _ _ => returns_true d
  refine ensures_attemptsFrom (fun _ _ => h) ?_ (fun _ _ _ => trivial) (fun d => hkept (wait d))
    (hkept chance) ?_ trivial
  · rintro result _ hresult _ ⟨⟩
    exact hresult
  · rintro k - - _ - _ ⟨⟩

end Retry

/-- A repair fails with an error of a store. -/
theorem Fixer.returns_fix (f : Fixer) (id : Int64) :
    (f.fix id).Returns fun result => ∀ e, result = .error e → ∃ s, e = .store s := by
  rw [fix]
  refine Returns.bind fun found => ?_
  match found with
  | .error e =>
    rintro _ ⟨⟩
    exact ⟨e, rfl⟩
  | .ok none =>
    refine Returns.bind fun written => ?_
    cases written with
    | error e =>
      rintro _ ⟨⟩
      exact ⟨e, rfl⟩
    | ok n => rintro _ ⟨⟩
  | .ok (some row) =>
    simp only
    split
    · rintro _ ⟨⟩
      exact ⟨_, rfl⟩
    · refine Returns.bind fun written => ?_
      cases written with
      | error e =>
        rintro _ ⟨⟩
        exact ⟨e, rfl⟩
      | ok n => rintro _ ⟨⟩

/-! ## Payloads -/

namespace Consumer

variable (c : Consumer)

/-- The exchanges resolve a payload: it is no event that could be handled and nothing is done for
it, or the repair of the row it names, by the fixer of its direction, has come to an end of which
the last attempt is the one that succeeded. -/
def Resolves (payload : Event.Payload) (es : List (Exchange Work)) : Prop :=
  (∃ e, Event.decode payload = .error e ∧ e.isPoison = true ∧ es = []) ∨
    ∃ event outcome tries last, Event.decode payload = .ok event ∧ es = tries ++ last ∧
      Leads ((c.fixer event.direction).fix event.id) last (.done (.ok outcome)) ∧
      Leads (c.handle payload) es (.done (.finished (.ok outcome)))

variable {c}

theorem isPoison_of_decode {payload : Event.Payload} {e : CutoverError}
    (h : Event.decode payload = .error e) : e.isPoison = true := by
  unfold Event.decode at h
  split at h
  · cases h
    rfl
  · split at h
    · cases h
      rfl
    · cases h

/-- **How handling ends**: the payload is resolved, or the message has to come again, or the
consumer is gone. -/
theorem outcome_cases {payload : Event.Payload} {es : List (Exchange Work)}
    {o : Retry.Outcome FixOutcome} (h : Leads (c.handle payload) es (.done o)) :
    (c.Resolves payload es ∧ ((∃ outcome, o = .finished (.ok outcome)) ∨
        ∃ e, o = .finished (.error e) ∧ e.isPoison = true)) ∨
      (¬ c.Resolves payload es ∧ ((∃ e, o = .finished (.error e) ∧ e.isPoison = false) ∨
        o = .unboundedWait)) := by
  have hhandle := h
  unfold handle at h
  cases hd : Event.decode payload with
  | error e =>
    have hpoison := isPoison_of_decode hd
    rw [hd] at h
    obtain ⟨rfl, ho⟩ := h.of_done
    cases ho
    exact .inl ⟨.inl ⟨e, hd, hpoison, rfl⟩, .inr ⟨e, rfl, hpoison⟩⟩
  | ok event =>
    rw [hd] at h
    have hunresolved : (∀ outcome, o ≠ .finished (.ok outcome)) → ¬ c.Resolves payload es := by
      rintro hne (⟨e, he, -, -⟩ | ⟨event', outcome, tries, last, he, -, -, hleads⟩)
      · rw [hd] at he
        cases he
      · exact hne outcome (Dialogue.done.inj (hhandle.unique hleads))
    cases o with
    | unboundedWait => exact .inr ⟨hunresolved (by simp), .inr rfl⟩
    | finished result =>
      cases result with
      | ok outcome =>
        obtain ⟨tries, last, hsplit, hlast⟩ := Retry.last_attempt_ok h
        exact .inl ⟨.inr ⟨event, outcome, tries, last, hd, hsplit, hlast, hhandle⟩,
          .inl ⟨outcome, rfl⟩⟩
      | error e =>
        have hstore := h.returns
          (Retry.returns_attemptsFrom (Fixer.returns_fix _ event.id) c.retry.maxRetries 0)
        obtain ⟨s, rfl⟩ := hstore _ rfl e rfl
        exact .inr ⟨hunresolved (by simp), .inl ⟨_, rfl, rfl⟩⟩

end Consumer
end Cutover
