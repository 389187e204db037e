import Cutover.Proofs.Dialogue.Ensures
import Mathlib.Logic.Relation

/-! # Conversations held again and again

A `Loop` holds one conversation after the other: what a round comes to says with what the next one
begins, or how the loop ends.  In between the loop is a `Process`, in the middle of a round or over,
and it goes on by single requests (`Loop.Step`), so that others may make theirs in between.

What a loop promises is carried through its steps in the form of what is still to come
(`Loop.Promises`): the rest of the round ensures that the next round may begin or that the loop ends
as it should.  A promise that every round renews holds from then on (`Promises.step`), and if the
rounds come nearer to the end the loop gets there (`Promises.acc`).  If besides every request has an
answer, the loop ends as it should, whatever the answers are (`ends_start`).
-/

namespace Cutover

open Dialogue

/-- No run of steps is infinite, and where a run cannot go on all is as said. -/
def Ends {α : Type} (step : α → α → Prop) (good : α → Prop) (a : α) : Prop :=
  Acc (fun b c => step c b) a ∧
    ∀ b, Relation.ReflTransGen step a b → (∃ c, step b c) ∨ good b

theorem Ends.mono {α : Type} {step : α → α → Prop} {good good' : α → Prop} {a : α}
    (h : Ends step good a)
    (hgood : ∀ b, Relation.ReflTransGen step a b → good b → good' b) : Ends step good' a :=
  ⟨h.1, fun b hb => (h.2 b hb).imp_right (hgood b hb)⟩

/-- What comes to an end may be followed there, by induction on the runs that are left. -/
theorem Ends.exists_end {α : Type} {step : α → α → Prop} {good : α → Prop} {a : α}
    (h : Ends step good a) : ∃ b, Relation.ReflTransGen step a b ∧ good b := by
  obtain ⟨hacc, hall⟩ := h
  induction hacc with
  | intro a _ ih =>
    rcases hall a .refl with ⟨b, hstep⟩ | hgood
    · obtain ⟨c, hrun, hgood⟩ := ih b hstep fun d hd => hall d (.head hstep hd)
      exact ⟨c, .head hstep hrun, hgood⟩
    · exact ⟨a, .refl, hgood⟩

/-- A loop in the middle of a round, or over. -/
inductive Process (I : Interface) (V R : Type) where
  | running (d : Dialogue I V)
  | ended (r : R)

/-- Rounds of conversation, and what becomes of the result of one: the next round, or the end. -/
structure Loop (I : Interface) (G V R : Type) where
  round : G → Dialogue I V
  after : V → G ⊕ R

namespace Loop

variable {I : Interface} {G V R σ : Type} (l : Loop I G V R) (gives : Surroundings I σ)

/-- What the loop is before a round. -/
def start (g : G) : Process I V R := .running (l.round g)

/-- What the loop is after a round. -/
def next (v : V) : Process I V R :=
  match l.after v with
  | .inl g => l.start g
  | .inr r => .ended r

/-- A step: a request is answered, or a round is over. -/
inductive Step : σ × Process I V R → σ × Process I V R → Prop where
  | answered {s s' : σ} {r : I.Request} {next : I.Reply r → Dialogue I V} {reply : I.Reply r} :
      gives s r reply s' → Step (s, .running (.ask r next)) (s', .running (next reply))
  | rounded (s : σ) (v : V) : Step (s, .running (.done v)) (s, l.next v)

/-- How a round may turn out: another may begin, or the loop ends as it should. -/
def Turns (again : G → σ → Prop) (ends : R → σ → Prop) (v : V) (s : σ) : Prop :=
  match l.after v with
  | .inl g => again g s
  | .inr r => ends r s

/-- What is still to come: the round turns out well, or the loop has ended well. -/
def Promises (again : G → σ → Prop) (ends : R → σ → Prop) : Process I V R → σ → Prop
  | .running d, s => d.Ensures gives (l.Turns again ends) s
  | .ended r, s => ends r s

variable {l gives} {again : G → σ → Prop} {ends : R → σ → Prop}

theorem promises_next
    (hround : ∀ g s, again g s → (l.round g).Ensures gives (l.Turns again ends) s) {v : V} {s : σ}
    (hv : l.Turns again ends v s) : l.Promises gives again ends (l.next v) s := by
  unfold Turns at hv
  unfold next
  cases hafter : l.after v with
  | inl g =>
    rw [hafter] at hv
    exact hround g s hv
  | inr r =>
    rw [hafter] at hv
    exact hv

/-- **A promise that every round renews is kept from step to step.** -/
theorem Promises.step
    (hround : ∀ g s, again g s → (l.round g).Ensures gives (l.Turns again ends) s)
    {s s' : σ} {c c' : Process I V R} (hc : l.Promises gives again ends c s)
    (hstep : l.Step gives (s, c) (s', c')) : l.Promises gives again ends c' s' := by
  cases hstep with
  | answered hg => exact hc _ _ hg
  | rounded s v => exact promises_next hround hc

/-- A promise is also kept under fewer of the replies, as long as these keep to what makes them
fewer. -/
theorem Promises.restrict {gives' : Surroundings I σ} {K : σ → Prop}
    (hfewer : ∀ s r reply s', K s → gives' s r reply s' → gives s r reply s' ∧ K s')
    {c : Process I V R} {s : σ} (h : l.Promises gives again ends c s) (hs : K s) :
    l.Promises gives' (fun g s' => again g s' ∧ K s') (fun r s' => ends r s' ∧ K s') c s := by
  cases c with
  | ended r => exact ⟨h, hs⟩
  | running d =>
    have hrest : d.Ensures gives (l.Turns again ends) s := h
    refine (hrest.restrict hfewer hs).mono ?_
    rintro v s' ⟨hv, hs'⟩
    unfold Turns at *
    cases hafter : l.after v with
    | inl g =>
      rw [hafter] at hv
      exact ⟨hv, hs'⟩
    | inr r =>
      rw [hafter] at hv
      exact ⟨hv, hs'⟩

theorem acc_ended (s : σ) (r : R) : Acc (fun a b => l.Step gives b a) (s, .ended r) :=
  .intro _ fun _ hstep => nomatch hstep

/-- The rest of a round comes to its end, by induction on what is left of it. -/
theorem acc_running {s : σ} {d : Dialogue I V}
    (hd : d.Ensures gives (fun v s' => Acc (fun a b => l.Step gives b a) (s', l.next v)) s) :
    Acc (fun a b => l.Step gives b a) (s, .running d) := by
  induction d generalizing s with
  | done v =>
    refine .intro _ fun ⟨s', c'⟩ hstep => ?_
    cases hstep
    exact hd
  | ask r next ih =>
    refine .intro _ fun ⟨s', c'⟩ hstep => ?_
    cases hstep with
    | answered hg => exact ih _ (hd _ _ hg)

/-- **A loop whose rounds come nearer to the end gets there**, by induction on how much is left
before a round. -/
theorem Promises.acc (left : G → σ → Nat)
    (hround : ∀ g s, again g s → (l.round g).Ensures gives
      (l.Turns (fun g' s' => again g' s' ∧ left g' s' < left g s) ends) s)
    {s : σ} {c : Process I V R} (hc : l.Promises gives again ends c s) :
    Acc (fun a b => l.Step gives b a) (s, c) := by
  have hstart : ∀ n g s, again g s → left g s = n →
      Acc (fun a b => l.Step gives b a) (s, l.start g) := by
    intro n
    -- the next round begins with less left
    induction n using Nat.strongRecOn with
    | _ n ih =>
      intro g s hg hn
      refine acc_running ((hround g s hg).mono fun v s' hv => ?_)
      unfold Turns at hv
      unfold next
      cases hafter : l.after v with
      | inl g' =>
        rw [hafter] at hv
        exact ih _ (hn ▸ hv.2) g' s' hv.1 rfl
      | inr r => exact acc_ended s' r
  cases c with
  | running d =>
    refine acc_running (hc.mono fun v s' hv => ?_)
    unfold Turns at hv
    unfold next
    cases hafter : l.after v with
    | inl g =>
      rw [hafter] at hv
      exact hstart _ g s' hv rfl
    | inr r => exact acc_ended s' r
  | ended r => exact acc_ended s r

/-- What answers keep holds in every run. -/
theorem reaches_kept {K : σ → Prop} (hkept : ∀ s r reply s', gives s r reply s' → K s → K s')
    {x y : σ × Process I V R} (hx : K x.1) (h : Relation.ReflTransGen (l.Step gives) x y) :
    K y.1 := by
  induction h with
  | refl => exact hx
  | tail _ hstep ih =>
    cases hstep with
    | answered hg => exact hkept _ _ _ _ hg ih
    | rounded s v => exact ih

theorem Promises.reaches
    (hround : ∀ g s, again g s → (l.round g).Ensures gives (l.Turns again ends) s)
    {x y : σ × Process I V R} (hx : l.Promises gives again ends x.2 x.1)
    (h : Relation.ReflTransGen (l.Step gives) x y) : l.Promises gives again ends y.2 y.1 := by
  induction h with
  | refl => exact hx
  | tail _ hstep ih => exact ih.step hround hstep

theorem Turns.mono {again' : G → σ → Prop} (h : ∀ g s, again' g s → again g s) {v : V} {s : σ}
    (hv : l.Turns again' ends v s) : l.Turns again ends v s := by
  unfold Turns at *
  cases hafter : l.after v with
  | inl g =>
    rw [hafter] at hv
    exact h g s hv
  | inr r =>
    rw [hafter] at hv
    exact hv

/-- **A loop whose rounds come nearer to the end ends as it should**, if each request has an
answer. -/
theorem ends_start {K : σ → Prop} (left : G → σ → Nat)
    (hround : ∀ g s, again g s → (l.round g).Ensures gives
      (l.Turns (fun g' s' => again g' s' ∧ left g' s' < left g s) ends) s)
    (hanswer : ∀ s r, K s → ∃ reply s', gives s r reply s')
    (hkept : ∀ s r reply s', gives s r reply s' → K s → K s')
    {g : G} {s : σ} (hg : again g s) (hs : K s) :
    Ends (l.Step gives) (fun x => ∃ r, x.2 = .ended r ∧ ends r x.1) (s, l.start g) := by
  have hrenews : ∀ g s, again g s → (l.round g).Ensures gives (l.Turns again ends) s :=
    fun g s hg => (hround g s hg).mono fun v s' => Turns.mono fun _ _ h => h.1
  have hstart : l.Promises gives again ends (l.start g) s := hrenews g s hg
  refine ⟨hstart.acc left hround, fun ⟨s', c⟩ hrun => ?_⟩
  have hpromises := Promises.reaches (x := (s, l.start g)) hrenews hstart hrun
  have hs' := reaches_kept (x := (s, l.start g)) hkept hs hrun
  cases c with
  | ended r => exact .inr ⟨r, rfl, hpromises⟩
  | running d =>
    cases d with
    | done v => exact .inl ⟨_, .rounded s' v⟩
    | ask r next =>
      obtain ⟨reply, t, hg⟩ := hanswer s' r hs'
      exact .inl ⟨_, .answered hg⟩

end Loop
end Cutover
