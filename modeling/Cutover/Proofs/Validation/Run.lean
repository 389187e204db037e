import Cutover.Proofs.Dialogue.Loop
import Cutover.Scan
import Mathlib.Logic.Function.Basic
import Mathlib.Order.GameAdd

/-! # Validations as processes

A validation is two scans side by side.  Each of them is a loop over its passes, and between any two
requests of the one the other may make any number of its own; so a run of a validation is a sequence
of steps, each by one of the two (`Validating.Step`).  The validation ends with the sum of the
tallies when both scans have ended, and with an error as soon as one has failed.
-/

namespace Cutover

open Dialogue

/-- A scan: in the middle of a pass, or over. -/
abbrev Scanner := Process Scanning Verdict (Except StoreError Tally)

/-- The scan of a way, pass after pass. -/
def Plan.scan (p : Plan) (way : Way) :
    Loop Scanning Progress Verdict (Except StoreError Tally) where
  round := p.pass way
  after
    | .again g => .inl g
    | .finished t => .inr (.ok t)
    | .failed e => .inr (.error e)

/-- A validation at work: what is shared, and the scan of each way. -/
structure Validating (σ : Type) where
  shared : σ
  scanner : Way → Scanner

namespace Validating

variable {σ : Type}

/-- A validation before its first step. -/
def start (p : Plan) (s : σ) : Validating σ := ⟨s, fun way => (p.scan way).start {}⟩

/-- What a validation has come to, if it is over: an error as soon as one scan has failed, the sum
of the tallies when both have ended. -/
def outcome? (v : Validating σ) : Option (Except StoreError Tally) :=
  match v.scanner .forward, v.scanner .backward with
  | .ended (.error e), _ => some (.error e)
  | _, .ended (.error e) => some (.error e)
  | .ended (.ok f), .ended (.ok b) => some (.ok (f + b))
  | _, _ => none

/-- A validation none of whose scans fails is open while one of them is at work, and has the sum of
the tallies when both have ended. -/
theorem outcome_of_ends {v : Validating σ} {good : Way → Tally → Prop}
    (hends : ∀ way outcome, v.scanner way = .ended outcome → ∃ t, outcome = .ok t ∧ good way t) :
    (v.outcome? = none ∧ ∃ way d, v.scanner way = .running d) ∨
      ∃ f b, v.outcome? = some (.ok (f + b)) ∧ good .forward f ∧ good .backward b := by
  cases hforward : v.scanner .forward with
  | running d =>
    refine .inl ⟨?_, .forward, d, hforward⟩
    cases hbackward : v.scanner .backward with
    | running d' => simp [outcome?, hforward, hbackward]
    | ended outcome =>
      obtain ⟨t, rfl, -⟩ := hends .backward _ hbackward
      simp [outcome?, hforward, hbackward]
  | ended outcome =>
    obtain ⟨f, rfl, hf⟩ := hends .forward _ hforward
    cases hbackward : v.scanner .backward with
    | running d => exact .inl ⟨by simp [outcome?, hforward, hbackward], .backward, d, hbackward⟩
    | ended outcome =>
      obtain ⟨b, rfl, hb⟩ := hends .backward _ hbackward
      exact .inr ⟨f, b, by simp [outcome?, hforward, hbackward], hf, hb⟩

/-- A validation that has returned a tally is over with both scans, and the tally is the sum of
theirs. -/
theorem exists_tallies_of_outcome {v : Validating σ} {t : Tally} (h : v.outcome? = some (.ok t)) :
    ∃ own : Way → Tally, t = own .forward + own .backward ∧
    ∀ way, v.scanner way = .ended (.ok (own way)) := by
  unfold outcome? at h
  split at h
  · cases h
  · cases h
  · rename_i f b hforward hbackward
    obtain rfl := Except.ok.inj (Option.some.inj h)
    refine ⟨fun way => way.rec f b, rfl, fun way => ?_⟩
    cases way with
    | forward => exact hforward
    | backward => exact hbackward
  · cases h

/-- A step of a validation that is not over: a step of one of its scans. -/
inductive Step (p : Plan) (gives : Way → Surroundings Scanning σ) :
    Validating σ → Validating σ → Prop where
  | scan {v : Validating σ} {s' : σ} {c' : Scanner} (way : Way) : v.outcome? = none →
      (p.scan way).Step (gives way) (v.shared, v.scanner way) (s', c') →
      Step p gives v ⟨s', Function.update v.scanner way c'⟩

/-- A step of a validation is a step of one of its scans, and the other scan stays where it is. -/
theorem Step.exists_scan {p : Plan} {gives : Way → Surroundings Scanning σ} {v v' : Validating σ}
    (h : Step p gives v v') :
    ∃ way, (p.scan way).Step (gives way) (v.shared, v.scanner way) (v'.shared, v'.scanner way) ∧
      ∀ other ≠ way, v'.scanner other = v.scanner other := by
  obtain ⟨way, -, hstep⟩ := h
  refine ⟨way, ?_, fun other hne => Function.update_of_ne hne _ _⟩
  dsimp only
  rw [Function.update_self]
  exact hstep

/-- **No run of a validation is infinite if each of its scans comes nearer to its end by itself**,
in surroundings of its own of which the other scan changes nothing. -/
theorem acc_of_own {τ : Type} {p : Plan} {gives : Way → Surroundings Scanning σ}
    {alone : Way → Surroundings Scanning τ} (own : Way → σ → τ)
    (hown : ∀ {way s c s' c'}, (p.scan way).Step (gives way) (s, c) (s', c') →
      (p.scan way).Step (alone way) (own way s, c) (own way s', c') ∧
        ∀ other ≠ way, own other s' = own other s) {v : Validating σ}
    (hacc : ∀ way, Acc (fun a b => (p.scan way).Step (alone way) b a) (own way v.shared,
      v.scanner way)) :
    Acc (fun a b => Step p gives b a) v := by
  refine Subrelation.accessible ?_ (InvImage.accessible (fun w : Validating σ =>
    ((own .forward w.shared, w.scanner .forward), (own .backward w.shared, w.scanner .backward)))
    ((hacc .forward).prod_gameAdd (hacc .backward)))
  intro w' w hstep
  obtain ⟨way, hscan, hscanners⟩ := hstep.exists_scan
  obtain ⟨hscan, hothers⟩ := hown hscan
  cases way with
  | forward =>
    have hne : Way.backward ≠ Way.forward := by decide
    simp only [InvImage, hothers .backward hne, hscanners .backward hne]
    exact .fst hscan
  | backward =>
    have hne : Way.forward ≠ Way.backward := by decide
    simp only [InvImage, hothers .forward hne, hscanners .forward hne]
    exact .snd hscan

/-- A run: any number of steps. -/
abbrev Reaches (p : Plan) (gives : Way → Surroundings Scanning σ) :
    Validating σ → Validating σ → Prop := Relation.ReflTransGen (Step p gives)

end Validating
end Cutover
