import Cutover.Proofs.Scheduler.Supervision

/-! # A validation under observation

An observer sits between a validation and its surroundings and notes what passes: of each scan, the
requests with the replies they have got (`Observer`).  He answers nothing himself.  What the stores
and the channel reply is left open, and the token may be cancelled at any moment (`Observer.Step`).

What is noted of a scan depends on this scan alone, so it can be followed pass by pass, the token
being cancelled in front of any reply (`Observer.alone`).  What every pass keeps between a scan and
the notes on it therefore holds wherever a run has come to (`Observer.Reaches.kept`), and a
validation that returns a tally returns the sum of two of which the notes tell
(`Observer.Kept.exists_tallies`).
-/

namespace Cutover

open Dialogue

/-- What is noted of a scan before its first request, and by each reply. -/
structure Observer (τ : Type) where
  start : τ
  note : Way → τ → (r : Scanning.Request) → Scanning.Reply r → τ

/-- Whether the token of a validation is cancelled, and what has been noted of its scans. -/
structure Observed (τ : Type) where
  cancelled : Bool := false
  notes : Way → τ

/-- Whether the token was cancelled at the last reply of a scan, and what has been noted of it. -/
structure Sighted (τ : Type) where
  cancelled : Bool := false
  notes : τ

namespace Observer

variable {τ : Type} (o : Observer τ) (p : Plan) (stores : Supervision.Replies)

/-- A validation before its first step. -/
def begin : Validating (Observed τ) := .start p { notes := fun _ => o.start }

/-- How the requests of a scan are answered, and what is noted by that. -/
def gives (way : Way) : Surroundings Scanning (Observed τ) := fun s r reply s' =>
  Scanning.Heeds s.cancelled r reply ∧ (s.cancelled = false → stores r reply) ∧
    s' = { s with notes := Function.update s.notes way (o.note way (s.notes way) r reply) }

/-- A step: the token is cancelled, or a scan goes on. -/
inductive Step : Validating (Observed τ) → Validating (Observed τ) → Prop where
  | cancelled {v : Validating (Observed τ)} : v.shared.cancelled = false →
      Step v { v with shared := { v.shared with cancelled := true } }
  | scanned {v v' : Validating (Observed τ)} : Validating.Step p (o.gives stores) v v' → Step v v'

/-- A run: any number of steps. -/
abbrev Reaches : Validating (Observed τ) → Validating (Observed τ) → Prop :=
  Relation.ReflTransGen (o.Step p stores)

/-- The surroundings of a single scan, with the token cancelled in front of any reply. -/
def alone (way : Way) : Surroundings Scanning (Sighted τ) := fun a r reply a' =>
  (a.cancelled = true → a'.cancelled = true) ∧ Scanning.Heeds a'.cancelled r reply ∧
    (a'.cancelled = false → stores r reply) ∧ a'.notes = o.note way a.notes r reply

/-- The notes on a scan go together with the token, and with what the scan is still to come to. -/
def Kept (again : Way → Progress → Sighted τ → Prop)
    (ends : Way → Except StoreError Tally → Sighted τ → Prop) (v : Validating (Observed τ))
    (way : Way) : Prop :=
  ∃ seen, (seen = true → v.shared.cancelled = true) ∧
    (p.scan way).Promises (o.alone stores way) (again way) (ends way) (v.scanner way)
      ⟨seen, v.shared.notes way⟩

variable {o p stores} {v v' : Validating (Observed τ)} {again : Way → Progress → Sighted τ → Prop}
  {ends : Way → Except StoreError Tally → Sighted τ → Prop}

/-- A step of a scan is one that it may take by itself, and nothing is noted of the other. -/
theorem scan_step_alone {way : Way} {s s' : Observed τ} {c c' : Scanner} {seen : Bool}
    (h : (p.scan way).Step (o.gives stores way) (s, c) (s', c'))
    (hseen : seen = true → s.cancelled = true) :
    (∃ seen', (seen' = true → s'.cancelled = true) ∧
      (p.scan way).Step (o.alone stores way) (⟨seen, s.notes way⟩, c) (⟨seen', s'.notes way⟩, c')) ∧
      s'.cancelled = s.cancelled ∧ ∀ other ≠ way, s'.notes other = s.notes other := by
  cases h with
  | rounded _ verdict => exact ⟨⟨seen, hseen, .rounded _ verdict⟩, rfl, fun _ _ => rfl⟩
  | answered hg =>
    obtain ⟨hheeds, hreplies, rfl⟩ := hg
    refine ⟨⟨s.cancelled, id, .answered ⟨hseen, hheeds, hreplies, ?_⟩⟩, rfl, fun other hne => ?_⟩
    · exact Function.update_self ..
    · exact Function.update_of_ne hne ..

section
variable (hpass : ∀ way g a, again way g a → ((p.scan way).round g).Ensures (o.alone stores way)
  ((p.scan way).Turns (again way) (ends way)) a)
include hpass

/-- **Every step keeps what every pass keeps.** -/
theorem Step.kept (h : o.Step p stores v v') (hv : ∀ way, o.Kept p stores again ends v way)
    (way : Way) : o.Kept p stores again ends v' way := by
  cases h with
  | cancelled _ =>
    obtain ⟨seen, -, hpromises⟩ := hv way
    exact ⟨seen, fun _ => rfl, hpromises⟩
  | scanned hstep =>
    obtain ⟨other, hscan, hscanners⟩ := hstep.exists_scan
    obtain ⟨seen, hseen, hpromises⟩ := hv other
    obtain ⟨⟨seen', hseen', halone⟩, hcancelled, hothers⟩ := scan_step_alone hscan hseen
    by_cases hw : way = other
    · subst hw
      exact ⟨seen', hseen', hpromises.step (hpass way) halone⟩
    · obtain ⟨seen, hseen, hpromises⟩ := hv way
      refine ⟨seen, fun h => hcancelled.trans (hseen h), ?_⟩
      rw [hscanners way hw, hothers way hw]
      exact hpromises

theorem Reaches.kept (hstart : ∀ way, again way {} ⟨false, o.start⟩)
    (h : o.Reaches p stores (o.begin p) v) (way : Way) : o.Kept p stores again ends v way := by
  induction h generalizing way with
  | refl => exact ⟨false, nofun, hpass way {} _ (hstart way)⟩
  | tail _ hstep ih => exact hstep.kept hpass ih way

end

/-- **A validation that returns a tally returns the sum of what its scans have counted.** -/
theorem Kept.exists_tallies (h : ∀ way, o.Kept p stores again ends v way) {t : Tally}
    (hover : v.outcome? = some (.ok t)) :
    ∃ own : Way → Tally, t = own .forward + own .backward ∧
      ∀ way, ∃ seen, (seen = true → v.shared.cancelled = true) ∧
        ends way (.ok (own way)) ⟨seen, v.shared.notes way⟩ := by
  obtain ⟨own, rfl, hended⟩ := Validating.exists_tallies_of_outcome hover
  refine ⟨own, rfl, fun way => ?_⟩
  obtain ⟨seen, hseen, hpromises⟩ := h way
  rw [hended way] at hpromises
  exact ⟨seen, hseen, hpromises⟩

/-! ## A run with given replies -/

variable (o p) in
/-- What a validation that is not cancelled comes to by one step for the scan of a way. -/
def goOn (replies : (r : Scanning.Request) → Scanning.Reply r) (v : Validating (Observed τ))
    (way : Way) : Validating (Observed τ) :=
  match v.outcome?, v.scanner way with
  | none, .running (.done verdict) =>
    ⟨v.shared, Function.update v.scanner way ((p.scan way).next verdict)⟩
  | none, .running (.ask r next) =>
    ⟨{ v.shared with
        notes :=
          Function.update v.shared.notes way (o.note way (v.shared.notes way) r (replies r)) },
      Function.update v.scanner way (.running (next (replies r)))⟩
  | _, _ => v

section
variable {replies : (r : Scanning.Request) → Scanning.Reply r}
  (hreplies : ∀ r, Scanning.Heeds false r (replies r) ∧ stores r (replies r))
include hreplies

theorem reaches_goOn (hfree : v.shared.cancelled = false) (way : Way) :
    o.Reaches p stores v (o.goOn p replies v way) ∧
      (o.goOn p replies v way).shared.cancelled = false := by
  unfold goOn
  split
  · rename_i verdict hopen hd
    refine ⟨.single (.scanned (.scan way hopen ?_)), hfree⟩
    rw [hd]
    exact .rounded _ verdict
  · rename_i r next hopen hd
    refine ⟨.single (.scanned (.scan way hopen ?_)), hfree⟩
    rw [hd]
    exact .answered ⟨hfree ▸ (hreplies r).1, fun _ => (hreplies r).2, rfl⟩
  · exact ⟨.refl, hfree⟩

/-- A validation that is not cancelled may go on, now with the one scan, now with the other. -/
theorem reaches_moves (hfree : v.shared.cancelled = false) (ways : List Way) :
    o.Reaches p stores v (ways.foldl (o.goOn p replies) v) := by
  induction ways generalizing v with
  | nil => exact .refl
  | cons way ways ih =>
    obtain ⟨hstep, hfree'⟩ := reaches_goOn (o := o) hreplies hfree way
    exact hstep.trans (ih hfree')

end

end Observer
end Cutover
