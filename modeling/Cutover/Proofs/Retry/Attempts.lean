import Mathlib.Order.Bounds.Basic
import Cutover.Rehearsal.Attempts
import Cutover.Proofs.Retry.Delay

/-! # How often something is attempted

Whoever repeats an operation asks for three things: an attempt, a wait, and chance.  Here the
outcomes of the attempts come from an infinite stream, and chance from another, and what is asked is
written down in its order (`Retry.streamed`).  A run goes from one attempt to the next as long as
the outcomes admit of another attempt and the waits are spans of time (`Retry.run_eq`).  So it comes
to an end with the first outcome that is final, or with the last attempt that is allowed, or at a
wait that is no span.
-/

namespace Cutover

open Dialogue Binary64 Rehearsal

/-- Which errors are worth another attempt. -/
theorem CutoverError.isRetryable_iff (e : CutoverError) :
    e.isRetryable = true ↔
      (∃ text, e = .store (.database (.io text))) ∨ e = .store (.database .poolTimedOut) ∨
        e = .store (.database .workerCrashed) ∨ (∃ text, e = .store (.unavailable text)) ∨
        ∃ text, e = .channel (.transport text) := by
  rcases e with (fault | _ | _ | _ | _ | _ | _) | (_ | _ | _) | _ | _ | _
  case store.database =>
    cases fault <;> simp [isRetryable, StoreError.isRetryable, DatabaseFault.isTransient]
  all_goals simp [isRetryable, StoreError.isRetryable]

namespace Retry

variable {α : Type}

/-- No attempt follows the outcome: a success, or an error that is not worth another attempt. -/
def IsFinal : Except CutoverError α → Prop
  | .ok _ => True
  | .error e => e.isRetryable = false

theorem exists_error_of_not_isFinal {outcome : Except CutoverError α} (h : ¬ IsFinal outcome) :
    ∃ e, outcome = .error e ∧ e.isRetryable = true := by
  cases outcome with
  | ok a => exact absurd trivial h
  | error e => exact ⟨e, rfl, Bool.not_eq_false _ ▸ h⟩

/-- Asks for an attempt. -/
def askAttempt : Dialogue (Trial α) (Except CutoverError α) := .request (I := Trial α) .attempt

/-- Asks for a wait. -/
def askWait (d : Duration) : Dialogue (Trial α) Unit := .request (I := Trial α) (.wait d)

/-- Asks for chance. -/
def askChance : Dialogue (Trial α) ℕ := .request (I := Trial α) .chance

/-- The outcomes of attempts and the draws of chance come from streams; what is asked is written
down. -/
def streamed (o : ℕ → Except CutoverError α) (chance : ℕ → ℕ) :
    (r : Interface.Request (Trial α)) → List Trial.Request → (Trial α).Reply r × List Trial.Request
  | .attempt, asked => (o (asked.count .attempt), asked ++ [.attempt])
  | .wait d, asked => ((), asked ++ [.wait d])
  | .chance, asked => (chance (asked.count .chance), asked ++ [.chance])

section
variable (r : Retry) (o : ℕ → Except CutoverError α) (chance : ℕ → ℕ)

/-- Attempts from a number on, with what has been asked before. -/
def runFrom (left attempt : ℕ) (asked : List Trial.Request) : Outcome α × List Trial.Request :=
  (r.attemptsFrom askWait askChance askAttempt left attempt).runWith (streamed o chance) asked

/-- How repeated attempts end, and what has been asked. -/
def run : Outcome α × List Trial.Request := r.runFrom o chance r.maxRetries 0 []

/-- What is asked between an attempt and the next one. -/
def between (k : ℕ) : List Trial.Request :=
  match r.delay? k with
  | none => []
  | some d => if r.jitter then [.chance, .wait (jittered d (chance k))] else [.wait d]

/-- What is asked before an attempt. -/
def before (k : ℕ) : List Trial.Request :=
  (List.range k).flatMap fun j => .attempt :: r.between chance j

end

variable {r : Retry} {o : ℕ → Except CutoverError α} {chance : ℕ → ℕ} {k : ℕ}

theorem before_succ :
    r.before chance (k + 1) = r.before chance k ++ .attempt :: r.between chance k := by
  rw [before, List.range_succ, List.flatMap_append, List.flatMap_singleton]
  rfl

/-- As many attempts are made before one as its number says. -/
theorem count_attempt_before : (r.before chance k).count .attempt = k := by
  induction k with
  | zero => rfl
  | succ k ih =>
    have hbetween : (r.between chance k).count .attempt = 0 := by
      unfold between
      split
      · rfl
      · split <;> rfl
    rw [before_succ, List.count_append, ih, List.count_cons_self, hbetween]

/-- So it is with the draws of chance, if there are any. -/
theorem count_chance_before (hjitter : r.jitter = true) (hspan : ∀ j < k, r.delay? j ≠ none) :
    (r.before chance k).count .chance = k := by
  induction k with
  | zero => rfl
  | succ k ih =>
    obtain ⟨d, hd⟩ := Option.ne_none_iff_exists'.mp (hspan k (Nat.lt_succ_self k))
    have hbetween : (r.between chance k).count .chance = 1 := by
      simp only [between, hd, hjitter, if_true]
      rfl
    rw [before_succ, List.count_append, ih fun j hj => hspan j (Nat.lt_succ_of_lt hj),
      List.count_cons_of_ne (by simp), hbetween]

section
variable {left : ℕ}

/-- An attempt gets the outcome of its number. -/
theorem runWith_askAttempt_bind {β : Type} (f : Except CutoverError α → Dialogue (Trial α) β) :
    (askAttempt >>= f).runWith (streamed o chance) (r.before chance k) =
      (f (o k)).runWith (streamed o chance) (r.before chance k ++ [.attempt]) := by
  show (f (o ((r.before chance k).count .attempt))).runWith _ _ = _
  rw [count_attempt_before]

/-- An attempt with a final outcome is the last one, and so is one after which no other is
allowed. -/
theorem runFrom_final (h : left = 0 ∨ IsFinal (o k)) :
    r.runFrom o chance left k (r.before chance k) =
    (.finished (o k), r.before chance k ++ [.attempt]) := by
  cases left with
  | zero =>
    rw [runFrom, attemptsFrom, runWith_askAttempt_bind]
    cases o k with
    | ok a => rfl
    | error e => cases he : e.isRetryable <;> simp only [he] <;> rfl
  | succ left =>
    have hfinal := h.resolve_left left.succ_ne_zero
    rw [runFrom, attemptsFrom, runWith_askAttempt_bind]
    cases ho : o k with
    | ok a => rfl
    | error e =>
      rw [ho] at hfinal
      have he : e.isRetryable = false := hfinal
      simp only [he]
      rfl

/-- After an attempt that is worth another one comes the next, if the wait is a span. -/
theorem runFrom_succ {e : CutoverError} {d : Duration} (ho : o k = .error e)
    (he : e.isRetryable = true) (hspan : ∀ j < k, r.delay? j ≠ none) (hd : r.delay? k = some d) :
    r.runFrom o chance (left + 1) k (r.before chance k) =
      r.runFrom o chance left (k + 1) (r.before chance (k + 1)) := by
  rw [runFrom, attemptsFrom, runWith_askAttempt_bind, before_succ]
  simp only [ho, he, hd, Bool.not_true, Bool.false_eq_true, if_false, between, actualDelay]
  cases hjitter : r.jitter with
  | false =>
    have hasked : r.before chance k ++ [.attempt, .wait d] =
        r.before chance k ++ [.attempt] ++ [.wait d] := by
      rw [List.append_assoc]
      rfl
    simp only [Bool.false_eq_true, if_false]
    rw [hasked]
    rfl
  | true =>
    have hdraw : chance k =
        chance ((r.before chance k ++ [Trial.Request.attempt]).count Trial.Request.chance) := by
      rw [List.count_append, count_chance_before hjitter hspan]
      rfl
    have hasked : r.before chance k ++ [.attempt, .chance, .wait (jittered d (chance k))] =
        r.before chance k ++ [.attempt] ++ [.chance] ++ [.wait (jittered d (chance k))] := by
      rw [List.append_assoc, List.append_assoc]
      rfl
    simp only [if_true]
    rw [hasked, hdraw]
    rfl

/-- If it is none, there is no next attempt. -/
theorem runFrom_none {e : CutoverError} (ho : o k = .error e) (he : e.isRetryable = true)
    (hd : r.delay? k = none) :
    r.runFrom o chance (left + 1) k (r.before chance k) =
      (.unboundedWait, r.before chance k ++ [.attempt]) := by
  rw [runFrom, attemptsFrom, runWith_askAttempt_bind]
  simp only [ho, he, hd, Bool.not_true, Bool.false_eq_true, if_false]
  rfl

end

/-- **A run goes on** as long as the outcomes admit of another attempt and the waits are spans of
time. -/
theorem run_eq (hk : k ≤ r.maxRetries) (ho : ∀ j < k, ¬ IsFinal (o j))
    (hspan : ∀ j < k, r.delay? j ≠ none) :
    r.run o chance = r.runFrom o chance (r.maxRetries - k) k (r.before chance k) := by
  induction k with
  | zero => rfl
  | succ k ih =>
    rw [ih (by omega) (fun j hj => ho j (by omega)) fun j hj => hspan j (by omega)]
    obtain ⟨e, he, hretry⟩ := exists_error_of_not_isFinal (ho k (by omega))
    obtain ⟨d, hd⟩ := Option.ne_none_iff_exists'.mp (hspan k (by omega))
    have hleft : r.maxRetries - k = r.maxRetries - (k + 1) + 1 := by omega
    rw [hleft, runFrom_succ he hretry (fun j hj => hspan j (by omega)) hd]

/-- **A run ends** with the first final outcome, or with the last attempt that is allowed. -/
theorem run_of_isLeast {n : ℕ} (hn : IsLeast {k | k = r.maxRetries ∨ IsFinal (o k)} n)
    (hspan : ∀ k < n, r.delay? k ≠ none) :
    r.run o chance = (.finished (o n), r.before chance n ++ [.attempt]) := by
  have hbefore : ∀ k < n, ¬ IsFinal (o k) :=
    fun k hk hfinal => absurd (hn.2 (.inr hfinal)) (not_le.mpr hk)
  rw [run_eq (hn.2 (.inl rfl)) hbefore hspan]
  exact runFrom_final (hn.1.imp_left fun h => by omega)

/-- **A run is cut off** at the first wait that is no span. -/
theorem run_of_unbounded {n : ℕ} (hn : n < r.maxRetries) (ho : ∀ k ≤ n, ¬ IsFinal (o k))
    (hspan : ∀ k < n, r.delay? k ≠ none) (hnone : r.delay? n = none) :
    r.run o chance = (.unboundedWait, r.before chance n ++ [.attempt]) := by
  have hleft : r.maxRetries - n = r.maxRetries - n - 1 + 1 := by omega
  obtain ⟨e, he, hretry⟩ := exists_error_of_not_isFinal (ho n le_rfl)
  rw [run_eq hn.le (fun k hk => ho k hk.le) hspan, hleft, runFrom_none he hretry hnone]

/-- Without jitter there is nothing between two attempts but the wait. -/
theorem before_of_plain (hjitter : r.jitter = false) {n : ℕ} {waits : ℕ → Duration}
    (hwaits : ∀ k < n, r.delay? k = some (waits k)) :
    r.before chance n = (List.range n).flatMap fun k => [.attempt, .wait (waits k)] := by
  refine List.flatMap_congr fun k hk => ?_
  simp only [between, hwaits k (List.mem_range.mp hk), hjitter, Bool.false_eq_true, if_false]

/-- **Attempts are made as they should be.**  Let `n` be the number of repetitions that are allowed,
or of the first outcome that is a success or an error not worth another attempt, whichever is less.
Then, as long as the waits are spans of time, `n + 1` attempts are made and the outcome of the last
one is returned.  Before the next attempt comes a wait: the base in seconds times a power of the
multiplier in doubles, rounded to whole nanoseconds, and at most the cap.  Waits do not become
shorter if the multiplier is at least one.  If it is a whole number and the cap at most `2 ^ 49`
nanoseconds, nothing is lost by the doubles. -/
theorem attempts_are_exact (r : Retry) (hjitter : r.jitter = false) (o : ℕ → Except CutoverError α)
    (chance : ℕ → ℕ) {n : ℕ} (hn : IsLeast {k | k = r.maxRetries ∨ IsFinal (o k)} n)
    (hspan : ∀ k < n, r.delay? k ≠ none) :
    (∃ waits : ℕ → Duration,
      r.run o chance =
        (.finished (o n), ((List.range n).flatMap fun k => [.attempt, .wait (waits k)]) ++
          [.attempt]) ∧
      (∀ k < n, k < 2 ^ 31 →
        ∃ m, IsNearest ((r.base.seconds * r.multiplier.pow k).value * 10 ^ 9) m ∧
          (waits k).nanoseconds = min r.cap.nanoseconds m) ∧
      (∀ k < n, (waits k).nanoseconds ≤ r.cap.nanoseconds) ∧
      (r.multiplier.isNaN = false → 1 ≤ r.multiplier.value →
        ∀ j k, j ≤ k → k < n → k < 2 ^ 31 → (waits j).nanoseconds ≤ (waits k).nanoseconds) ∧
      (∀ m, 0 < m → r.multiplier = ofNat m → r.base.nanoseconds < 2 ^ 64 * 10 ^ 9 →
        r.cap.nanoseconds ≤ 2 ^ 49 → ∀ k < n, k < 2 ^ 31 →
          (waits k).nanoseconds = min r.cap.nanoseconds (r.base.nanoseconds * m ^ k))) ∧
    ∀ e : CutoverError, e.isRetryable = true ↔
      (∃ text, e = .store (.database (.io text))) ∨ e = .store (.database .poolTimedOut) ∨
        e = .store (.database .workerCrashed) ∨ (∃ text, e = .store (.unavailable text)) ∨
        ∃ text, e = .channel (.transport text) := by
  refine ⟨⟨fun k => (r.delay? k).getD r.cap, ?_⟩, CutoverError.isRetryable_iff⟩
  have hwaits : ∀ k < n, r.delay? k = some ((r.delay? k).getD r.cap) := by
    intro k hk
    obtain ⟨d, hd⟩ := Option.ne_none_iff_exists'.mp (hspan k hk)
    rw [hd, Option.getD_some]
  refine ⟨?_, fun k hk hword => ?_, fun k hk => delay?_le_cap (hwaits k hk),
    fun hnum hone j k hjk hk hword => ?_, fun m hm hmultiplier hbase hcap k hk hword => ?_⟩
  · rw [run_of_isLeast hn hspan, before_of_plain hjitter hwaits]
  · exact (delay?_eq_some hword (hwaits k hk)).2
  · exact delay?_mono hnum hone hjk hword (hwaits j (hjk.trans_lt hk)) (hwaits k hk)
  · exact delay?_exact hmultiplier hm hbase hcap hword (hwaits k hk)

/-- Attempts without jitter, with the usual waits. -/
def plain : Retry := { jitter := false }

/-- Two errors that are worth another attempt, and then successes. -/
def recovering (k : ℕ) : Except CutoverError ℕ :=
  if k < 2 then .error (.store (.unavailable "down")) else .ok k

theorem attempts_are_exact_sample :
    (plain.jitter = false ∧ IsLeast {k | k = plain.maxRetries ∨ IsFinal (recovering k)} 2 ∧
      ∀ k < 2, plain.delay? k ≠ none) ∧
    plain.run recovering (fun _ => 0) =
      (.finished (.ok 2), [.attempt, .wait (.ofMillis 200), .attempt, .wait (.ofMillis 400),
        .attempt]) := by
  have hspan : ∀ k < 2, plain.delay? k ≠ none := by decide +kernel
  have hleast : IsLeast {k | k = plain.maxRetries ∨ IsFinal (recovering k)} 2 := by
    refine ⟨.inr trivial, fun k hk => ?_⟩
    rcases hk with hk | hk
    · exact hk ▸ (by decide : 2 ≤ 3)
    · by_contra hless
      rw [recovering, if_pos (not_le.mp hless)] at hk
      cases hk
  obtain ⟨⟨waits, hrun, -, -, -, hexact⟩, -⟩ :=
    attempts_are_exact plain rfl recovering (fun _ => 0) hleast hspan
  have hdoubled := hexact 2 two_pos rfl (by decide) (by decide)
  have hfirst : waits 0 = .ofMillis 200 := congrArg Duration.mk (hdoubled 0 two_pos (by decide))
  have hsecond : waits 1 = .ofMillis 400 := congrArg Duration.mk (hdoubled 1 one_lt_two (by decide))
  refine ⟨⟨rfl, hleast, hspan⟩, hrun.trans ?_⟩
  rw [← hfirst, ← hsecond]
  rfl

/-- A wait of 97 days, which the cap does not cut. -/
def longWait : Retry where
  maxRetries := 1
  base := .ofMillis 8400000004
  cap := .ofMillis 20000000000
  jitter := false

/-- An error that is worth another attempt, each time. -/
def failing (_ : ℕ) : Except CutoverError ℕ := .error (.store (.unavailable "down"))

/-- **Doubles gain a nanosecond** where waits are long: the wait is not the base, though this is
below the cap. -/
theorem long_wait_is_not_exact :
    (longWait.jitter = false ∧ IsLeast {k | k = longWait.maxRetries ∨ IsFinal (failing k)} 1 ∧
      ∀ k < 1, longWait.delay? k ≠ none) ∧
    longWait.run failing (fun _ => 0) =
      (.finished (failing 1), [.attempt, .wait ⟨8400000004000001⟩, .attempt]) ∧
    longWait.multiplier = ofNat 2 ∧
    min longWait.cap.nanoseconds (longWait.base.nanoseconds * 2 ^ 0) = 8400000004000000 := by
  have hwait : ∀ k < 1, longWait.delay? k = some ⟨8400000004000001⟩ := by decide +kernel
  have hspan : ∀ k < 1, longWait.delay? k ≠ none := fun k hk => by simp [hwait k hk]
  have hleast : IsLeast {k | k = longWait.maxRetries ∨ IsFinal (failing k)} 1 := by
    refine ⟨.inl rfl, fun k hk => ?_⟩
    rcases hk with hk | hk
    · exact hk.ge
    · cases hk
  refine ⟨⟨rfl, hleast, hspan⟩, ?_, rfl, by decide⟩
  rw [run_of_isLeast hleast hspan, before_of_plain rfl hwait]
  rfl

end Retry
end Cutover
