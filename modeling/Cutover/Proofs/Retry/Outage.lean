import Cutover.Consumer
import Cutover.Settings
import Cutover.Proofs.Dialogue.Ensures
import Cutover.Proofs.Event.Codec
import Cutover.Proofs.Retry.Attempts

/-! # Outages

While the stores are down every attempt at a repair fails with an error that is worth another one.
The wait doubles each time, and it is computed before it is cut at the cap.  So the attempts are
used up, and the message is handed back, if every wait before the last attempt can be expressed;
otherwise there is a first one that cannot, and with it the consumer is gone
(`Retry.outage_is_outlasted_or_fatal`).
-/

namespace Cutover

open Dialogue Binary64 Rehearsal

namespace Retry

/-- A wait that does not exist before the last attempt is one that the doubled base cannot
express. -/
theorem exists_delay?_eq_none_iff {r : Retry} (hr : r.multiplier = ofNat 2) (n : ℕ) :
    (∃ k < n, r.delay? k = none) ↔ ∃ k < n, ¬ Expressible r.base k := by
  constructor
  · rintro ⟨k, hk, hnone⟩
    refine ⟨k, hk, fun hexpressible => ?_⟩
    have hsmall := hexpressible.1
    exact (delay?_eq_none_iff hr (by omega)).mp hnone hexpressible
  · rintro ⟨k, hk, hnot⟩
    -- no later than after 1024 attempts the wait is beyond the largest double
    by_cases hsmall : k < 1024
    · exact ⟨k, hk, (delay?_eq_none_iff hr (by omega)).mpr hnot⟩
    · exact ⟨1024, by omega, (delay?_eq_none_iff hr (by decide)).mpr fun h =>
        absurd h.1 (lt_irrefl _)⟩

section
variable {I : Interface} {σ α : Type} {gives : Surroundings I σ} {r : Retry}
  {wait : Duration → Dialogue I Unit}
  {chance : Dialogue I ℕ} {operation : Dialogue I (Except CutoverError α)}

/-- How attempts end that all fail with errors worth another attempt. -/
def Exhausts (r : Retry) (n : ℕ) (outcome : Outcome α) : Prop :=
  (∃ k < n, r.delay? k = none) ∧ outcome = .unboundedWait ∨
    (∀ k < n, r.delay? k ≠ none) ∧ ∃ e, outcome = .finished (.error e) ∧ e.isRetryable = true

/-- **What attempts come to that all fail.** -/
theorem ensures_attemptsFrom_of_failing
    (hop : ∀ s, operation.Ensures gives (fun result _ => ∃ e, result = .error e ∧
      e.isRetryable = true) s)
    {left attempt : ℕ} (hbefore : ∀ k < attempt, r.delay? k ≠ none) (s : σ) :
    (r.attemptsFrom wait chance operation left attempt).Ensures gives
      (fun outcome _ => r.Exhausts (attempt + left) outcome) s := by
  induction left generalizing attempt s with
  | zero =>
    rw [attemptsFrom]
    refine (hop s).bind ?_
    rintro _ s' ⟨e, rfl, he⟩
    simp only [he, Bool.not_true, Bool.false_eq_true, if_false]
    exact .inr ⟨hbefore, e, rfl, he⟩
  | succ left ih =>
    rw [attemptsFrom]
    refine (hop s).bind ?_
    rintro _ s' ⟨e, rfl, he⟩
    simp only [he, Bool.not_true, Bool.false_eq_true, if_false]
    cases hd : r.delay? attempt with
    | none => exact .inl ⟨⟨attempt, by omega, hd⟩, rfl⟩
    | some d =>
      have hkept : ∀ k < attempt + 1, r.delay? k ≠ none := by
        intro k hk
        rcases Nat.lt_succ_iff_lt_or_eq.mp hk with hk | rfl
        · exact hbefore k hk
        · simp [hd]
      refine (Ensures.of_forall (Q := fun _ _ => True) (fun _ _ => trivial) _ _).bind fun d' s₁ _ =>
        ?_
      refine (Ensures.of_forall (Q := fun _ _ => True) (fun _ _ => trivial) _ _).bind fun _ s₂ _ =>
        ?_
      have hnext := ih hkept s₂
      rwa [Nat.add_right_comm, Nat.add_assoc] at hnext

end
end Retry

/-! ## A consumer in an outage -/

/-- Every call of a store fails with an error that is worth another attempt. -/
def StoresDown : Surroundings Work Unit := fun _ r reply _ =>
  match r, reply with
  | .call _ _, reply => ∃ e, reply = .error e ∧ e.isRetryable = true
  | _, _ => True

/-- The next message is this one, and the stores are down. -/
def Outage (m : Message) : Surroundings Consuming Unit := fun s r reply s' =>
  match r, reply with
  | .poll, received => received = .message m
  | .work w, reply => StoresDown s w reply s'
  | _, _ => True

/-- A repair fails if the base cannot be read. -/
theorem Fixer.ensures_fix_down {f : Fixer} {side : Side} (hbase : f.base = .store side)
    (id : Int64) : (f.fix id).Ensures StoresDown
      (fun result _ => ∃ e, result = .error e ∧ e.isRetryable = true) () := by
  rw [fix, hbase]
  rintro reply _ ⟨e, rfl, he⟩
  exact ⟨.store e, rfl, he⟩

namespace Consumer

variable {c : Consumer} {m : Message} {event : Event}

/-- A consumer that has handled a message goes on or stops. -/
theorem ensures_settle_finished {gives : Surroundings Consuming Unit} (t : FixTally)
    (result : Except CutoverError FixOutcome) :
    (c.settle m t (.finished result)).Ensures gives (fun turn _ => turn ≠ .crashed) () := by
  have hcommit : ∀ t, (commitThen m t).Ensures gives (fun turn _ => turn ≠ .crashed) () :=
    fun t _ _ _ => nofun
  cases result with
  | ok outcome => exact hcommit _
  | error e =>
    rw [settle]
    split
    · exact hcommit _
    · rintro reply _ - (rested : Bool) _ -
      cases rested <;> exact nofun

/-- **A consumer takes a message in an outage**: it hands the message back, or it is gone. -/
theorem ensures_turn_outage (hdecode : Event.decode m.payload = .ok event) {side : Side}
    (hbase : (c.fixer event.direction).base = .store side) (t : FixTally) :
    (c.turn t).Ensures (Outage m)
      (fun turn _ => turn = .crashed ↔ ∃ k < c.retry.maxRetries, c.retry.delay? k = none) () := by
  rw [turn]
  refine ensures_request_bind.mpr ?_
  rintro received _ hreceived
  obtain rfl : received = .message m := hreceived
  have hhandle : (c.handle m.payload).Ensures StoresDown
      (fun outcome _ => c.retry.Exhausts c.retry.maxRetries outcome) () := by
    rw [handle, hdecode]
    have hexhausts : (c.retry.work ((c.fixer event.direction).fix event.id)).Ensures StoresDown
        (fun outcome _ => c.retry.Exhausts (0 + c.retry.maxRetries) outcome) () :=
      Retry.ensures_attemptsFrom_of_failing
        (fun _ => (c.fixer event.direction).ensures_fix_down hbase event.id)
        (fun k hk => absurd hk (Nat.not_lt_zero k)) ()
    rwa [Nat.zero_add] at hexhausts
  have hasked : ((c.handle m.payload).interpret fun w => askConsuming (.work w)).Ensures (Outage m)
      (fun outcome _ => c.retry.Exhausts c.retry.maxRetries outcome) () := by
    refine (Ensures.interpret (R := fun _ _ => True) ?_ hhandle trivial).mono ?_
    · rintro w _ _ - reply s' hreply
      exact ⟨s', hreply, trivial⟩
    · rintro outcome _ ⟨-, houtcome, -⟩
      exact houtcome
  refine hasked.bind ?_
  rintro outcome _ (⟨hnone, rfl⟩ | ⟨hspan, e, rfl, he⟩)
  · exact iff_of_true rfl hnone
  · refine (ensures_settle_finished t _).mono fun turn _ hturn => iff_of_false hturn ?_
    rintro ⟨k, hk, hnone⟩
    exact hspan k hk hnone

end Consumer

namespace Retry

/-- **An outage is outlasted or fatal.**  With any settings, a wait is never longer than the cap.
When every attempt fails with an error that is worth another one, all attempts that are allowed are
made and the last error is returned, if the waits between them can be expressed: the base, doubled
as often as the number of the attempt says, is to lead neither beyond the largest double nor to
`2 ^ 64` seconds.  Otherwise the attempts are cut off at the first wait that cannot be, and a
consumer that takes a message while the stores are down is gone. -/
theorem outage_is_outlasted_or_fatal (s : Settings) (failure : ℕ → CutoverError)
    (hfailure : ∀ k, (failure k).isRetryable = true) (chance : ℕ → ℕ) :
    (∀ k d, s.retry.delay? k = some d → d.nanoseconds ≤ s.retry.cap.nanoseconds) ∧
      ((∀ k < s.maxRetries, Expressible s.retryDelay k) →
        s.retry.run (α := FixOutcome) (fun k => .error (failure k)) chance =
          (.finished (.error (failure s.maxRetries)),
            s.retry.before chance s.maxRetries ++ [.attempt])) ∧
      (∀ n < s.maxRetries, (∀ k < n, Expressible s.retryDelay k) → ¬ Expressible s.retryDelay n →
        s.retry.run (α := FixOutcome) (fun k => .error (failure k)) chance =
          (.unboundedWait, s.retry.before chance n ++ [.attempt])) ∧
      ∀ (c : Consumer) (m : Message) (event : Event) (side : Side) (t : FixTally),
      c.retry = s.retry →
        Event.decode m.payload = .ok event → (c.fixer event.direction).base = .store side →
        (c.turn t).Ensures (Outage m)
          (fun turn _ => turn = .crashed ↔ ∃ k < s.maxRetries, ¬ Expressible s.retryDelay k)
            () := by
  have hfails : ∀ k, ¬ IsFinal (.error (failure k) : Except CutoverError FixOutcome) :=
    fun k hfinal =>
    Bool.false_ne_true (Eq.symm hfinal |>.trans (hfailure k))
  have hspan : ∀ n, (∀ k < n, Expressible s.retryDelay k) → ∀ k < n, s.retry.delay? k ≠ none := by
    intro n hexpressible k hk hnone
    obtain ⟨j, hj, hnot⟩ := (exists_delay?_eq_none_iff (r := s.retry) rfl n).mp ⟨k, hk, hnone⟩
    exact hnot (hexpressible j hj)
  refine ⟨fun k d => delay?_le_cap, fun hexpressible => ?_, fun n hn hexpressible hnot => ?_, ?_⟩
  · have hleast : IsLeast {k | k = s.retry.maxRetries ∨
        IsFinal (.error (failure k) : Except CutoverError FixOutcome)} s.maxRetries :=
      ⟨.inl rfl, fun k hk => (hk.resolve_right (hfails k)).ge⟩
    exact run_of_isLeast hleast (hspan _ hexpressible)
  · have hsmall : n ≤ 1024 :=
      not_lt.mp fun hgreat => absurd (hexpressible 1024 hgreat).1 (lt_irrefl _)
    have hnone : s.retry.delay? n = none := (delay?_eq_none_iff rfl (by omega)).mpr hnot
    exact run_of_unbounded hn (fun k _ => hfails k) (hspan n hexpressible) hnone
  · intro c m event side t hretry hdecode hbase
    have hturn := Consumer.ensures_turn_outage hdecode hbase t
    rw [hretry] at hturn
    refine hturn.mono fun turn _ h => h.trans ?_
    exact exists_delay?_eq_none_iff (r := s.retry) rfl s.maxRetries

/-- The settings of two databases and a table, with the given number of repetitions. -/
def repeating (retries : String) : Lookup
  | "SRC_DATABASE_URL" => some "sqlite::memory:"
  | "DST_DATABASE_URL" => some "sqlite::memory:"
  | "MIGRATOR_TABLE" => some "items"
  | "FIX_MAX_RETRIES" => some retries
  | _ => none

theorem exists_settings_repeating (retries : String) {n : ℕ}
    (h : ((Settings.ofLookup (repeating retries)).map fun s => (s.maxRetries, s.retryDelay)) =
      .ok (n, .ofMillis 200)) :
    ∃ s, Settings.ofLookup (repeating retries) = .ok s ∧ s.maxRetries = n ∧
    s.retryDelay = .ofMillis 200 := by
  cases hs : Settings.ofLookup (repeating retries) with
  | error e =>
    rw [hs] at h
    cases h
  | ok s =>
    rw [hs] at h
    obtain ⟨hretries, hdelay⟩ := Prod.mk.inj (Except.ok.inj h)
    exact ⟨s, rfl, hretries, hdelay⟩

/-- A fifth of a second can be doubled sixty-six times. -/
theorem expressible_of_lt (k : ℕ) (hk : k < 67) : Expressible (.ofMillis 200) k := by
  have hspan : ∀ k < 67, ({} : Retry).delay? k ≠ none := by decide +kernel
  by_contra hnot
  exact hspan k hk ((delay?_eq_none_iff (r := {}) rfl (by omega)).mpr hnot)

/-- The stores are down. -/
def down : CutoverError := .store (.unavailable "down")

/-- A copy of items across the stores. -/
def copying (base target : Side) : Fixer :=
  ⟨.store base, .store target, .items, .sqlite, ["id", "name"]⟩

/-- A consumer of the events of items. -/
def patient (s : Settings) : Consumer where
  fromSrc := copying .src .dst
  fromDst := copying .dst .src
  retry := s.retry

/-- An event about the item `1`. -/
def reported : Event := ⟨1, .notEqual, .src⟩

/-- With one repetition less than is fatal, an outage is outlasted. -/
theorem outage_is_outlasted_or_fatal_sample :
    ∃ s, Settings.ofLookup (repeating "67") = .ok s ∧ (∀ _ : ℕ, down.isRetryable = true) ∧
      s.retry.run (α := FixOutcome) (fun _ => .error down) (fun _ => 0) =
        (.finished (.error down), s.retry.before (fun _ => 0) 67 ++ [.attempt]) ∧
      ((patient s).turn {}).Ensures (Outage ⟨0, reported.toPayload⟩)
        (fun turn _ => turn ≠ .crashed) () := by
  obtain ⟨s, hs, hretries, hdelay⟩ := exists_settings_repeating "67" (n := 67) (by decide +kernel)
  have hdown : ∀ _ : ℕ, down.isRetryable = true := fun _ => rfl
  obtain ⟨-, hrun, -, hturn⟩ := outage_is_outlasted_or_fatal s (fun _ => down) hdown fun _ => 0
  rw [hretries, hdelay] at hrun hturn
  refine ⟨s, hs, hdown, hrun expressible_of_lt, ?_⟩
  refine (hturn (patient s) ⟨0, reported.toPayload⟩ reported .src {} rfl reported.decode_toPayload
    rfl).mono ?_
  rintro turn _ hcrashed rfl
  obtain ⟨k, hk, hnot⟩ := hcrashed.mp rfl
  exact hnot (expressible_of_lt k hk)

/-- **The usual delay is fatal after 68 attempts**, though the settings are accepted and the cap is
ten seconds. -/
theorem usual_delay_is_fatal :
    ∃ s, Settings.ofLookup (repeating "68") = .ok s ∧ (∀ _ : ℕ, down.isRetryable = true) ∧
      s.retry.cap = .ofSeconds 10 ∧ 67 < s.maxRetries ∧ s.retry.delay? 67 = none ∧
      s.retry.run (α := FixOutcome) (fun _ => .error down) (fun _ => 0) =
        (.unboundedWait, s.retry.before (fun _ => 0) 67 ++ [.attempt]) := by
  obtain ⟨s, hs, hretries, hdelay⟩ := exists_settings_repeating "68" (n := 68) (by decide +kernel)
  have hretry : s.retry = { maxRetries := 68, base := .ofMillis 200 } := by
    rw [Settings.retry, hretries, hdelay]
  have hspan : ∀ k < 67, ({ maxRetries := 68, base := .ofMillis 200 } : Retry).delay? k ≠ none := by
    decide +kernel
  have hnone : ({ maxRetries := 68, base := .ofMillis 200 } : Retry).delay? 67 = none := by
    decide +kernel
  refine ⟨s, hs, fun _ => rfl, rfl, by omega, hretry ▸ hnone, ?_⟩
  rw [hretry]
  exact run_of_unbounded (by decide) (fun _ _ => nofun) hspan hnone

end Retry
end Cutover
