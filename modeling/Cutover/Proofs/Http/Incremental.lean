import Cutover.Http.Control
import Cutover.Proofs.Json.Record
import Cutover.Proofs.Scheduler.Commands

/-! # Requests to start an incremental validation

A body asks for a validation if it is an object with the members `utime` and `interval`, each a
number of 64 bits and given once, or an array of the two (`IsStart`).  A request is granted when
neither is out of range (`Request.Asks`), and then it is the operator's command with this cutoff and
this interval (`startIncremental_of_asks`); the scheduler's own check has nothing left to refuse.
-/

namespace Cutover.Http

open Json Reader

/-! ## The body -/

/-- A cutoff and an interval at the front of a text. -/
def StartText : Phrase (Int64 × Int64) := fun s (utime, interval) rest =>
  (∃ es, ObjectText s es rest ∧ Once es "utime" IntegerText utime ∧
    Once es "interval" IntegerText interval ∧ Others es ["utime", "interval"]) ∨
  ∃ s₁ s₂ s₃ s₄, Mark 0x5B s s₁ ∧ IntegerText s₁ utime s₂ ∧ Mark 0x2C s₂ s₃ ∧
    IntegerText s₃ interval s₄ ∧ Mark 0x5D s₄ rest

/-- The whole body is a cutoff and an interval. -/
def IsStart (body : List UInt8) (utime interval : Int64) : Prop :=
  ∃ rest, StartText body (utime, interval) rest ∧ Blanks rest []

/-- What one member does to a draft. -/
def IncrementalDraft.Step (e : Entry) (d d' : IncrementalDraft) : Prop :=
  if e.name = "utime" then Fills IntegerText d.utime (fun n => { d with utime := some n }) e d'
  else if e.name = "interval" then
    Fills IntegerText d.interval (fun n => { d with interval := some n }) e d'
  else Ignores d e d'

theorem follows_member : Follows IncrementalDraft.member IncrementalDraft.Step where
  length_le := by
    intro e d d' h
    rw [IncrementalDraft.Step] at h
    split at h
    · exact h.length_le accepts_int64
    split at h
    · exact h.length_le accepts_int64
    · exact h.length_le
  sound := by
    intro name d d' s rest h
    unfold IncrementalDraft.member at h
    split at h
    · exact fills_sound accepts_int64 h
    · exact fills_sound accepts_int64 h
    · rename_i hutime hinterval
      simp only [IncrementalDraft.Step, if_neg hutime, if_neg hinterval]
      exact ignores_sound h
  complete := by
    intro name d d' s value rest hcolon hstep hrest
    unfold IncrementalDraft.member
    split
    · exact Fills.reads accepts_int64 hcolon hstep hrest
    · exact Fills.reads accepts_int64 hcolon hstep hrest
    · rename_i hutime hinterval
      simp only [IncrementalDraft.Step, if_neg hutime, if_neg hinterval] at hstep
      exact hstep.reads hcolon hrest

/-- What the members of an object do to a draft. -/
theorem folds_step_iff {es : List Entry} {d d' : IncrementalDraft} :
    Folds IncrementalDraft.Step es d d' ↔ FieldOf IntegerText "utime" es d.utime d'.utime ∧
      FieldOf IntegerText "interval" es d.interval d'.interval ∧
      Others es ["utime", "interval"] := by
  induction es generalizing d with
  | nil =>
    simp only [folds_nil_iff, fieldOf_nil, others_nil, and_true]
    obtain ⟨utime, interval⟩ := d
    obtain ⟨utime', interval'⟩ := d'
    simp
  | cons e es ih =>
    simp only [folds_cons_iff, ih, IncrementalDraft.Step, Fills, Ignores, fieldOf_cons, others_cons]
    by_cases hutime : e.name = "utime"
    · simp only [hutime, if_true]
      grind
    by_cases hinterval : e.name = "interval"
    · simp only [hinterval, if_true]
      grind
    · grind

theorem finish_eq_some_iff {d : IncrementalDraft} {utime interval : Int64} :
    d.finish = some (utime, interval) ↔ d.utime = some utime ∧ d.interval = some interval := by
  obtain ⟨utime?, interval?⟩ := d
  cases utime? <;> cases interval? <;> simp [IncrementalDraft.finish, bind, Option.bind]

/-- A body is read exactly when it is a cutoff and an interval by the grammar. -/
theorem incrementalBody_eq_ok_iff {body : List UInt8} {utime interval : Int64} :
    incrementalBody body = .ok (utime, interval) ↔ IsStart body utime interval := by
  rw [incrementalBody, runOn_eq_ok_iff]
  refine exists_congr fun rest => and_congr_left fun _ => ?_
  refine (reads_record_iff (L := fun s (utime, interval) rest => ∃ s₁ s₂, IntegerText s utime s₁ ∧
    Mark 0x2C s₁ s₂ ∧ IntegerText s₂ interval rest) follows_member ?_ ?_).trans (or_congr ?_ ?_)
  · intro s rest h
    obtain ⟨utime', s₁, hutime, h⟩ := reads_bind_iff.mp h
    obtain ⟨interval', s₂, hinterval, hpure⟩ := reads_bind_iff.mp h
    obtain ⟨⟨⟩, rfl⟩ := reads_pure_iff.mp hpure
    obtain ⟨s₂, hcomma, hinterval⟩ := next_element_sound accepts_int64 hinterval
    exact ⟨s₁, s₂, element_sound accepts_int64 hutime, hcomma, hinterval⟩
  · rintro s rest ⟨s₁, s₂, hutime, hcomma, hinterval⟩ hrest
    exact (reads_element_of accepts_int64 hutime (hcomma.stops (by decide))).bind
      ((reads_next_element_of accepts_int64 hcomma hinterval hrest).bind (reads_pure _ _))
  · simp only [folds_step_iff, finish_eq_some_iff]
    constructor
    · rintro ⟨es, ⟨utime?, interval?⟩, hobject, ⟨hutime, hinterval, hothers⟩, rfl, rfl⟩
      exact ⟨es, hobject, fieldOf_none_iff.mp hutime, fieldOf_none_iff.mp hinterval, hothers⟩
    · rintro ⟨es, hobject, hutime, hinterval, hothers⟩
      exact ⟨es, ⟨some utime, some interval⟩, hobject, ⟨fieldOf_none_iff.mpr hutime,
        fieldOf_none_iff.mpr hinterval, hothers⟩, rfl, rfl⟩
  · constructor
    · rintro ⟨s₁, s₄, hopen, ⟨s₂, s₃, hutime, hcomma, hinterval⟩, hclose⟩
      exact ⟨s₁, s₂, s₃, s₄, hopen, hutime, hcomma, hinterval, hclose⟩
    · rintro ⟨s₁, s₂, s₃, s₄, hopen, hutime, hcomma, hinterval, hclose⟩
      exact ⟨s₁, s₄, hopen, ⟨s₂, s₃, hutime, hcomma, hinterval⟩, hclose⟩

/-- A body is one cutoff and one interval at most. -/
theorem IsStart.determined {body : List UInt8} {utime utime' interval interval' : Int64}
    (h : IsStart body utime interval) (h' : IsStart body utime' interval') :
    utime = utime' ∧ interval = interval' := by
  have heq := (incrementalBody_eq_ok_iff.mpr h).symm.trans (incrementalBody_eq_ok_iff.mpr h')
  simpa only [Except.ok.injEq, Prod.mk.injEq] using heq

/-! ## The request -/

/-- A request that is granted is a command, whatever has been sent. -/
theorem startIncremental_obeys {s s' : Scheduler} {r : Request}
    (h : startIncremental s r = .ok s') : ∃ o, s' = s.obey o := by
  rw [startIncremental] at h
  cases harguments : incrementalArguments r with
  | error f =>
    rw [harguments] at h
    cases h
  | ok x =>
    obtain ⟨utime, interval⟩ := x
    refine ⟨.startIncremental utime interval, ?_⟩
    cases hstart : s.startIncremental utime interval with
    | error e =>
      simp only [harguments, hstart] at h
      cases h
    | ok s₁ =>
      simp only [harguments, hstart] at h
      obtain rfl : s₁ = s' := Except.ok.inj h
      simp only [Scheduler.obey, hstart]

/-- A request that is sent to start an incremental validation: its method, its path, the type that
it declares and the length of its body are those of one. -/
structure Request.IsForStart (r : Request) : Prop where
  method : r.method = "POST"
  target : Route.ofTarget? r.target = some .incrementalStart
  json : r.mediaType.any MediaType.isJson = true
  length : r.body.length ≤ bodyLimit

/-- The body is a cutoff, which is not negative, and an interval, which is positive. -/
structure Request.Asks (r : Request) (utime interval : Int64) : Prop where
  body : IsStart r.body utime interval
  utime : 0 ≤ utime
  interval : 0 < interval

/-- The command that a cutoff and an interval in milliseconds stand for. -/
def startOf (utime interval : Int64) : Operation :=
  .startIncremental utime (.ofMillis interval.toInt.toNat)

section
variable {r : Request} {utime interval : Int64}

theorem isZero_ofMillis (h : 0 < interval) :
    (Duration.ofMillis interval.toInt.toNat).isZero = false := by
  have hpos : 0 < interval.toInt := Int64.lt_iff_toInt_lt.mp h
  simp only [Duration.isZero, Duration.ofMillis, beq_eq_false_iff_ne]
  omega

theorem incrementalArguments_of_asks (hr : r.IsForStart) (h : r.Asks utime interval) :
    incrementalArguments r = .ok (utime, .ofMillis interval.toInt.toNat) := by
  rw [incrementalArguments, hr.json, if_neg (by decide), if_neg (Nat.not_lt.mpr hr.length),
    incrementalBody_eq_ok_iff.mpr h.body]
  exact (if_neg (Int64.not_le.mpr h.interval)).trans (if_neg (Int64.not_lt.mpr h.utime))

/-- A request that asks for no validation is refused for its body or for one of the two numbers. -/
theorem incrementalArguments_of_not_asks (hr : r.IsForStart)
    (h : ∀ utime interval, ¬ r.Asks utime interval) : ∃ f, incrementalArguments r = .error f := by
  rw [incrementalArguments, hr.json, if_neg (by decide), if_neg (Nat.not_lt.mpr hr.length)]
  cases hbody : incrementalBody r.body with
  | error f => exact ⟨_, rfl⟩
  | ok x =>
    obtain ⟨utime, interval⟩ := x
    show ∃ f, (if interval ≤ 0 then _ else if utime < 0 then _ else _) = _
    by_cases hinterval : interval ≤ 0
    · exact ⟨_, if_pos hinterval⟩
    by_cases hutime : utime < 0
    · rw [if_neg hinterval, if_pos hutime]
      exact ⟨_, rfl⟩
    · exact absurd ⟨incrementalBody_eq_ok_iff.mp hbody, Int64.not_lt.mp hutime,
        Int64.not_le.mp hinterval⟩
        (h utime interval)

/-- With an interval that is not zero the scheduler has nothing to refuse. -/
theorem startIncremental_of_arguments (s : Scheduler) {d : Duration}
    (harguments : incrementalArguments r = .ok (utime, d)) (hzero : d.isZero = false) :
    startIncremental s r = .ok (s.obey (.startIncremental utime d)) := by
  have hstart : s.startIncremental utime d = .ok (s.obey (.startIncremental utime d)) := by
    rw [Scheduler.obey_startIncremental, Scheduler.startIncremental, hzero]
    rfl
  rw [startIncremental, harguments]
  simp only [hstart]

/-- **A request that asks for a validation is the operator's command.** -/
theorem startIncremental_of_asks (s : Scheduler) (hr : r.IsForStart) (h : r.Asks utime interval) :
    startIncremental s r = .ok (s.obey (startOf utime interval)) :=
  startIncremental_of_arguments s (incrementalArguments_of_asks hr h) (isZero_ofMillis h.interval)

theorem startIncremental_of_not_asks (s : Scheduler) (hr : r.IsForStart)
    (h : ∀ utime interval, ¬ r.Asks utime interval) :
    ∃ message, startIncremental s r = .error (.badRequest message) := by
  obtain ⟨f, hf⟩ := incrementalArguments_of_not_asks hr h
  exact ⟨f.message, by rw [startIncremental, hf]⟩

end

end Cutover.Http
