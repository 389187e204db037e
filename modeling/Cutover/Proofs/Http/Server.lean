import Cutover.Proofs.Http.Incremental
import Cutover.Proofs.Json.Writing
import Cutover.Proofs.Scheduler.Replacement

/-! # The application in service

The operator's requests arrive while validations are at work.  Every request is a command to the
scheduler or changes nothing (`Application.respond_obeys`), so whatever holds between commands holds
between requests (`Server.Reaches.sound`).  A request to start an incremental validation is granted
or refused as a whole: either exactly one run takes the place of the stored one (`Server.Replaced`),
or the application is what it was.
-/

namespace Cutover

namespace Supervision

variable {v : Supervision}

/-- The scheduler has become another; the runs that it has started are at their beginning. -/
def takes (v : Supervision) (s : Scheduler) : Supervision where
  scheduler := s
  work := v.work ++ (s.plans.drop v.work.length).map fun p =>
    ⟨v.scheduler.phase, (Validating.start p ()).scanner⟩
  published := v.published

theorem Sound.takes_self (h : v.Sound) : v.takes v.scheduler = v := by
  have hnone : v.scheduler.plans.drop v.work.length = [] := by
    rw [h.phases.length, List.drop_length]
  rw [takes, hnone, List.map_nil, List.append_nil]

/-- A command publishes nothing. -/
theorem published_obey (v : Supervision) (o : Operation) : (v.obey o).published = v.published := rfl

end Supervision

namespace Http

open Json

/-! ## Answers -/

/-- The answer has this status, and its body is an object of a code and a message, with this
code. -/
def Response.Tells (response : Response) (status : Nat) (code : Int64) : Prop :=
  response.status = status ∧ ∃ es message, ObjectText (textBytes response.body) es [] ∧
    es.map (·.name) = ["code", "msg"] ∧ Once es "code" IntegerText code ∧
    Once es "msg" StringText message

/-- What is written for a code and a message tells them. -/
theorem Response.tells_json (status : Nat) (code : Int64) (message : String) :
    (Response.json status ("\x7b" ++ outcomeMembers code message ++ "\x7d")).Tells status code := by
  have hcodeName : "\"code\":" = quote "code" ++ ":" := by decide +kernel
  have hmessageName : ",\"msg\":" = "," ++ quote "msg" ++ ":" := by decide +kernel
  have htext : textBytes ("\x7b" ++ outcomeMembers code message ++ "\x7d") =
      0x7B :: (textBytes (quote "code") ++ 0x3A :: (textBytes (Text.ofInt64 code) ++
        0x2C :: (textBytes (quote "msg") ++ 0x3A :: (textBytes (quote message) ++ [0x7D])))) := by
    simp only [outcomeMembers, hcodeName, hmessageName, textBytes_append, textBytes_openBrace,
      textBytes_closeBrace, textBytes_colon, textBytes_comma]
    simp
  refine ⟨rfl, ?_⟩
  show ∃ es message', ObjectText (textBytes ("\x7b" ++ outcomeMembers code message ++ "\x7d"))
    es [] ∧ _
  rw [htext]
  exact ⟨_, message, ⟨_, .nil _, .first (stringText_quote "code" _) (.nil _)
    (.next (.nil _) (stringText_quote "msg" _) (.nil _) (.close (.nil _)))⟩, rfl,
    ⟨_, rfl, integerText_ofInt64 code _⟩, ⟨_, rfl, stringText_quote message _⟩⟩

/-! ## Requests and commands -/

/-- What a route does is a command, or nothing. -/
theorem Application.perform_obeys (a : Application) (time : String) (r : Request) (route : Route) :
    (a.perform time r route).2 = a.scheduler ∨ ∃ o, (a.perform time r route).2 =
      a.scheduler.obey o := by
  cases route with
  | health | status => exact .inl rfl
  | switch p => exact .inr ⟨.switchPhase p, rfl⟩
  | fullStart => exact .inr ⟨.startFull, rfl⟩
  | fullStop => exact .inr ⟨.stop .full, rfl⟩
  | incrementalStop => exact .inr ⟨.stop .incremental, rfl⟩
  | incrementalStart =>
    rw [Application.perform]
    split
    · exact .inr (startIncremental_obeys ‹_›)
    · exact .inl rfl

/-- **A request is a command, or changes nothing.** -/
theorem Application.respond_obeys (a : Application) (time : String) (r : Request) :
    (a.respond time r).2 = a.scheduler ∨ ∃ o, (a.respond time r).2 = a.scheduler.obey o := by
  rw [Application.respond]
  split
  · exact .inl rfl
  · split
    · exact a.perform_obeys time r _
    · exact .inl rfl

/-- A request that is sent to start an incremental validation reaches what does so. -/
theorem Application.respond_eq_of_isForStart (a : Application) (time : String) {r : Request}
    (hr : r.IsForStart) : a.respond time r = a.perform time r .incrementalStart := by
  have hmethod : Route.incrementalStart.methods.contains r.method = true := by
    rw [hr.method]
    decide
  have hhead : r.method ≠ "HEAD" := by
    rw [hr.method]
    decide
  simp only [Application.respond, hr.target, hmethod, if_true, if_neg hhead, Prod.mk.eta]

/-- The application: its scheduler with the runs at work, and its topic. -/
structure Server where
  supervision : Supervision
  topic : Topic

namespace Server

/-- What the operator controls. -/
def application (x : Server) : Application := ⟨x.supervision.scheduler, x.topic⟩

/-- Before the first request. -/
def start (workplace : Workplace) (phase : Phase) (topic : Topic) : Server :=
  ⟨.start workplace phase, topic⟩

/-- The answer to a request, and the application after it. -/
def answer (x : Server) (time : String) (r : Request) : Response × Server :=
  let (response, s) := x.application.respond time r
  (response, { x with supervision := x.supervision.takes s })

/-- A step: a request is answered, or the runs at work take a step while the topic changes in
whatever way. -/
inductive Step (stores : Supervision.Replies) : Server → Server → Prop where
  | answered (x : Server) (time : String) (r : Request) : Step stores x (x.answer time r).2
  | worked {x : Server} {v : Supervision} (topic : Topic) :
      Supervision.Step stores x.supervision v → Step stores x ⟨v, topic⟩

/-- Any number of steps. -/
abbrev Reaches (stores : Supervision.Replies) : Server → Server → Prop :=
  Relation.ReflTransGen (Step stores)

variable {stores : Supervision.Replies} {x y : Server}

/-- **Every step keeps the invariant of the supervision**, those that answer a request too. -/
theorem Step.sound (h : Step stores x y) (hx : x.supervision.Sound) : y.supervision.Sound := by
  cases h with
  | answered time r =>
    show (x.supervision.takes (x.application.respond time r).2).Sound
    obtain hsame | ⟨o, ho⟩ := x.application.respond_obeys time r
    · rw [hsame]
      exact hx.takes_self.symm ▸ hx
    · rw [ho]
      exact hx.obeyed o
  | worked topic hstep => exact hx.step hstep

theorem Reaches.sound (h : Reaches stores x y) (hx : x.supervision.Sound) :
    y.supervision.Sound := by
  induction h with
  | refl => exact hx
  | tail _ hstep ih => exact hstep.sound ih

/-! ## Starting an incremental validation -/

/-- A plan for the rows changed after a time, in the order of their changes, by which the store that
is authoritative now is the base. -/
structure Planned (s : Scheduler) (utime interval : Int64) (p : Plan) : Prop where
  table : p.table = s.workplace.table
  sort : p.sort = s.workplace.table.utimeColumn
  utimeAfter : p.utimeAfter = utime
  /-- The interval is in milliseconds. -/
  interval : (p.interval.nanoseconds : Int) = interval.toInt * 1000000
  base : p.base = s.phase.authoritative
  target : p.target = s.phase.authoritative.other
  direction : p.direction = s.phase.authoritative

/-- An incremental run at its beginning has taken the place of the stored one; the topic and what is
published on it are the same. -/
structure Replaced (x y : Server) (p : Plan) : Prop where
  scheduler : x.supervision.scheduler.Replaced y.supervision.scheduler .incremental p
  work : y.supervision.work =
    x.supervision.work ++ [⟨x.supervision.scheduler.phase, (Validating.start p ()).scanner⟩]
  published : y.supervision.published = x.supervision.published
  topic : y.topic = x.topic

section
variable {r : Request} {utime interval : Int64}

theorem planned_plan (s : Scheduler) (h : 0 < interval) : Planned s utime interval
    (s.plan s.workplace.table.utimeColumn utime (.ofMillis interval.toInt.toNat)) where
  table := rfl
  sort := rfl
  utimeAfter := rfl
  interval := by
    have hpos : 0 < interval.toInt := Int64.lt_iff_toInt_lt.mp h
    show ((interval.toInt.toNat * 1000000 : Nat) : Int) = _
    omega
  base := rfl
  target := rfl
  direction := rfl

/-- A request that asks for a validation is answered as granted, and is the operator's command. -/
theorem answer_of_asks (x : Server) (time : String) (hr : r.IsForStart)
    (h : r.Asks utime interval) :
    x.answer time r = (.ok,
      { x with supervision := x.supervision.obey (startOf utime interval) }) := by
  have hrespond : x.application.respond time r =
      (.ok, x.application.scheduler.obey (startOf utime interval)) := by
    simp only [Application.respond_eq_of_isForStart _ time hr, Application.perform,
      startIncremental_of_asks _ hr h]
  rw [answer, hrespond]
  rfl

/-- Any other request is answered as refused, and nothing has happened. -/
theorem answer_of_not_asks (hx : x.supervision.Sound) (time : String) (hr : r.IsForStart)
    (h : ∀ utime interval, ¬ r.Asks utime interval) :
    ∃ message, x.answer time r = (.badRequest message, x) := by
  obtain ⟨message, hrefused⟩ := startIncremental_of_not_asks x.application.scheduler hr h
  have hrespond : x.application.respond time r =
      (.badRequest message, x.application.scheduler) := by
    simp only [Application.respond_eq_of_isForStart _ time hr, Application.perform, hrefused]
  refine ⟨message, ?_⟩
  rw [answer, hrespond]
  exact congrArg (fun v => (Response.badRequest message, (⟨v, x.topic⟩ : Server))) hx.takes_self

/-- The command of a request replaces the stored run by one with its plan. -/
theorem replaced_obey (hx : x.supervision.Sound) (h : 0 < interval) :
    x.Replaced { x with supervision := x.supervision.obey (startOf utime interval) }
      (x.supervision.scheduler.plan x.supervision.scheduler.workplace.table.utimeColumn utime
        (.ofMillis interval.toInt.toNat)) := by
  have hlaunch : x.supervision.scheduler.obey (startOf utime interval) = _ :=
    Scheduler.obey_startIncremental _ _ _
  rw [isZero_ofMillis h, if_neg Bool.false_ne_true] at hlaunch
  constructor
  case scheduler =>
    show Scheduler.Replaced _ (x.supervision.scheduler.obey (startOf utime interval)) _ _
    rw [hlaunch]
    exact hx.scheduler.replaced .incremental _
  case work =>
    show x.supervision.work ++
      ((x.supervision.scheduler.obey (startOf utime interval)).plans.drop
        x.supervision.work.length).map _ = _
    rw [hlaunch, Scheduler.plans_launch, hx.phases.length, List.drop_left]
    rfl
  case published => exact x.supervision.published_obey _
  case topic => rfl

end

end Server

/-- **A request to start an incremental validation does all it asks for or nothing**, in every state
in which it can arrive: the runs at work have done whatever they could, and the operator has sent
whatever he liked.  It is granted exactly if its body is a cutoff that is not negative and an
interval that is positive.  Then one run with this cutoff and this interval, in the order of the
changes and from the side that is authoritative now, takes the place of the stored incremental run,
which alone is cancelled.  Otherwise the application is what it was. -/
theorem Server.incremental_start_is_all_or_nothing {stores : Supervision.Replies}
    {workplace : Workplace} {phase : Phase} {topic : Topic} {x : Server}
    (hx : Reaches stores (start workplace phase topic) x) (time : String) {r : Request}
    (hr : r.IsForStart) :
    ((x.answer time r).1.Tells 200 0 ↔ ∃ utime interval, r.Asks utime interval) ∧
    (∀ utime interval, r.Asks utime interval → ∃ p,
      Planned x.supervision.scheduler utime interval p ∧ x.Replaced (x.answer time r).2 p) ∧
    ((∀ utime interval, ¬ r.Asks utime interval) →
      (x.answer time r).1.Tells 400 5 ∧ (x.answer time r).2 = x) := by
  have hsound : x.supervision.Sound := hx.sound (Supervision.sound_start workplace phase)
  have hrefused : (∀ utime interval, ¬ r.Asks utime interval) →
      (x.answer time r).1.Tells 400 5 ∧ (x.answer time r).2 = x := by
    intro h
    obtain ⟨message, hanswer⟩ := answer_of_not_asks hsound time hr h
    rw [hanswer]
    exact ⟨Response.tells_json 400 5 message, rfl⟩
  refine ⟨⟨?_, ?_⟩, ?_, hrefused⟩
  · rintro ⟨hok, -⟩
    by_contra hnone
    simp only [not_exists] at hnone
    obtain ⟨⟨hbad, -⟩, -⟩ := hrefused hnone
    omega
  · rintro ⟨utime, interval, h⟩
    rw [answer_of_asks x time hr h]
    exact Response.tells_json 200 0 "OK"
  · intro utime interval h
    rw [answer_of_asks x time hr h]
    exact ⟨_, planned_plan _ h.interval, replaced_obey hsound h.interval⟩

/-- A request to start an incremental validation with this body. -/
def startRequest (body : String) : Request :=
  ⟨"POST", Route.path .incrementalStart, some "application/json", ascii body⟩

/-- A body whose cutoff is negative. -/
def negativeBody : String := "\x7b\"interval\": 20, \"utime\": -1\x7d"

/-- The second request finds the run of the first and replaces it; one with a negative cutoff is
refused and does nothing. -/
theorem Server.incremental_start_is_all_or_nothing_sample :
    ∃ x, Reaches (fun _ _ => True) (start Supervision.bench .srcOnly { name := "migrator" }) x ∧
      x.supervision.scheduler.incremental = some 0 ∧
      (∃ p, Planned x.supervision.scheduler 7 20 p ∧
        x.Replaced (x.answer "" (startRequest "[7, 20]")).2 p) ∧
      (x.answer "" (startRequest negativeBody)).1.Tells 400 5 ∧
      (x.answer "" (startRequest negativeBody)).2 = x := by
  have hpath : Route.ofTarget? (Route.path .incrementalStart) = some .incrementalStart := by
    decide +kernel
  have hjson : (some "application/json").any MediaType.isJson = true := by decide +kernel
  have hsent : ∀ body, (ascii body).length ≤ bodyLimit → (startRequest body).IsForStart :=
    fun _ hlength => ⟨rfl, hpath, hjson, hlength⟩
  have hx : Reaches (fun _ _ => True) (start Supervision.bench .srcOnly { name := "migrator" }) _ :=
    .single (.answered _ "" (startRequest "[0, 5]"))
  refine ⟨_, hx, by decide +kernel, ?_, ?_⟩
  · obtain ⟨-, hgranted, -⟩ :=
      incremental_start_is_all_or_nothing hx "" (hsent "[7, 20]" (by decide +kernel))
    exact hgranted 7 20 ⟨incrementalBody_eq_ok_iff.mp (by decide +kernel), by decide, by decide⟩
  · obtain ⟨-, -, hrefused⟩ :=
      incremental_start_is_all_or_nothing hx "" (hsent negativeBody (by decide +kernel))
    have hbody : IsStart (ascii negativeBody) (-1) 20 :=
      incrementalBody_eq_ok_iff.mp (by decide +kernel)
    refine hrefused fun utime interval h => ?_
    have hutime := h.utime
    rw [(h.body.determined hbody).1] at hutime
    exact absurd hutime (by decide)

end Http
end Cutover
