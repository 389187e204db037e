import Cutover.Proofs.Consumer.History
import Mathlib.Data.Set.Card
import Mathlib.Order.Interval.Finset.Nat

/-! # The order of the consumer

A `Station` is a topic, the consumer of a group that is at work on it, if any, and the history of
the group so far.  Its steps (`Station.Step`) are those of the consumer and those of everyone else:
others publish, close the topic and commit in groups of their own; a consumer joins when none is at
work; each of its requests is answered in any way the topic, the clock and the stores may answer it;
and a consumer that has stopped or is gone makes room for the next.  What the stores answer is not
restricted at all, and a stop may come whenever a consumer looks for a message or rests.

The invariant (`Station.Sound`) is about the front of the group, that is the least place it has not
committed.  The places in front of it are the commits, in order, and every deed has its reason.  A
consumer is either between two messages, at the front, and everything it counted is in the deeds of
its run (`Phase.settled`), or it handles the message at the front, and the exchanges since it took
the message lead to where it stands (`Phase.handling`).  No message is ever taken but the one at the
front: that is what a hand-back is for.
-/

namespace Cutover

open Dialogue Consumer

/-- A topic, the consumer of a group that is at work on it, and what the group has done. -/
structure Station where
  topic : Topic
  work : Option (Subscriber × Dialogue Consuming Turn)
  history : List Deed

namespace Station

/-- How a request of a consumer may be answered, what this does to the topic and to the consumer's
place, and what it is as a deed. -/
inductive Answers : Topic → Subscriber → (r : Consuming.Request) → Consuming.Reply r →
    Topic → Subscriber → Deed → Prop where
  | message {t : Topic} {sub sub' : Subscriber} {m : Message} : sub.poll t = (.message m, sub') →
      Answers t sub .poll (Consuming.Received.message m) t sub' (.received m)
  | closed {t : Topic} {sub sub' : Subscriber} : sub.poll t = (.closed, sub') →
      Answers t sub .poll (Consuming.Received.failed .closed) t sub' .sawEnd
  | stopped (t : Topic) (sub : Subscriber) :
      Answers t sub .poll Consuming.Received.stopped t sub .idled
  | failed (t : Topic) (sub : Subscriber) {e : ChannelError} : e ≠ .closed →
      Answers t sub .poll (Consuming.Received.failed e) t sub .idled
  | commit (t : Topic) (sub : Subscriber) (m : Message) :
      Answers t sub (.commit m) (Except.ok ()) (t.commit sub.group m.offset) sub (.committed m)
  | seek (t : Topic) (sub : Subscriber) (k : Nat) :
      Answers t sub (.seek k) (Except.ok ()) t (sub.seek k) (.handedBack k)
  | rest (t : Topic) (sub : Subscriber) (d : Duration) (rested : Bool) :
      Answers t sub (.rest d) rested t sub .idled
  | work (t : Topic) (sub : Subscriber) (r : Work.Request) (reply : Work.Reply r) :
      Answers t sub (.work r) reply t sub (.worked ⟨r, reply⟩)

section
variable (c : Consumer) (group : String)

/-- A step: of another, or of the consumer of the group. -/
inductive Step : Station → Station → Prop where
  | published {t t' : Topic} {p : Event.Payload} {k : Nat}
      {work : Option (Subscriber × Dialogue Consuming Turn)} {h : List Deed} :
      t.publish p = .ok (k, t') → Step ⟨t, work, h⟩ ⟨t', work, h⟩
  | closed (t : Topic) (work : Option (Subscriber × Dialogue Consuming Turn)) (h : List Deed) :
      Step ⟨t, work, h⟩ ⟨t.close, work, h⟩
  | elsewhere (t : Topic) (work : Option (Subscriber × Dialogue Consuming Turn)) (h : List Deed)
      {other : String} (k : Nat) : other ≠ group →
      Step ⟨t, work, h⟩ ⟨t.commit other k, work, h⟩
  | began (t : Topic) (h : List Deed) :
      Step ⟨t, none, h⟩
        ⟨t, some (Subscriber.join t group, c.turn {}),
          h ++ [.began (Subscriber.join t group).position]⟩
  | answered {t t' : Topic} {sub sub' : Subscriber} {r : Consuming.Request}
      {next : Consuming.Reply r → Dialogue Consuming Turn} {reply : Consuming.Reply r} {d : Deed}
      (h : List Deed) : Answers t sub r reply t' sub' d →
      Step ⟨t, some (sub, .ask r next), h⟩ ⟨t', some (sub', next reply), h ++ [d]⟩
  | again (t : Topic) (sub : Subscriber) (tally : FixTally) (h : List Deed) :
      Step ⟨t, some (sub, .done (.again tally)), h⟩ ⟨t, some (sub, c.turn tally), h⟩
  | ended (t : Topic) (sub : Subscriber) (tally : FixTally) (h : List Deed) :
      Step ⟨t, some (sub, .done (.stopped tally)), h⟩ ⟨t, none, h ++ [.ended tally]⟩
  | lost (t : Topic) (sub : Subscriber) (h : List Deed) :
      Step ⟨t, some (sub, .done .crashed), h⟩ ⟨t, none, h ++ [.lost]⟩

/-- A run: any number of steps. -/
abbrev Reaches : Station → Station → Prop := Relation.ReflTransGen (Step c group)

/-- A topic before a consumer of the group has joined. -/
def start (t : Topic) : Station := ⟨t, none, []⟩

/-- Where a consumer stands between two messages: before its next look, resting, or at the end of a
turn. -/
inductive AtRest (t : FixTally) : Dialogue Consuming Turn → Prop where
  | looking : AtRest t (c.turn t)
  | resting (d : Duration) : AtRest t (restThen d t)
  | again : AtRest t (.done (.again t))
  | stopped : AtRest t (.done (.stopped t))

/-- What is left of a handling, asked through the interface of the consumer. -/
abbrev atWork (d : Dialogue Work (Retry.Outcome FixOutcome)) :
    Dialogue Consuming (Retry.Outcome FixOutcome) :=
  d.interpret fun w => askConsuming (.work w)

/-- Where the consumer of the group is, and what of the history belongs to it; `n` is the front of
the group. -/
inductive Phase (t : Topic) (h : List Deed) (n : Nat) :
    Option (Subscriber × Dialogue Consuming Turn) → Prop where
  /-- No consumer is at work. -/
  | out : ResolvedUpTo c h n → Phase t h n none
  /-- It is between two messages. -/
  | settled {tally : FixTally} {talk : Dialogue Consuming Turn} : AtRest c tally talk →
      Counts tally (Deed.run h) → ResolvedUpTo c h n → Phase t h n (some (⟨group, n⟩, talk))
  /-- It handles the message at the front. -/
  | handling {h₀ : List Deed} {m : Message} {es : List (Exchange Work)}
      {d : Dialogue Work (Retry.Outcome FixOutcome)} {tally : FixTally}
      {talk : Dialogue Consuming Turn} :
      h = h₀ ++ .received m :: es.map .worked → m.offset = n → t.log[n]? = some m.payload →
      Leads (c.handle m.payload) es d → talk = (atWork d >>= c.settle m tally) →
      Counts tally (Deed.run h) → ResolvedUpTo c h₀ n → Phase t h n (some (⟨group, n + 1⟩, talk))

/-- The invariant of a station. -/
structure Sound (s : Station) (n : Nat) : Prop where
  /-- Nothing is committed ahead of the front. -/
  front : s.topic.group group = ⟨n, []⟩
  /-- The front is not behind the end of the log. -/
  within : n ≤ s.topic.size
  /-- The commits are the places in front of it, in order. -/
  commits : Deed.commits s.history = List.range n
  vouched : Vouched c s.topic s.history
  phase : Phase c group s.topic s.history n s.work

end

/-! ## Turns of the loop -/

section
variable {c : Consumer}

/-- What follows a handling that is over: a commit if the message is resolved, and otherwise a
hand-back, unless the consumer is gone. -/
theorem settle_cases {m : Message} {es : List (Exchange Work)} {o : Retry.Outcome FixOutcome}
    (hl : Leads (c.handle m.payload) es (.done o)) (tally : FixTally) :
    (c.Resolves m.payload es ∧ ∃ tally' : FixTally, c.settle m tally o = commitThen m tally' ∧
        tally'.upserted + tally'.deleted + tally'.skipped =
          tally.upserted + tally.deleted + tally.skipped + 1 ∧ tally'.failed = tally.failed) ∨
      (¬ c.Resolves m.payload es ∧
        (c.settle m tally o = c.handBack m tally.fail ∨ c.settle m tally o = .done .crashed)) := by
  rcases outcome_cases hl with
    ⟨hr, ⟨outcome, rfl⟩ | ⟨e, rfl, he⟩⟩ | ⟨hr, ⟨e, rfl, he⟩ | rfl⟩
  · refine .inl ⟨hr, tally.fix outcome, rfl, ?_, by cases outcome <;> rfl⟩
    cases outcome <;> simp only [FixTally.fix] <;> omega
  · refine .inl ⟨hr, tally.skip, by simp [settle, he], ?_, rfl⟩
    simp only [FixTally.skip]
    omega
  · exact .inr ⟨hr, .inl (by simp [settle, he])⟩
  · exact .inr ⟨hr, .inr rfl⟩

/-- In the middle of a handling the consumer is not between two messages. -/
theorem not_atRest_handling {m : Message} {d : Dialogue Work (Retry.Outcome FixOutcome)}
    {tally tally' : FixTally} {talk : Dialogue Consuming Turn} (hrest : AtRest c tally' talk) :
    talk ≠ (atWork d >>= c.settle m tally) := by
  rintro rfl
  generalize htalk : (atWork d >>= c.settle m tally) = talk at hrest
  cases d with
  | ask w next =>
    cases hrest <;> cases htalk
  | done o =>
    cases o with
    | unboundedWait => cases hrest <;> cases htalk
    | finished result =>
      cases result with
      | ok outcome => cases hrest <;> cases htalk
      | error e =>
        have hsettle : (atWork (.done (.finished (.error e))) >>= c.settle m tally) =
            if e.isPoison then commitThen m tally.skip else c.handBack m tally.fail := rfl
        rw [hsettle] at htalk
        split at htalk
        · cases hrest <;> cases htalk
        · cases hrest <;> cases htalk

end

/-! ## Steps of the consumer -/

section
variable {c : Consumer} {group : String} {t : Topic} {h : List Deed} {n : Nat}

/-- A deed that commits nothing leaves the front alone. -/
theorem Sound.snoc {work work' : Option (Subscriber × Dialogue Consuming Turn)} {d : Deed}
    (hs : Sound c group ⟨t, work, h⟩ n) (hp : d.place? = none) (hd : Warranted c t h d)
    (hphase : Phase c group t (h ++ [d]) n work') :
    Sound c group ⟨t, work', h ++ [d]⟩ n where
  front := hs.front
  within := hs.within
  commits := by
    have hcommits : Deed.commits h = List.range n := hs.commits
    simp [hp, hcommits]
  vouched := hs.vouched.snoc hd
  phase := hphase

/-- A consumer looks for a message: it takes the one at the front, or stays between two messages. -/
theorem Sound.looked {tally : FixTally} {reply : Consuming.Received} {t' : Topic}
    {sub' : Subscriber} {d : Deed} {talk : Dialogue Consuming Turn}
    (hs : Sound c group ⟨t, some (⟨group, n⟩, talk), h⟩ n) (hcounts : Counts tally (Deed.run h))
    (hres : ResolvedUpTo c h n) (ha : Answers t ⟨group, n⟩ .poll reply t' sub' d)
    {next : Consuming.Received → Dialogue Consuming Turn} (hnext : c.turn tally = .ask .poll next) :
    Sound c group ⟨t', some (sub', next reply), h ++ [d]⟩ n := by
  cases hnext
  cases ha with
  | @message _ m hpoll =>
    obtain ⟨hm, hlog, rfl⟩ := Subscriber.poll_eq_message.mp hpoll
    have hlog' : t.log[m.offset]? = some m.payload := hm ▸ hlog
    have hcommits : Deed.commits h = List.range n := hs.commits
    refine hs.snoc rfl ⟨hlog', ?_⟩ ?_
    · rw [hcommits, hm]
    · have hsplit : h ++ [Deed.received m] =
          h ++ Deed.received m :: ([] : List (Exchange Work)).map Deed.worked := rfl
      exact .handling hsplit hm hlog (.nil _) rfl (hcounts.snoc rfl rfl rfl) hres
  | closed hpoll =>
    obtain ⟨hsize, hclosed, rfl⟩ := Subscriber.poll_eq_closed.mp hpoll
    have hn : n = t.size := Nat.le_antisymm hs.within hsize
    refine hs.snoc rfl ⟨hclosed, ?_⟩ ?_
    · rw [← hn]
      exact hs.commits
    · exact .settled .stopped (hcounts.snoc rfl rfl rfl) (hres.snoc (by simp) (by simp))
  | stopped =>
    exact hs.snoc rfl trivial
      (.settled .stopped (hcounts.snoc rfl rfl rfl) (hres.snoc (by simp) (by simp)))
  | @failed e he =>
    refine hs.snoc rfl trivial
      (.settled ?_ (hcounts.snoc rfl rfl rfl) (hres.snoc (by simp) (by simp)))
    cases e with
    | closed => exact absurd rfl he
    | _ => exact .resting pollBackoff

/-- A message that its handling has resolved is committed, and the front moves over it. -/
theorem Sound.committed {h₀ : List Deed} {m : Message} {es : List (Exchange Work)}
    {o : Retry.Outcome FixOutcome} {tally tally' : FixTally} {talk : Dialogue Consuming Turn}
    (hs : Sound c group
      ⟨t, some (⟨group, n + 1⟩, talk), h₀ ++ .received m :: es.map .worked⟩ n)
    (hm : m.offset = n) (hlog : t.log[n]? = some m.payload)
    (hl : Leads (c.handle m.payload) es (.done o)) (hres : ResolvedUpTo c h₀ n)
    (hcounts : Counts tally (Deed.run (h₀ ++ .received m :: es.map .worked)))
    (hresolves : c.Resolves m.payload es)
    (hmore : tally'.upserted + tally'.deleted + tally'.skipped =
      tally.upserted + tally.deleted + tally.skipped + 1) (hfailed : tally'.failed = tally.failed) :
    Sound c group ⟨t.commit group m.offset, some (⟨group, n + 1⟩, .done (.again tally')),
      h₀ ++ .received m :: es.map .worked ++ [.committed m]⟩ (n + 1) where
  front := by
    have hfront : t.group group = ⟨n, []⟩ := hs.front
    rw [Topic.group_commit_self, hfront, hm, Group.commit_front]
  within := by
    obtain ⟨hlt, -⟩ := Array.getElem?_eq_some_iff.mp hlog
    exact hlt
  commits := by
    have hcommits : Deed.commits (h₀ ++ .received m :: es.map .worked) = List.range n := hs.commits
    rw [Deed.commits_append, hcommits, List.range_succ, ← hm]
    rfl
  vouched := by
    have hv : Vouched c t _ := hs.vouched
    have hv' : Vouched c (t.commit group m.offset) (h₀ ++ .received m :: es.map .worked) :=
      hv.mono (fun _ _ hp => hp) fun hc => ⟨hc, rfl⟩
    exact hv'.snoc ⟨h₀, es, rfl, hresolves⟩
  phase := by
    subst hm
    exact .settled .again (hcounts.commit hmore hfailed m)
      ((hres.resolved hl hresolves).snoc (by simp) (by simp))

/-- A message that its handling has not resolved is handed back, and the consumer is at the front
again. -/
theorem Sound.handedBack {h₀ : List Deed} {m : Message} {es : List (Exchange Work)}
    {o : Retry.Outcome FixOutcome} {tally : FixTally} {talk : Dialogue Consuming Turn}
    (hs : Sound c group
      ⟨t, some (⟨group, n + 1⟩, talk), h₀ ++ .received m :: es.map .worked⟩ n)
    (hm : m.offset = n) (hl : Leads (c.handle m.payload) es (.done o))
    (hres : ResolvedUpTo c h₀ n)
    (hcounts : Counts tally (Deed.run (h₀ ++ .received m :: es.map .worked)))
    (hunresolved : ¬ c.Resolves m.payload es) :
    Sound c group ⟨t, some (⟨group, m.offset⟩, restThen c.backoff tally.fail),
      h₀ ++ .received m :: es.map .worked ++ [.handedBack m.offset]⟩ n := by
  rw [hm]
  exact hs.snoc rfl trivial (.settled (.resting _) (hcounts.handBack n)
    ((hres.unresolved hl hunresolved).snoc (by simp) (by simp)))

/-- **Whatever answer a request gets, the invariant is kept**, and the front moves only by a
commit. -/
theorem Sound.answered {t' : Topic} {sub sub' : Subscriber} {r : Consuming.Request}
    {next : Consuming.Reply r → Dialogue Consuming Turn} {reply : Consuming.Reply r} {d : Deed}
    (hs : Sound c group ⟨t, some (sub, .ask r next), h⟩ n) (ha : Answers t sub r reply t' sub' d) :
    ∃ n', Sound c group ⟨t', some (sub', next reply), h ++ [d]⟩ n' := by
  have hphase : Phase c group t h n (some (sub, .ask r next)) := hs.phase
  generalize htalk : Dialogue.ask (I := Consuming) r next = talk at hphase
  cases hphase with
  | @settled tally _ hrest hcounts hres =>
    refine ⟨n, ?_⟩
    cases hrest with
    | looking =>
      cases htalk
      exact hs.looked hcounts hres ha rfl
    | resting d =>
      cases htalk
      cases ha with
      | rest =>
        have hrested : ∀ rested : Bool, AtRest c tally
            ((if rested then pure (.again tally) else pure (.stopped tally)) :
              Dialogue Consuming Turn) := by
          intro rested
          cases rested
          · exact .stopped
          · exact .again
        exact hs.snoc rfl trivial
          (.settled (hrested reply) (hcounts.snoc rfl rfl rfl) (hres.snoc (by simp) (by simp)))
    | again => cases htalk
    | stopped => cases htalk
  | @handling h₀ m es d tally _ hh hm hlog hl hsplit hcounts hres =>
    subst hh
    rw [hsplit] at htalk
    cases d with
    | ask w nextw =>
      -- one more exchange of the handling
      cases htalk
      cases ha with
      | work =>
        let e : Exchange Work := ⟨w, reply⟩
        have hh : h₀ ++ Deed.received m :: es.map Deed.worked ++ [Deed.worked e] =
            h₀ ++ Deed.received m :: (es ++ [e]).map Deed.worked := by simp
        exact ⟨n, hs.snoc rfl trivial
          (.handling hh hm hlog (hl.snoc reply) rfl (hcounts.snoc rfl rfl rfl) hres)⟩
    | done o =>
      have hover : (atWork (.done o) >>= c.settle m tally) = c.settle m tally o := rfl
      rw [hover] at htalk
      rcases settle_cases hl tally with
        ⟨hresolves, tally', hsettle, hmore, hfailed⟩ | ⟨hunresolved, hsettle | hsettle⟩
      · rw [hsettle] at htalk
        cases htalk
        cases ha
        exact ⟨n + 1, hs.committed hm hlog hl hres hcounts hresolves hmore hfailed⟩
      · rw [hsettle] at htalk
        cases htalk
        cases ha
        exact ⟨n, hs.handedBack hm hl hres hcounts hunresolved⟩
      · rw [hsettle] at htalk
        cases htalk

/-- A consumer that has nothing more to ask goes on, has stopped, or is gone. -/
theorem Sound.of_done {turn : Turn} {sub : Subscriber}
    (hs : Sound c group ⟨t, some (sub, .done turn), h⟩ n) :
    (turn = .crashed ∧ ResolvedUpTo c h n) ∨
      ∃ tally, sub = ⟨group, n⟩ ∧ Counts tally (Deed.run h) ∧ ResolvedUpTo c h n ∧
        (turn = .again tally ∨ turn = .stopped tally) := by
  have hphase : Phase c group t h n (some (sub, .done turn)) := hs.phase
  generalize htalk : Dialogue.done turn = talk at hphase
  cases hphase with
  | @settled tally _ hrest hcounts hres =>
    refine .inr ⟨tally, rfl, hcounts, hres, ?_⟩
    cases hrest with
    | looking => cases htalk
    | resting d => cases htalk
    | again => exact .inl (Dialogue.done.inj htalk)
    | stopped => exact .inr (Dialogue.done.inj htalk)
  | @handling h₀ m es d tally _ hh hm hlog hl hsplit hcounts hres =>
    rw [hsplit] at htalk
    cases d with
    | ask w next => cases htalk
    | done o =>
      have hover : (atWork (.done o) >>= c.settle m tally) = c.settle m tally o := rfl
      rw [hover] at htalk
      rcases settle_cases hl tally with
        ⟨-, tally', hsettle, -, -⟩ | ⟨hunresolved, hsettle | hsettle⟩
      · rw [hsettle] at htalk
        cases htalk
      · rw [hsettle] at htalk
        cases htalk
      · rw [hsettle] at htalk
        subst hh
        exact .inl ⟨Dialogue.done.inj htalk, hres.unresolved hl hunresolved⟩

/-- What others do to the topic: they leave the group alone, and a closed log does not grow. -/
theorem Sound.elsewhere {t' : Topic} {work : Option (Subscriber × Dialogue Consuming Turn)}
    (hs : Sound c group ⟨t, work, h⟩ n) (hgroup : t'.group group = t.group group)
    (hsize : t.size ≤ t'.size) (hlog : ∀ (k : Nat) p, t.log[k]? = some p → t'.log[k]? = some p)
    (hclosed : t.closed = true → t'.closed = true ∧ t'.size = t.size) :
    Sound c group ⟨t', work, h⟩ n where
  front := hgroup.trans hs.front
  within := Nat.le_trans hs.within hsize
  commits := hs.commits
  vouched := hs.vouched.mono hlog hclosed
  phase := by
    cases hs.phase with
    | out hres => exact .out hres
    | settled hrest hcounts hres => exact .settled hrest hcounts hres
    | handling hh hm hp hl hsplit hcounts hres =>
      exact .handling hh hm (hlog _ _ hp) hl hsplit hcounts hres

theorem sound_start (hfresh : t.group group = {}) : Sound c group (start t) 0 where
  front := hfresh
  within := Nat.zero_le _
  commits := rfl
  vouched := vouched_nil
  phase := .out resolvedUpTo_nil

/-- **Every step keeps the invariant.** -/
theorem Sound.step {s s' : Station} (hs : Sound c group s n) (hstep : Step c group s s') :
    ∃ n', Sound c group s' n' := by
  cases hstep with
  | @published t t' p k work h hpublish =>
    obtain ⟨hopen, -, rfl⟩ := Topic.publish_eq_ok.mp hpublish
    refine ⟨n, hs.elsewhere rfl ?_ ?_ ?_⟩
    · show t.log.size ≤ (t.log.push p).size
      simp
    · intro k q hq
      obtain ⟨hlt, rfl⟩ := Array.getElem?_eq_some_iff.mp hq
      exact Array.getElem?_push_lt hlt
    · intro hclosed
      rw [hopen] at hclosed
      cases hclosed
  | closed t work h =>
    exact ⟨n, hs.elsewhere rfl (Nat.le_refl _) (fun _ _ hp => hp) fun _ => ⟨rfl, rfl⟩⟩
  | elsewhere t work h k hne =>
    exact ⟨n, hs.elsewhere (t.group_commit_of_ne hne k) (Nat.le_refl _) (fun _ _ hp => hp)
      fun hc => ⟨hc, rfl⟩⟩
  | began t h =>
    have hfront : t.group group = ⟨n, []⟩ := hs.front
    have hjoin : Subscriber.join t group = ⟨group, n⟩ := by
      simp [Subscriber.join, Topic.committed, hfront]
    cases hs.phase with
    | out hres =>
      rw [hjoin]
      refine ⟨n, hs.snoc rfl ⟨hs.commits, hres⟩ ?_⟩
      refine .settled .looking ?_ (hres.snoc (by simp) (by simp))
      rw [Deed.run_snoc]
      exact ⟨rfl, rfl⟩
  | answered h ha => exact hs.answered ha
  | again t sub tally h =>
    rcases hs.of_done with ⟨hturn, -⟩ | ⟨tally', rfl, hcounts, hres, hturn | hturn⟩
    · cases hturn
    · cases hturn
      exact ⟨n, hs.front, hs.within, hs.commits, hs.vouched, .settled .looking hcounts hres⟩
    · cases hturn
  | ended t sub tally h =>
    rcases hs.of_done with ⟨hturn, -⟩ | ⟨tally', rfl, hcounts, hres, hturn | hturn⟩
    · cases hturn
    · cases hturn
    · cases hturn
      exact ⟨n, hs.snoc rfl hcounts (.out (hres.snoc (by simp) (by simp)))⟩
  | lost t sub h =>
    rcases hs.of_done with ⟨-, hres⟩ | ⟨tally', -, -, -, hturn | hturn⟩
    · exact ⟨n, hs.snoc rfl trivial (.out (hres.snoc (by simp) (by simp)))⟩
    · cases hturn
    · cases hturn

/-- The invariant holds in every run. -/
theorem sound_reaches {s s' : Station} (hs : Sound c group s n) (hrun : Reaches c group s s') :
    ∃ n', Sound c group s' n' := by
  induction hrun with
  | refl => exact ⟨n, hs⟩
  | tail _ hstep ih =>
    obtain ⟨k, hk⟩ := ih
    exact hk.step hstep

end

/-! ## In order, and at least once -/

section
variable (c : Consumer) (group : String)

/-- No message is being handled: there is no consumer, or it is between two messages. -/
def BetweenMessages (s : Station) : Prop :=
  ∀ sub talk, s.work = some (sub, talk) → ∃ tally, AtRest c tally talk

/-- What a consumer that keeps the order does. -/
structure InOrder (s : Station) : Prop where
  /-- Every deed has its reason in the deeds before it. -/
  vouched : Vouched c s.topic s.history
  /-- Every place in front of what is committed has been committed, one after the other and once. -/
  commits : Deed.commits s.history = List.range (s.topic.committed group)
  /-- Between two messages, the messages that have been resolved since the start of the log are
  those in front of what is committed. -/
  resolved : BetweenMessages c s → ResolvedUpTo c s.history (s.topic.committed group)
  /-- So what is committed is the number of those messages. -/
  count : BetweenMessages c s →
    {k | ResolvedIn c s.history k}.ncard = s.topic.committed group
  /-- The first message that a consumer takes is the first that has not been resolved. -/
  restart : ∀ before p during m after,
    s.history = before ++ .began p :: (during ++ .received m :: after) →
      (∀ m', Deed.received m' ∉ during) → m.offset = p ∧ ResolvedUpTo c before m.offset
  /-- When a consumer has seen the end of a closed topic, everything is committed. -/
  drained : Deed.sawEnd ∈ s.history →
    s.topic.closed = true ∧ s.topic.committed group = s.topic.size

variable {c group}

theorem Sound.inOrder {s : Station} {n : Nat} (hs : Sound c group s n) : InOrder c group s := by
  have hcommitted : s.topic.committed group = n := by
    rw [Topic.committed, hs.front]
  have hresolved : BetweenMessages c s → ResolvedUpTo c s.history n := by
    intro hbetween
    generalize hwork : s.work = work at *
    cases hwork ▸ hs.phase with
    | out hres => exact hres
    | settled _ _ hres => exact hres
    | handling _ _ _ _ hsplit =>
      obtain ⟨tally, hrest⟩ := hbetween _ _ hwork
      exact absurd hsplit (not_atRest_handling hrest)
  refine ⟨hs.vouched, hcommitted ▸ hs.commits, hcommitted ▸ hresolved, ?_, ?_, ?_⟩
  · intro hbetween
    have hset : {k | ResolvedIn c s.history k} = ↑(Finset.range n) := by
      ext k
      simpa using hresolved hbetween k
    rw [hset, Set.ncard_coe_finset, Finset.card_range, hcommitted]
  · intro before p during m after hsplit hnone
    have hv : Vouched c s.topic (before ++ .began p :: (during ++ .received m :: after)) :=
      hsplit ▸ hs.vouched
    exact hv.first_taken hnone
  · intro hmem
    obtain ⟨before, after, hsplit⟩ := List.append_of_mem hmem
    obtain ⟨hclosed, hend⟩ := hs.vouched before .sawEnd after hsplit
    refine ⟨hclosed, hcommitted ▸ Nat.le_antisymm hs.within ?_⟩
    -- what was committed then is committed now
    have hall := hs.commits
    rw [hsplit, Deed.commits_append, hend] at hall
    have hlength := congrArg List.length hall
    simp only [List.length_append, List.length_range] at hlength
    omega

/-- **Whatever happens to the topic, the stores and the consumers of a group that come one after the
other, the group takes its messages in order, each until it is resolved.** -/
theorem consumers_keep_order {t : Topic} {s : Station} (hfresh : t.group group = {})
    (hrun : Reaches c group (start t) s) : InOrder c group s := by
  obtain ⟨n, hs⟩ := sound_reaches (sound_start hfresh) hrun
  exact hs.inOrder

end

/-! ## Moves

A run can be given as a list of moves, which say what is published and how the stores answer; a look
and a step between two turns then follow from the station itself.
-/

/-- What happens next to a station. -/
inductive Move where
  | publish (p : Event.Payload)
  | close
  /-- The consumer of the group goes on, or one joins.  Its stores and its clock answer in this way,
  and it may be told to stop. -/
  | goOn (reply : (r : Work.Request) → Work.Reply r) (stop : Bool)

section
variable (c : Consumer) (group : String) (s : Station)

/-- The consumer looks for a message; without one it stops if it is told to, and waits otherwise. -/
def look (sub : Subscriber) (next : Consuming.Received → Dialogue Consuming Turn) (stop : Bool) :
    Station :=
  if stop then ⟨s.topic, some (sub, next .stopped), s.history ++ [.idled]⟩
  else
    match sub.poll s.topic with
    | (.message m, sub') => ⟨s.topic, some (sub', next (.message m)), s.history ++ [.received m]⟩
    | (.closed, sub') => ⟨s.topic, some (sub', next (.failed .closed)), s.history ++ [.sawEnd]⟩
    | (.waiting, _) => s

/-- The consumer of the group goes on, or one joins. -/
def goOn (reply : (r : Work.Request) → Work.Reply r) (stop : Bool) : Station :=
  match s.work with
  | none =>
    let sub := Subscriber.join s.topic group
    ⟨s.topic, some (sub, c.turn {}), s.history ++ [.began sub.position]⟩
  | some (sub, .done (.again tally)) => ⟨s.topic, some (sub, c.turn tally), s.history⟩
  | some (_, .done (.stopped tally)) => ⟨s.topic, none, s.history ++ [.ended tally]⟩
  | some (_, .done .crashed) => ⟨s.topic, none, s.history ++ [.lost]⟩
  | some (sub, .ask .poll next) => s.look sub next stop
  | some (sub, .ask (.commit m) next) =>
    ⟨s.topic.commit sub.group m.offset, some (sub, next (.ok ())), s.history ++ [.committed m]⟩
  | some (sub, .ask (.seek k) next) =>
    ⟨s.topic, some (sub.seek k, next (.ok ())), s.history ++ [.handedBack k]⟩
  | some (sub, .ask (.rest _) next) => ⟨s.topic, some (sub, next !stop), s.history ++ [.idled]⟩
  | some (sub, .ask (.work r) next) =>
    ⟨s.topic, some (sub, next (reply r)), s.history ++ [.worked ⟨r, reply r⟩]⟩

/-- The station after a move. -/
def move (s : Station) : Move → Station
  | .publish p =>
    match s.topic.publish p with
    | .ok (_, t) => ⟨t, s.work, s.history⟩
    | .error _ => s
  | .close => ⟨s.topic.close, s.work, s.history⟩
  | .goOn reply stop => s.goOn c group reply stop

theorem reaches_look {t : Topic} {h : List Deed} {sub : Subscriber}
    (next : Consuming.Received → Dialogue Consuming Turn) (stop : Bool) :
    Reaches c group ⟨t, some (sub, .ask .poll next), h⟩
      (look ⟨t, some (sub, .ask .poll next), h⟩ sub next stop) := by
  unfold look
  split
  · exact .single (.answered h (.stopped t sub))
  · split
    · rename_i m sub' hpoll
      exact .single (.answered h (.message hpoll))
    · rename_i sub' hpoll
      exact .single (.answered h (.closed hpoll))
    · exact .refl

theorem reaches_goOn (reply : (r : Work.Request) → Work.Reply r) (stop : Bool) :
    Reaches c group s (s.goOn c group reply stop) := by
  obtain ⟨t, work, h⟩ := s
  match work with
  | none => exact .single (.began t h)
  | some (sub, .done turn) =>
    cases turn with
    | again tally => exact .single (.again t sub tally h)
    | stopped tally => exact .single (.ended t sub tally h)
    | crashed => exact .single (.lost t sub h)
  | some (sub, .ask r next) =>
    cases r with
    | poll => exact reaches_look c group next stop
    | commit m => exact .single (.answered h (.commit t sub m))
    | seek k => exact .single (.answered h (.seek t sub k))
    | rest d => exact .single (.answered h (.rest t sub d !stop))
    | work r => exact .single (.answered h (.work t sub r (reply r)))

theorem reaches_move (m : Move) : Reaches c group s (s.move c group m) := by
  cases m with
  | publish p =>
    dsimp only [move]
    split
    · rename_i k t hpublish
      exact .single (.published hpublish)
    · exact .refl
  | close => exact .single (.closed s.topic s.work s.history)
  | goOn reply stop => exact reaches_goOn c group s reply stop

/-- Any list of moves makes a run. -/
theorem reaches_moves (ms : List Move) : Reaches c group s (ms.foldl (move c group) s) := by
  induction ms generalizing s with
  | nil => exact .refl
  | cons m ms ih => exact (reaches_move c group s m).trans (ih (s.move c group m))

end

/-- A fixer from one store to the other. -/
def sampleFixer (base target : Side) : Fixer where
  base := .store base
  target := .store target
  table := .items
  dialect := .mysql
  columns := ["id", "name", "utime"]

/-- A consumer that tries a repair twice. -/
def sampleConsumer : Consumer :=
  ⟨sampleFixer .src .dst, sampleFixer .dst .src, { maxRetries := 1 }, .ofSeconds 1⟩

/-- How stores answer that cannot be reached. -/
def outOfReach : (r : Work.Request) → Work.Reply r
  | .call _ _ => Except.error (.unavailable "gone")
  | .phase => Phase.srcOnly
  | .pause _ => ()
  | .chance => (0 : Nat)

/-- How stores answer of which the base lacks the row that is asked for. -/
def withoutRow : (r : Work.Request) → Work.Reply r
  | .call _ (.queryRow _) => Except.ok none
  | .call _ (.exec _) => Except.ok (1 : Nat)
  | r => outOfReach r

/-- A row of the source is gone. -/
def goneRow : Event := ⟨7, .baseMissing, .src⟩

/-- A topic whose first payload is no event. -/
def sampleTopic : Topic := ⟨"events", #[[]], [], false⟩

/-- A first consumer passes over that payload, cannot repair a row that is found meanwhile, hands
its message back and is stopped; the next one repairs the row and sees the end of the topic. -/
def sampleMoves : List Move :=
  List.replicate 4 (.goOn outOfReach false) ++
  .publish goneRow.toPayload :: List.replicate 6 (.goOn outOfReach false) ++
  [.goOn outOfReach true, .goOn outOfReach false, .close] ++
  List.replicate 8 (.goOn withoutRow false)

def sampleStation : Station :=
  sampleMoves.foldl (move sampleConsumer "fix") (start sampleTopic)

/-- Two consumers, one hand-back between two commits, and the end of the topic: both messages are
resolved, and nothing else. -/
theorem consumers_keep_order_sample :
    (sampleTopic.group "fix" = {} ∧
      Reaches sampleConsumer "fix" (start sampleTopic) sampleStation) ∧
    InOrder sampleConsumer "fix" sampleStation ∧
    (sampleStation.history.countP Deed.isBegin = 2 ∧ Deed.handBacks sampleStation.history = 1 ∧
      Deed.commits sampleStation.history = [0, 1] ∧ sampleStation.topic.closed = true) ∧
    {k | ResolvedIn sampleConsumer sampleStation.history k}.ncard = 2 := by
  have hrun : Reaches sampleConsumer "fix" (start sampleTopic) sampleStation :=
    reaches_moves sampleConsumer "fix" (start sampleTopic) sampleMoves
  have horder := consumers_keep_order rfl hrun
  have hbetween : BetweenMessages sampleConsumer sampleStation := by
    intro sub talk hwork
    have hnone : sampleStation.work.isNone = true := by decide +kernel
    rw [hwork] at hnone
    cases hnone
  have hcommitted : sampleStation.topic.committed "fix" = 2 := by decide +kernel
  refine ⟨⟨rfl, hrun⟩, horder, ⟨?_, ?_, ?_, ?_⟩, hcommitted ▸ horder.count hbetween⟩
  all_goals decide +kernel

end Station
end Cutover
