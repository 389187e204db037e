import Cutover.Proofs.History
import Cutover.Proofs.Topic.Commit
import Mathlib.Data.List.Induction
import Mathlib.Logic.Relation

/-! # The traffic on a topic

Any number of producers publish on a topic, consumers join it, look for messages, move about and
commit, and somebody may close it.  What happens is one sequence of dealings, in whatever order the
parties come (`Traffic.Step`): the topic is locked while something is published, looked for or
committed, and to move about, which takes no lock, touches only the consumer's own place, and what a
consumer does itself follows one thing after the other.  A consumer that waits is one whose looks
find nothing yet.  A dealing is noted together with what came of it.

The sequence alone says what everybody must have been told.  What was published before the topic was
closed is the log (`Dealing.accepted`); a consumer stands where it joined or where it last moved to,
plus one for each message it has been given since (`Dealing.Stands`); and every answer is the one
that the log and the place call for at that moment (`Dealing.Due`).  That the topic and its
consumers keep to this is `Traffic.topic_is_faithful`.
-/

namespace Cutover

open Event (Payload)

/-- What was done on a topic, by which consumer, and what came of it.  A consumer goes by the number
of those that joined before it. -/
inductive Dealing where
  | published (p : Payload) (answer : Except ChannelError Nat)
  | produced (e : Event) (answer : Except ChannelError Unit)
  | closed
  | joined (c : Nat) (s : Subscriber)
  | looked (c : Nat) (found : Polled)
  | sought (c : Nat) (offset : Nat)
  | committed (c : Nat) (group : String) (m : Message)

namespace Dealing

/-! ## What a sequence of dealings says -/

/-- The consumer whose dealing it was. -/
def consumer? : Dealing → Option Nat
  | .joined c _ | .looked c _ | .sought c _ | .committed c _ _ => some c
  | _ => none

/-- What somebody wanted to publish. -/
def payload? : Dealing → Option Payload
  | .published p _ => some p
  | .produced e _ => some e.toPayload
  | _ => none

/-- The place that was committed in a group. -/
def committed? (g : String) : Dealing → Option Nat
  | .committed _ group m => if group = g then some m.offset else none
  | _ => none

section
variable (c : Nat)

/-- Where it put a consumer. -/
def place? : Dealing → Option Nat
  | .joined b s => if b = c then some s.position else none
  | .sought b offset => if b = c then some offset else none
  | _ => none

/-- The message it gave to a consumer. -/
def message? : Dealing → Option Message
  | .looked b (.message m) => if b = c then some m else none
  | _ => none

/-- A consumer was put at `o`, and since then it was given the messages `ms`. -/
def Stands (h : List Dealing) (o : Nat) (ms : List Message) : Prop :=
  ∃ before d during, h = before ++ d :: during ∧ d.place? c = some o ∧
    (∀ x ∈ during, x.place? c = none) ∧ during.filterMap (message? c) = ms

end

/-- What was published before the topic was closed. -/
def accepted : List Dealing → List Payload
  | [] => []
  | .closed :: _ => []
  | d :: h => d.payload?.toList ++ accepted h

/-- What a look at a place must find. -/
def Finds (past : List Dealing) (place : Nat) : Polled → Prop
  | .message m => m.offset = place ∧ (accepted past)[place]? = some m.payload
  | .closed => .closed ∈ past ∧ (accepted past).length ≤ place
  | .waiting => .closed ∉ past ∧ (accepted past).length ≤ place

/-- What had to come of a dealing, after those before it. -/
def Due (past : List Dealing) : Dealing → Prop
  | .published _ answer =>
    (.closed ∈ past → answer = .error .closed) ∧
      (.closed ∉ past → answer = .ok (accepted past).length)
  | .produced _ answer =>
    (.closed ∈ past → answer = .error .closed) ∧ (.closed ∉ past → answer = .ok ())
  | .looked c found => ∃ o ms, Stands c past o ms ∧ Finds past (o + ms.length) found
  | .committed _ _ m => ∃ c, .looked c (.message m) ∈ past
  | _ => True

variable {h : List Dealing} {d : Dealing}

theorem accepted_snoc_of_closed (hc : .closed ∈ h) : accepted (h ++ [d]) = accepted h := by
  induction h with
  | nil => cases hc
  | cons x h ih =>
    cases x with
    | closed => rfl
    | published p answer | produced e answer | joined c s | looked c found | sought c o
    | committed c g m =>
      have hc : .closed ∈ h := by simpa using hc
      rw [List.cons_append, accepted, accepted, ih hc] <;> simp

theorem accepted_snoc_of_open (hc : .closed ∉ h) :
    accepted (h ++ [d]) = accepted h ++ d.payload?.toList := by
  induction h with
  | nil => cases d <;> simp [accepted, payload?]
  | cons x h ih =>
    rw [List.mem_cons, not_or] at hc
    obtain ⟨hx, hc⟩ := hc
    cases x with
    | closed => exact absurd rfl hx
    | published p answer | produced e answer | joined c s | looked c found | sought c o
    | committed c g m =>
      rw [List.cons_append, accepted, accepted, ih hc, List.append_assoc] <;> simp

/-- The log of a longer history goes on from that of a shorter one. -/
theorem prefix_accepted_append (h₁ h₂ : List Dealing) : accepted h₁ <+: accepted (h₁ ++ h₂) := by
  induction h₂ using List.reverseRecOn with
  | nil => simp
  | append_singleton h₂ d ih =>
    rw [← List.append_assoc]
    by_cases hc : .closed ∈ h₁ ++ h₂
    · rw [accepted_snoc_of_closed hc]
      exact ih
    · rw [accepted_snoc_of_open hc]
      exact ih.trans (List.prefix_append _ _)

theorem accepted_mono {h₁ : List Dealing} (h₂ : List Dealing) {k : Nat} {p : Payload}
    (hk : (accepted h₁)[k]? = some p) : (accepted (h₁ ++ h₂))[k]? = some p := by
  obtain ⟨hlt, rfl⟩ := List.getElem?_eq_some_iff.mp hk
  obtain ⟨rest, hrest⟩ := prefix_accepted_append h₁ h₂
  rw [← hrest, List.getElem?_append_left hlt, List.getElem?_eq_getElem hlt]

section
variable {c o : Nat} {ms : List Message}

/-- A dealing that puts a consumer somewhere starts its count anew. -/
theorem stands_snoc_of_place {o' : Nat} (hd : d.place? c = some o') :
    Stands c (h ++ [d]) o ms ↔ o = o' ∧ ms = [] := by
  constructor
  · rintro ⟨before, x, during, hsplit, hx, hlater, rfl⟩
    rcases snoc_eq_append_cons hsplit with ⟨rfl, rfl, rfl⟩ | ⟨during', rfl, -⟩
    · rw [hd] at hx
      cases hx
      exact ⟨rfl, rfl⟩
    · have hnone := hlater d (by simp)
      rw [hd] at hnone
      cases hnone
  · rintro ⟨rfl, rfl⟩
    exact ⟨h, d, [], rfl, hd, by simp, rfl⟩

/-- Any other dealing leaves a consumer where it was put, and gives it one message or none. -/
theorem stands_snoc_of_none (hd : d.place? c = none) :
    Stands c (h ++ [d]) o ms ↔ ∃ ms₀, Stands c h o ms₀ ∧ ms = ms₀ ++ (d.message? c).toList := by
  constructor
  · rintro ⟨before, x, during, hsplit, hx, hlater, rfl⟩
    rcases snoc_eq_append_cons hsplit with ⟨-, rfl, -⟩ | ⟨during', rfl, rfl⟩
    · rw [hd] at hx
      cases hx
    · refine ⟨_, ⟨before, x, during', rfl, hx, fun y hy => hlater y (by simp [hy]), rfl⟩, ?_⟩
      cases hm : d.message? c <;> simp [List.filterMap_append, hm]
  · rintro ⟨ms₀, ⟨before, x, during, rfl, hx, hlater, rfl⟩, rfl⟩
    refine ⟨before, x, during ++ [d], by simp, hx, ?_, ?_⟩
    · intro y hy
      rcases List.mem_append.mp hy with hy | hy
      · exact hlater y hy
      · rw [List.mem_singleton.mp hy]
        exact hd
    · cases hm : d.message? c <;> simp [List.filterMap_append, hm]

/-- A consumer stands at one place only, by induction on the history. -/
theorem Stands.unique {o' : Nat} {ms' : List Message} (hs : Stands c h o ms)
    (hs' : Stands c h o' ms') : o = o' ∧ ms = ms' := by
  induction h using List.reverseRecOn generalizing ms ms' with
  | nil =>
    obtain ⟨before, x, during, hsplit, -⟩ := hs
    simp at hsplit
  | append_singleton h d ih =>
    cases hd : d.place? c with
    | some place =>
      obtain ⟨rfl, rfl⟩ := (stands_snoc_of_place hd).mp hs
      obtain ⟨rfl, rfl⟩ := (stands_snoc_of_place hd).mp hs'
      exact ⟨rfl, rfl⟩
    | none =>
      obtain ⟨ms₀, hold, rfl⟩ := (stands_snoc_of_none hd).mp hs
      obtain ⟨ms₁, hold', rfl⟩ := (stands_snoc_of_none hd).mp hs'
      obtain ⟨rfl, rfl⟩ := ih hold hold'
      exact ⟨rfl, rfl⟩

theorem message?_eq_some {m : Message} :
    d.message? c = some m ↔ d = .looked c (.message m) := by
  constructor
  · intro hm
    unfold message? at hm
    split at hm
    · split at hm
      · rename_i hb
        cases hm
        rw [hb]
      · cases hm
    · cases hm
  · rintro rfl
    simp [message?]

end

/-! ## What follows when everybody was told what was due -/

/-- Every dealing had what was due after those before it. -/
def Honest (h : List Dealing) : Prop := ∀ past d after, h = past ++ d :: after → Due past d

theorem honest_nil : Honest [] := by
  intro past d after he
  simp at he

/-- One more dealing need only have what is due to it. -/
theorem honest_snoc : Honest (h ++ [d]) ↔ Honest h ∧ Due h d := by
  constructor
  · intro hh
    exact ⟨fun past x after he => hh past x (after ++ [d]) (by simp [he]), hh h d [] rfl⟩
  · rintro ⟨hh, hd⟩ past x after he
    rcases snoc_eq_append_cons he with ⟨rfl, rfl, rfl⟩ | ⟨after', rfl, hbefore⟩
    · exact hd
    · exact hh past x after' hbefore

theorem Honest.of_append {h₁ h₂ : List Dealing} (hh : Honest (h₁ ++ h₂)) : Honest h₁ :=
  fun past d after he => hh past d (after ++ h₂) (by simp [he])

/-- **The messages a consumer is given since it was put somewhere are those of the log from there
on**, one after the other, by induction on the history. -/
theorem Honest.delivered (hh : Honest h) {c o : Nat} {ms : List Message} (hs : Stands c h o ms)
    {k : Nat} {m : Message} (hk : ms[k]? = some m) :
    m.offset = o + k ∧ (accepted h)[o + k]? = some m.payload := by
  induction h using List.reverseRecOn generalizing ms with
  | nil =>
    obtain ⟨before, x, during, hsplit, -⟩ := hs
    simp at hsplit
  | append_singleton h d ih =>
    obtain ⟨hbefore, hdue⟩ := honest_snoc.mp hh
    cases hd : d.place? c with
    | some place =>
      obtain ⟨-, rfl⟩ := (stands_snoc_of_place hd).mp hs
      cases hk
    | none =>
      obtain ⟨ms₀, hold, rfl⟩ := (stands_snoc_of_none hd).mp hs
      by_cases hlt : k < ms₀.length
      · rw [List.getElem?_append_left hlt] at hk
        obtain ⟨hoffset, hlog⟩ := ih hbefore hold hk
        exact ⟨hoffset, accepted_mono [d] hlog⟩
      · -- the message is the one that the last dealing gave
        rw [List.getElem?_append_right (Nat.le_of_not_lt hlt)] at hk
        cases hm : d.message? c with
        | none => simp [hm] at hk
        | some m' =>
          rw [hm, Option.toList_some, List.getElem?_singleton] at hk
          split at hk
          · rename_i hfirst
            cases hk
            have hlast : k = ms₀.length := by omega
            obtain rfl := message?_eq_some.mp hm
            obtain ⟨o', ms', hs', hoffset, hlog⟩ := hdue
            obtain ⟨rfl, rfl⟩ := hold.unique hs'
            rw [hlast]
            exact ⟨hoffset, accepted_mono _ hlog⟩
          · cases hk

end Dealing

/-! ## The topic and its consumers -/

/-- A topic, the consumers that joined it so far, and what has been done. -/
structure Traffic where
  topic : Topic
  readers : List Subscriber
  history : List Dealing

namespace Traffic

open Dealing

/-- A topic on which nothing has been done. -/
def start (name : String) : Traffic := ⟨{ name }, [], []⟩

/-- A consumer joins a group, at the place that the group has not committed. -/
def join (v : Traffic) (group : String) : Traffic :=
  ⟨v.topic, v.readers ++ [.join v.topic group],
    v.history ++ [.joined v.readers.length (.join v.topic group)]⟩

/-- One dealing.  A consumer commits what somebody was given before, in its own group. -/
inductive Step (v : Traffic) : Traffic → Prop where
  | published {p : Payload} {k : Nat} {t : Topic} : v.topic.publish p = .ok (k, t) →
      Step v ⟨t, v.readers, v.history ++ [.published p (.ok k)]⟩
  | refused {p : Payload} {e : ChannelError} : v.topic.publish p = .error e →
      Step v ⟨v.topic, v.readers, v.history ++ [.published p (.error e)]⟩
  | produced {e : Event} {t : Topic} : v.topic.produce e = .ok t →
      Step v ⟨t, v.readers, v.history ++ [.produced e (.ok ())]⟩
  | turnedDown {e : Event} {f : ChannelError} : v.topic.produce e = .error f →
      Step v ⟨v.topic, v.readers, v.history ++ [.produced e (.error f)]⟩
  | closed : Step v ⟨v.topic.close, v.readers, v.history ++ [.closed]⟩
  | joined (group : String) : Step v (v.join group)
  | looked {c : Nat} {s s' : Subscriber} {found : Polled} : v.readers[c]? = some s →
      s.poll v.topic = (found, s') →
      Step v ⟨v.topic, v.readers.set c s', v.history ++ [.looked c found]⟩
  | sought {c : Nat} {s : Subscriber} (offset : Nat) : v.readers[c]? = some s →
      Step v ⟨v.topic, v.readers.set c (s.seek offset), v.history ++ [.sought c offset]⟩
  | committed {b c : Nat} {s : Subscriber} {m : Message} : v.readers[c]? = some s →
      .looked b (.message m) ∈ v.history →
      Step v ⟨v.topic.commit s.group m.offset, v.readers, v.history ++ [.committed c s.group m]⟩

/-- A run: any number of dealings. -/
abbrev Reaches : Traffic → Traffic → Prop := Relation.ReflTransGen Step

/-- What one dealing changes, and what it cannot change. -/
structure Adds (v : Traffic) (d : Dealing) (v' : Traffic) : Prop where
  history : v'.history = v.history ++ [d]
  log : v'.topic.log.toList =
    v.topic.log.toList ++ if v.topic.closed = true then [] else d.payload?.toList
  closed : v'.topic.closed = true ↔ v.topic.closed = true ∨ d = .closed
  group : ∀ g, v'.topic.group g = (d.committed? g).elim (v.topic.group g) (v.topic.group g).commit
  reader : ∀ c s', v'.readers[c]? = some s' →
    d.place? c = some s'.position ∨ d.place? c = none ∧
      ∃ s, v.readers[c]? = some s ∧ s'.position = s.position + (d.message? c).toList.length
  apart : ∀ c, d.consumer? ≠ some c → v'.readers[c]? = v.readers[c]?

/-- **What a dealing is told** by the topic as it stands, and by its own place. -/
def Told (v : Traffic) : Dealing → Prop
  | .published _ answer =>
    (v.topic.closed = true → answer = .error .closed) ∧
      (v.topic.closed = false → answer = .ok v.topic.size)
  | .produced _ answer =>
    (v.topic.closed = true → answer = .error .closed) ∧ (v.topic.closed = false → answer = .ok ())
  | .looked c found => ∃ s s', v.readers[c]? = some s ∧ s.poll v.topic = (found, s')
  | .committed _ _ m => ∃ b, .looked b (.message m) ∈ v.history
  | _ => True

section
variable {v v' : Traffic} {c : Nat}

/-- A reader in a list where one was replaced is the one that replaced it, or was there before. -/
theorem reader_set {readers : List Subscriber} {s s₁ s' : Subscriber} {b : Nat}
    (hb : readers[b]? = some s₁) (hc : (readers.set b s)[c]? = some s') :
    b = c ∧ s' = s ∧ readers[c]? = some s₁ ∨ b ≠ c ∧ readers[c]? = some s' := by
  by_cases hbc : b = c
  · subst hbc
    obtain ⟨hlt, -⟩ := List.getElem?_eq_some_iff.mp hb
    rw [List.getElem?_set_self hlt] at hc
    cases hc
    exact .inl ⟨rfl, rfl, hb⟩
  · rw [List.getElem?_set_ne hbc] at hc
    exact .inr ⟨hbc, hc⟩

/-- What a look gives is what the consumer moves on by. -/
theorem position_poll {s s' : Subscriber} {t : Topic} {found : Polled}
    (h : s.poll t = (found, s')) :
    s'.position = s.position + (message? c (.looked c found)).toList.length := by
  cases found with
  | message m =>
    obtain ⟨-, -, rfl⟩ := Subscriber.poll_eq_message.mp h
    simp [message?]
  | closed =>
    obtain ⟨-, -, rfl⟩ := Subscriber.poll_eq_closed.mp h
    simp [message?]
  | waiting =>
    obtain ⟨-, -, rfl⟩ := Subscriber.poll_eq_waiting.mp h
    simp [message?]

/-- A dealing that is of no consumer leaves the consumers alone. -/
theorem reader_same {d : Dealing} {s' : Subscriber} (hd : d.place? c = none)
    (hm : d.message? c = none) (hc : v.readers[c]? = some s') :
    d.place? c = some s'.position ∨ d.place? c = none ∧
      ∃ s, v.readers[c]? = some s ∧ s'.position = s.position + (d.message? c).toList.length := by
  refine .inr ⟨hd, s', hc, ?_⟩
  rw [hm]
  rfl

/-- **Every step adds one dealing**, which was told what the topic had to tell. -/
theorem Step.adds (h : Step v v') : ∃ d, Adds v d v' ∧ Told v d := by
  cases h with
  | @published p k t hpublish =>
    obtain ⟨hopen, rfl, rfl⟩ := Topic.publish_eq_ok.mp hpublish
    refine ⟨_, ⟨rfl, ?_, ?_, fun _ => rfl, fun c s' => reader_same rfl rfl, fun _ _ => rfl⟩, ?_⟩
    · simp [hopen, payload?]
    · simp
    · simp [Told, hopen]
  | @refused p e hpublish =>
    obtain ⟨hclosed, rfl⟩ := Topic.publish_eq_error.mp hpublish
    refine ⟨_, ⟨rfl, ?_, ?_, fun _ => rfl, fun c s' => reader_same rfl rfl, fun _ _ => rfl⟩, ?_⟩
    · simp [hclosed]
    · simp
    · simp [Told, hclosed]
  | @produced e t hproduce =>
    obtain ⟨hopen, rfl⟩ := Topic.produce_eq_ok.mp hproduce
    refine ⟨_, ⟨rfl, ?_, ?_, fun _ => rfl, fun c s' => reader_same rfl rfl, fun _ _ => rfl⟩, ?_⟩
    · simp [hopen, payload?]
    · simp
    · simp [Told, hopen]
  | @turnedDown e f hproduce =>
    obtain ⟨hclosed, rfl⟩ := Topic.produce_eq_error.mp hproduce
    refine ⟨_, ⟨rfl, ?_, ?_, fun _ => rfl, fun c s' => reader_same rfl rfl, fun _ _ => rfl⟩, ?_⟩
    · simp [hclosed]
    · simp
    · simp [Told, hclosed]
  | closed =>
    refine ⟨_, ⟨rfl, ?_, ?_, fun _ => rfl, fun c s' => reader_same rfl rfl, fun _ _ => rfl⟩,
      trivial⟩
    · simp [Topic.close, payload?]
    · simp [Topic.close]
  | joined group =>
    refine ⟨_, ⟨rfl, ?_, ?_, fun _ => rfl, ?_, ?_⟩, trivial⟩
    · simp [join, payload?]
    · simp [join]
    · intro c s' hc
      change (v.readers ++ [_])[c]? = _ at hc
      rcases Nat.lt_trichotomy c v.readers.length with hlt | rfl | hgt
      · rw [List.getElem?_append_left hlt] at hc
        have hne : v.readers.length ≠ c := by omega
        exact reader_same (by simp [place?, hne]) rfl hc
      · rw [List.getElem?_concat_length] at hc
        cases hc
        exact .inl (by simp [place?])
      · rw [List.getElem?_eq_none (by simp; omega)] at hc
        cases hc
    · intro c hc
      have hne : v.readers.length ≠ c := by
        rintro rfl
        exact hc rfl
      show (v.readers ++ [_])[c]? = _
      rcases Nat.lt_or_ge c v.readers.length with hlt | hge
      · exact List.getElem?_append_left hlt
      · rw [List.getElem?_eq_none hge, List.getElem?_eq_none (by simp; omega)]
  | @looked b s₁ s₂ found hb hpoll =>
    refine ⟨_, ⟨rfl, ?_, ?_, fun _ => rfl, ?_, ?_⟩, ⟨s₁, s₂, hb, hpoll⟩⟩
    · simp [payload?]
    · simp
    · intro c s' hc
      rcases reader_set hb hc with ⟨rfl, rfl, hsame⟩ | ⟨hne, hsame⟩
      · exact .inr ⟨rfl, s₁, hsame, position_poll hpoll⟩
      · refine reader_same rfl ?_ hsame
        cases found <;> simp [message?, hne]
    · intro c hc
      have hne : b ≠ c := by
        rintro rfl
        exact hc rfl
      exact List.getElem?_set_ne hne
  | @sought b s₁ offset hb =>
    refine ⟨_, ⟨rfl, ?_, ?_, fun _ => rfl, ?_, ?_⟩, trivial⟩
    · simp [payload?]
    · simp
    · intro c s' hc
      rcases reader_set hb hc with ⟨rfl, rfl, -⟩ | ⟨hne, hsame⟩
      · exact .inl (by simp [place?, Subscriber.seek])
      · exact reader_same (by simp [place?, hne]) rfl hsame
    · intro c hc
      have hne : b ≠ c := by
        rintro rfl
        exact hc rfl
      exact List.getElem?_set_ne hne
  | @committed a b s m hb hm =>
    refine ⟨_, ⟨rfl, ?_, ?_, ?_, fun c s' => reader_same rfl rfl, fun _ _ => rfl⟩, ⟨a, hm⟩⟩
    · simp [payload?]
    · simp
    · intro g
      by_cases hg : s.group = g
      · subst hg
        simp [committed?, Topic.group_commit_self]
      · simp [committed?, hg, Topic.group_commit_of_ne]

end

/-! ## Faithful to the history -/

/-- The topic and its consumers are where the history says. -/
structure Sound (v : Traffic) : Prop where
  log : v.topic.log.toList = accepted v.history
  closed : v.topic.closed = true ↔ .closed ∈ v.history
  placed : ∀ c s, v.readers[c]? = some s →
    ∃ o ms, Stands c v.history o ms ∧ s.position = o + ms.length
  honest : Honest v.history

section
variable {name : String} {v v' : Traffic} {d : Dealing}

theorem sound_start : Sound (start name) where
  log := rfl
  closed := by simp [start]
  placed := by simp [start]
  honest := honest_nil

theorem Sound.open_iff (hs : Sound v) : v.topic.closed = false ↔ .closed ∉ v.history := by
  rw [← hs.closed, Bool.not_eq_true]

theorem Sound.size_eq (hs : Sound v) : v.topic.size = (accepted v.history).length := by
  rw [← hs.log, Topic.size, Array.length_toList]

theorem Sound.getElem?_log (hs : Sound v) (k : Nat) :
    v.topic.log[k]? = (accepted v.history)[k]? := by
  rw [← hs.log, Array.getElem?_toList]

/-- What the topic tells is what was due. -/
theorem Sound.due (hs : Sound v) (hd : Told v d) : Due v.history d := by
  cases d with
  | published p answer =>
    obtain ⟨hrefused, htaken⟩ := hd
    refine ⟨fun hc => hrefused (hs.closed.mpr hc), fun hc => ?_⟩
    rw [← hs.size_eq]
    exact htaken (hs.open_iff.mpr hc)
  | produced e answer =>
    obtain ⟨hrefused, htaken⟩ := hd
    exact ⟨fun hc => hrefused (hs.closed.mpr hc), fun hc => htaken (hs.open_iff.mpr hc)⟩
  | looked c found =>
    obtain ⟨s, s', hc, hpoll⟩ := hd
    obtain ⟨o, ms, hstands, hposition⟩ := hs.placed c s hc
    refine ⟨o, ms, hstands, ?_⟩
    rw [← hposition]
    cases found with
    | message m =>
      obtain ⟨hoffset, hlog, -⟩ := Subscriber.poll_eq_message.mp hpoll
      exact ⟨hoffset, by rw [← hs.getElem?_log, hlog]⟩
    | closed =>
      obtain ⟨hend, hclosed, -⟩ := Subscriber.poll_eq_closed.mp hpoll
      exact ⟨hs.closed.mp hclosed, by rwa [← hs.size_eq]⟩
    | waiting =>
      obtain ⟨hend, hopen, -⟩ := Subscriber.poll_eq_waiting.mp hpoll
      exact ⟨hs.open_iff.mp hopen, by rwa [← hs.size_eq]⟩
  | committed c g m => exact hd
  | closed | joined c s | sought c o => trivial

/-- **One more dealing leaves everything where the history says.** -/
theorem Sound.adds (hs : Sound v) (ha : Adds v d v') (hd : Told v d) : Sound v' where
  log := by
    rw [ha.log, ha.history, hs.log]
    by_cases hc : .closed ∈ v.history
    · rw [accepted_snoc_of_closed hc, if_pos (hs.closed.mpr hc), List.append_nil]
    · rw [accepted_snoc_of_open hc, if_neg fun hclosed => hc (hs.closed.mp hclosed)]
  closed := by
    rw [ha.closed, ha.history, hs.closed, List.mem_append, List.mem_singleton, eq_comm]
  placed := by
    intro c s' hc
    rw [ha.history]
    rcases ha.reader c s' hc with hput | ⟨hnone, s, hsame, hposition⟩
    · exact ⟨_, [], (stands_snoc_of_place hput).mpr ⟨rfl, rfl⟩, rfl⟩
    · obtain ⟨o, ms, hstands, hbefore⟩ := hs.placed c s hsame
      refine ⟨o, _, (stands_snoc_of_none hnone).mpr ⟨ms, hstands, rfl⟩, ?_⟩
      rw [hposition, hbefore, List.length_append, Nat.add_assoc]
  honest := by
    rw [ha.history]
    exact honest_snoc.mpr ⟨hs.honest, hs.due hd⟩

theorem Sound.step (hs : Sound v) (h : Step v v') : Sound v' := by
  obtain ⟨d, ha, hd⟩ := h.adds
  exact hs.adds ha hd

/-- The invariant holds in every run. -/
theorem Sound.reaches (hs : Sound v) (h : Reaches v v') : Sound v' := by
  induction h with
  | refl => exact hs
  | tail _ hstep ih => exact ih.step hstep

/-- A run only adds to the history. -/
theorem Reaches.history (h : Reaches v v') : ∃ after, v'.history = v.history ++ after := by
  induction h with
  | refl => exact ⟨[], by simp⟩
  | tail _ hstep ih =>
    obtain ⟨after, hafter⟩ := ih
    obtain ⟨d, ha, -⟩ := hstep.adds
    exact ⟨after ++ [d], by rw [ha.history, hafter, List.append_assoc]⟩

/-- The dealing of a step is the one that it adds to the history. -/
theorem Step.adds_of_history (h : Step v v') (he : v'.history = v.history ++ [d]) :
    Adds v d v' := by
  obtain ⟨x, ha, -⟩ := h.adds
  have hx : x = d := by
    have hsame := List.append_cancel_left (ha.history.symm.trans he)
    exact List.head_eq_of_cons_eq hsame
  rw [← hx]
  exact ha

end

/-- A topic that neither loses, duplicates nor reorders what is published on it. -/
structure Faithful (v : Traffic) : Prop where
  /-- The log is what was published before the topic was closed, in order. -/
  log : v.topic.log.toList = accepted v.history
  closed : v.topic.closed = true ↔ .closed ∈ v.history
  /-- Everybody was told what was due, at every moment: a publisher the place of its payload or that
  the topic is closed, and a consumer what the log has at its place, that the topic is closed and
  nothing is left, or nothing yet. -/
  due : ∀ past d after, v.history = past ++ d :: after → Due past d
  /-- The messages given to a consumer since it was put at `o` are those at `o`, `o + 1`, … -/
  delivered : ∀ past after c o ms k m, v.history = past ++ after → Stands c past o ms →
    ms[k]? = some m → m.offset = o + k ∧ v.topic.log[o + k]? = some m.payload
  /-- A consumer reads next where it was put, plus one for each message given to it since. -/
  placed : ∀ c s, v.readers[c]? = some s →
    ∃ o ms, Stands c v.history o ms ∧ s.position = o + ms.length
  /-- What is in the log stays there. -/
  grows : ∀ v', Reaches v v' → v.topic.log.toList <+: v'.topic.log.toList
  /-- No dealing but its own moves a consumer. -/
  apart : ∀ v' d c, Step v v' → v'.history = v.history ++ [d] → d.consumer? ≠ some c →
    v'.readers[c]? = v.readers[c]?

/-- **The topic neither loses, duplicates nor reorders messages**, whoever publishes, joins, looks,
moves about, commits and closes it, in whatever order. -/
theorem topic_is_faithful {name : String} {v : Traffic} (h : Reaches (start name) v) :
    Faithful v := by
  have hs : Sound v := sound_start.reaches h
  refine ⟨hs.log, hs.closed, hs.honest, ?_, hs.placed, ?_, ?_⟩
  · intro past after c o ms k m he hstands hk
    have hhonest : Honest (past ++ after) := he ▸ hs.honest
    obtain ⟨hoffset, hlog⟩ := hhonest.of_append.delivered hstands hk
    refine ⟨hoffset, ?_⟩
    rw [hs.getElem?_log, he]
    exact accepted_mono after hlog
  · intro v' hrun
    obtain ⟨after, hafter⟩ := hrun.history
    rw [hs.log, (hs.reaches hrun).log, hafter]
    exact prefix_accepted_append _ _
  · intro v' d c hstep he hc
    exact (hstep.adds_of_history he).apart c hc

/-- Two consumers.  The first leaves a place out, moves behind the end and back again, and commits
the later of its messages first; the topic is closed before the last payload. -/
def sampleHistory : List Dealing :=
  [.joined 0 ⟨"fix", 0⟩, .published [1] (.ok 0), .published [2] (.ok 1),
    .looked 0 (.message ⟨0, [1]⟩), .sought 0 3, .looked 0 .waiting,
    .produced ⟨7, .targetMissing, .src⟩ (.ok ()), .published [4] (.ok 3),
    .looked 0 (.message ⟨3, [4]⟩), .committed 0 "fix" ⟨3, [4]⟩, .joined 1 ⟨"audit", 0⟩,
    .looked 1 (.message ⟨0, [1]⟩), .committed 0 "fix" ⟨0, [1]⟩, .closed,
    .published [5] (.error .closed), .sought 0 1, .looked 0 (.message ⟨1, [2]⟩), .sought 0 4,
    .looked 0 .closed]

theorem reaches_sample : ∃ v, Reaches (start "events") v ∧ v.history = sampleHistory := by
  let e : Event := ⟨7, .targetMissing, .src⟩
  have hfirst : ∃ v, Reaches (start "events") v ∧ v.topic.closed = false ∧
      v.topic.log = #[[1], [2], e.toPayload, [4]] ∧ v.topic.groups = [] ∧
      v.readers = [⟨"fix", 4⟩] ∧ v.history = sampleHistory.take 9 :=
    ⟨_, Relation.ReflTransGen.refl
      |>.tail (.joined "fix")
      |>.tail (.published (p := [1]) rfl)
      |>.tail (.published (p := [2]) rfl)
      |>.tail (.looked (c := 0) rfl rfl)
      |>.tail (.sought (c := 0) 3 rfl)
      |>.tail (.looked (c := 0) rfl rfl)
      |>.tail (.produced (e := e) rfl)
      |>.tail (.published (p := [4]) rfl)
      |>.tail (.looked (c := 0) rfl rfl), rfl, rfl, rfl, rfl, rfl⟩
  obtain ⟨⟨⟨name, log, groups, closed⟩, readers, history⟩, hrun, rfl, rfl, rfl, rfl, rfl⟩ := hfirst
  exact ⟨_, hrun
    |>.tail (.committed (b := 0) (c := 0) (m := ⟨3, [4]⟩) rfl (by simp [sampleHistory]))
    |>.tail (.joined "audit")
    |>.tail (.looked (c := 1) rfl rfl)
    |>.tail (.committed (b := 0) (c := 0) (m := ⟨0, [1]⟩) rfl (by simp [join, sampleHistory]))
    |>.tail .closed
    |>.tail (.refused (p := [5]) rfl)
    |>.tail (.sought (c := 0) 1 rfl)
    |>.tail (.looked (c := 0) rfl rfl)
    |>.tail (.sought (c := 0) 4 rfl)
    |>.tail (.looked (c := 0) rfl rfl), rfl⟩

theorem topic_is_faithful_sample :
    ∃ v, Reaches (start "events") v ∧ v.history = sampleHistory ∧ Faithful v := by
  obtain ⟨v, hrun, hhistory⟩ := reaches_sample
  exact ⟨v, hrun, hhistory, topic_is_faithful hrun⟩

end Traffic
end Cutover
