import Cutover.Proofs.Repair.Stores
import Cutover.Proofs.Topic.Commit

/-! # Validation and repair converge

What a validation has published is taken by a topic, the topic is closed, and a consumer repairs
rows until it finds the end of the topic.  Calls of the stores may fail while it does, though not
for ever.

The invariant (`Mending.InProgress`) is about the place where the consumer is: it has committed what
is in front of it, and the tables agree on every identity that no event from there on names.  At the
start this is so because a validation reports every identity on which the tables do not agree.  A
turn of the consumer brings it one message further, or spends a fault (`ensures_turn`); so it gets
to the end, where there is no event left and the tables agree on every identity.
-/

namespace Cutover

open Dialogue Consumer

/-- The consumer, turn after turn; it ends with a tally, or without one when it is gone. -/
def Consumer.loop (c : Consumer) : Loop Consuming FixTally Turn (Option FixTally) where
  round := c.turn
  after
    | .again t => .inl t
    | .stopped t => .inr (some t)
    | .crashed => .inr none

/-- The stores, the topic and the place of the consumer in it. -/
structure Mending where
  stores : Stores
  topic : Topic
  sub : Subscriber

namespace Mending

/-- How a request of a consumer is answered that nobody tells to stop. -/
inductive Answers : Surroundings Consuming Mending where
  | message {st : Stores} {t : Topic} {sub sub' : Subscriber} {m : Message} :
      sub.poll t = (.message m, sub') →
      Answers ⟨st, t, sub⟩ .poll (Consuming.Received.message m) ⟨st, t, sub'⟩
  | closed {st : Stores} {t : Topic} {sub sub' : Subscriber} : sub.poll t = (.closed, sub') →
      Answers ⟨st, t, sub⟩ .poll (Consuming.Received.failed .closed) ⟨st, t, sub'⟩
  | commit (st : Stores) (t : Topic) (sub : Subscriber) (m : Message) :
      Answers ⟨st, t, sub⟩ (.commit m) (Except.ok ()) ⟨st, t.commit sub.group m.offset, sub⟩
  | seek (st : Stores) (t : Topic) (sub : Subscriber) (k : Nat) :
      Answers ⟨st, t, sub⟩ (.seek k) (Except.ok ()) ⟨st, t, sub.seek k⟩
  | rest (m : Mending) (d : Duration) : Answers m (.rest d) true m
  | work {st st' : Stores} {w : Work.Request} {reply : Work.Reply w} (t : Topic)
      (sub : Subscriber) : Stores.Answers st w reply st' →
        Answers ⟨st, t, sub⟩ (.work w) reply ⟨st', t, sub⟩

theorem exists_answer (m : Mending) (r : Consuming.Request) (h : m.topic.closed = true) :
    ∃ reply m', Answers m r reply m' := by
  obtain ⟨st, t, sub⟩ := m
  cases r with
  | poll =>
    cases hpayload : t.log[sub.position]? with
    | some payload =>
      exact ⟨_, _, .message (m := ⟨sub.position, payload⟩)
        (Subscriber.poll_eq_message.mpr ⟨rfl, hpayload, rfl⟩)⟩
    | none =>
      have hsize : t.size ≤ sub.position := Array.getElem?_eq_none_iff.mp hpayload
      exact ⟨_, _, .closed (Subscriber.poll_eq_closed.mpr ⟨hsize, h, rfl⟩)⟩
  | commit msg => exact ⟨_, _, .commit st t sub msg⟩
  | seek k => exact ⟨_, _, .seek st t sub k⟩
  | rest d => exact ⟨_, _, .rest _ d⟩
  | work w =>
    obtain ⟨reply, st', ha⟩ := st.exists_answer w
    exact ⟨reply, _, .work t sub ha⟩

/-- A closed topic stays closed. -/
theorem Answers.closed_topic {m m' : Mending} {r : Consuming.Request} {reply : Consuming.Reply r}
    (ha : Answers m r reply m') (h : m.topic.closed = true) : m'.topic.closed = true := by
  cases ha <;> exact h

/-- The consumer of a group has handled the first events and committed them, and on every identity
that none of the others names the tables agree. -/
structure InProgress (p : Plan) (b : Table) (group : String) (events : List Event) (m : Mending)
    (n : Nat) : Prop where
  base : m.stores.tables p.base = b
  compares : p.Compares m.stores.tables
  log : m.topic.log = (events.map Event.toPayload).toArray
  closed : m.topic.closed = true
  sub : m.sub = ⟨group, n⟩
  front : m.topic.group group = ⟨n, []⟩
  within : n ≤ events.length
  agree : ∀ id, (∀ e ∈ events.drop n, e.id ≠ id) →
    (m.stores.tables p.base).AgreeAt p.table (m.stores.tables p.target) id

/-- How many messages and faults are left. -/
def left (events : List Event) (m : Mending) : Nat :=
  (events.length - m.sub.position) + m.stores.faults

section
variable {p : Plan} {b : Table} {group : String} {events : List Event} {st st' : Stores} {t : Topic}
  {n : Nat}

/-- The message at the place of the consumer is the first event that it has not handled. -/
theorem InProgress.of_message (h : InProgress p b group events ⟨st, t, ⟨group, n⟩⟩ n) {m : Message}
    {sub : Subscriber} (hpoll : Subscriber.poll ⟨group, n⟩ t = (.message m, sub)) :
    ∃ hn : n < events.length, m = ⟨n, events[n].toPayload⟩ ∧ sub = ⟨group, n + 1⟩ := by
  obtain ⟨hn, rfl, rfl⟩ := Subscriber.message_of_log h.log hpoll
  rw [List.length_map] at hn
  exact ⟨hn, by rw [List.getElem_map], rfl⟩

/-- The consumer finds the end behind the last event. -/
theorem InProgress.of_closed (h : InProgress p b group events ⟨st, t, ⟨group, n⟩⟩ n)
    {sub : Subscriber} (hpoll : Subscriber.poll ⟨group, n⟩ t = (.closed, sub)) :
    n = events.length ∧ sub = ⟨group, n⟩ := by
  obtain ⟨hend, hsub⟩ := Subscriber.closed_of_log h.log hpoll
  rw [List.length_map] at hend
  exact ⟨Nat.le_antisymm h.within hend, hsub⟩

/-- Behind a repair that succeeded the next event is the first one. -/
theorem InProgress.committed (h : InProgress p b group events ⟨st, t, ⟨group, n⟩⟩ n)
    (hn : n < events.length) {outcome : FixOutcome}
    (hfixed : p.Fixes events[n].id st (.ok outcome) st') :
    InProgress p b group events ⟨st', t.commit group n, ⟨group, n + 1⟩⟩ (n + 1) where
  base := hfixed.keeps.base.trans h.base
  compares := hfixed.keeps.compares
  log := h.log
  closed := h.closed
  sub := rfl
  front := by
    have hfront : t.group group = ⟨n, []⟩ := h.front
    rw [t.group_commit_self, hfront, Group.commit_front]
  within := hn
  agree := by
    intro id hid
    by_cases hevent : id = events[n].id
    · subst hevent
      exact hfixed.done outcome rfl
    · refine hfixed.keeps.elsewhere id hevent (h.agree id fun e he => ?_)
      rw [List.drop_eq_getElem_cons hn] at he
      rcases List.mem_cons.mp he with rfl | he
      · exact Ne.symm hevent
      · exact hid e he

/-- Behind a repair that failed the event is still the first one. -/
theorem InProgress.handedBack (h : InProgress p b group events ⟨st, t, ⟨group, n⟩⟩ n)
    (hn : n < events.length) (hkeeps : p.Keeps events[n].id st st') :
    InProgress p b group events ⟨st', t, ⟨group, n⟩⟩ n where
  base := hkeeps.base.trans h.base
  compares := hkeeps.compares
  log := h.log
  closed := h.closed
  sub := rfl
  front := h.front
  within := h.within
  agree := by
    intro id hid
    have hfirst : events[n] ∈ events.drop n := by
      rw [List.drop_eq_getElem_cons hn]
      exact List.mem_cons_self
    exact hkeeps.elsewhere id (Ne.symm (hid _ hfirst)) (h.agree id hid)

/-- Work on the stores leaves the topic and the consumer where they are. -/
theorem ensures_atWork {α : Type} {d : Dialogue Work α} {P : α → Stores → Prop}
    (hd : d.Ensures Stores.Answers P st) (t : Topic) (sub : Subscriber) :
    (d.interpret fun w => askConsuming (.work w)).Ensures Answers
      (fun a m => ∃ st', P a st' ∧ m = ⟨st', t, sub⟩) ⟨st, t, sub⟩ := by
  refine hd.interpret (R := fun (st : Stores) (m : Mending) => m = ⟨st, t, sub⟩) ?_ rfl
  rintro w st _ rfl reply m' ha
  cases ha with
  | work _ _ hwork => exact ⟨_, hwork, rfl⟩

variable {c : Consumer}

/-- **A turn brings the consumer one message further or spends a fault**, or it is at the end. -/
theorem ensures_turn (hacross : p.target = p.base.other)
    (hdirection : ∀ e ∈ events, e.direction = p.base)
    (hf : (c.fixer p.base).Copies p.base p.table b.columns) (hnan : b.NaNFree)
    (hspans : c.retry.Spans) (tally : FixTally) {m : Mending}
    (h : InProgress p b group events m n) :
    (c.turn tally).Ensures Answers
      (c.loop.Turns
        (fun _ m' => (∃ n', InProgress p b group events m' n') ∧ left events m' < left events m)
        (fun o m' => ∃ t, o = some t ∧ InProgress p b group events m' events.length)) m := by
  obtain ⟨st, t, sub⟩ := m
  obtain rfl : sub = ⟨group, n⟩ := h.sub
  obtain rfl : st.tables p.base = b := h.base
  rw [turn]
  refine ensures_request_bind.mpr ?_
  intro reply m' ha
  cases ha with
  | closed hpoll =>
    obtain ⟨rfl, rfl⟩ := h.of_closed hpoll
    exact ⟨tally, rfl, h⟩
  | message hpoll =>
    obtain ⟨hn, rfl, rfl⟩ := h.of_message hpoll
    have hfixer : (c.fixer events[n].direction).Copies p.base p.table
        (st.tables p.base).columns := by
      rw [hdirection events[n] (List.getElem_mem hn)]
      exact hf
    have hhandled := Plan.ensures_handle hacross hfixer hnan h.compares hspans
    refine (ensures_atWork hhandled t ⟨group, n + 1⟩).bind ?_
    rintro o m' ⟨st', ⟨result, rfl, hfixed⟩, rfl⟩
    have hfaults := hfixed.keeps.faults
    cases result with
    | ok outcome =>
      -- the message is committed
      rintro _ _ ⟨⟩
      refine ⟨⟨n + 1, h.committed hn hfixed⟩, ?_⟩
      simp only [left]
      omega
    | error e =>
      -- the message is handed back, and the consumer rests and takes it again
      obtain ⟨hpoison, hspent⟩ := hfixed.failed e rfl
      simp only [settle, hpoison]
      rintro _ _ ⟨⟩ _ _ ⟨⟩
      refine ⟨⟨n, h.handedBack hn hfixed.keeps⟩, ?_⟩
      simp only [left, Subscriber.seek]
      omega

end
end Mending

/-! ## From the validation to the end of the topic -/

namespace Plan

open Scanning (sideBySide)

/-- The consumer has found the end of the topic and committed all of it, the base is the table that
it was, the tables agree on every identity, and another validation publishes nothing. -/
structure Converged (p : Plan) (b : Table) (group : String) (m : Mending) : Prop where
  ended : m.sub.poll m.topic = (.closed, m.sub)
  committed : m.topic.committed group = m.topic.size
  base : m.stores.tables p.base = b
  synced : p.InSync m.stores.tables
  again : Ends (Validating.Step p (sideBySide m.stores.tables))
    (fun v => ∃ tally, v.outcome? = some (.ok tally) ∧ v.shared = []) (Validating.start p [])

section
variable {p : Plan}

/-- A validation of all rows by identity can be made of tables that it compares. -/
theorem Compares.ends_reported {tables : Side → Table} (h : p.Compares tables)
    (hs : Sql.IsName p.sort) (hid : p.byId = true) (hfull : p.isFull = true)
    (hcut : p.utimeAfter ≤ 0) : Ends (Validating.Step p (sideBySide tables))
      (fun v => ∃ tally, v.outcome? = some (.ok tally) ∧ p.Reported tables v.shared tally)
      (Validating.start p []) := by
  have hnever : ¬ 0 < p.utimeAfter := Int64.not_lt.mpr hcut
  exact Plan.ends_reported hs hid hfull (.of_byId hid h.base.toFits fun hu => absurd hu hnever)
    (.of_byId hid h.target.toFits fun hu => absurd hu hnever)

/-- What a validation has published names every identity on which the tables do not agree. -/
theorem Reported.inProgress {st : Stores} {record : Scanning.Record} {tally : Tally}
    (h : p.Reported st.tables record tally) (hcompares : p.Compares st.tables)
    (hcut : p.utimeAfter ≤ 0) (name group : String) :
    Mending.InProgress p (st.tables p.base) group (record.map (·.2))
      ⟨st, ⟨name, ((record.map (·.2)).map Event.toPayload).toArray, [], true⟩, ⟨group, 0⟩⟩ 0 where
  base := rfl
  compares := hcompares
  log := rfl
  closed := rfl
  sub := rfl
  front := rfl
  within := Nat.zero_le _
  agree := by
    intro id hid
    -- a validation would have reported it
    by_contra hne
    obtain ⟨e, he, heid⟩ := hcompares.exists_event hcut hne
    exact hid e (h.differences.mem_iff.mpr he) heid

/-- At the end of the topic the tables agree on every identity. -/
theorem converged_of_inProgress {b : Table} {group : String} {events : List Event} {m : Mending}
    (h : Mending.InProgress p b group events m events.length) (hs : Sql.IsName p.sort)
    (hid : p.byId = true) (hfull : p.isFull = true) (hcut : p.utimeAfter ≤ 0) :
    p.Converged b group m := by
  have hsync : p.InSync m.stores.tables := fun id =>
    h.agree id (by simp)
  have hsize : m.topic.size = events.length := by
    rw [Topic.size, h.log]
    simp
  refine ⟨?_, ?_, h.base, hsync, ?_⟩
  · rw [h.sub, Subscriber.poll_eq_closed]
    exact ⟨hsize.le, h.closed, rfl⟩
  · rw [Topic.committed, h.front, hsize]
  · refine (h.compares.ends_reported hs hid hfull hcut).mono fun v _ hv => ?_
    obtain ⟨tally, hout, hreported⟩ := hv
    have hnothing := hreported.differences
    rw [h.compares.differences_eq_nil hsync, List.perm_nil, List.map_eq_nil_iff] at hnothing
    exact ⟨tally, hout, hnothing⟩

/-- **Validation and repair converge.**  Let a full validation by identity compare two tables of the
same columns, the base being free of NaN, and let a topic take what it publishes and be closed.
However many calls of the stores fail then, and with whatever errors, a consumer that nobody tells
to stop and whose waits are spans of time comes to the end of the topic, and by then everything is
committed, the base is what it was, the tables agree on every identity, and another validation
publishes nothing. -/
theorem validate_then_fix_converges {c : Consumer} {st : Stores} (name group : String)
    (hs : Sql.IsName p.sort) (hid : p.byId = true) (hfull : p.isFull = true)
    (hcut : p.utimeAfter ≤ 0) (hdirection : p.direction = p.base)
    (hacross : p.target = p.base.other) (hcompares : p.Compares st.tables)
    (hnan : (st.tables p.base).NaNFree)
    (hf : ∀ d, (c.fixer d).Copies d p.table (st.tables d).columns) (hspans : c.retry.Spans) :
    Ends (Validating.Step p (sideBySide st.tables))
      (fun v => ∃ tally topic, v.outcome? = some (.ok tally) ∧
        (v.shared.map (·.2)).foldlM Topic.produce { name } = .ok topic ∧
        Ends (c.loop.Step Mending.Answers)
          (fun x => ∃ tally, x.2 = .ended (some tally) ∧ p.Converged (st.tables p.base) group x.1)
          (⟨st, topic.close, .join topic.close group⟩, c.loop.start {}))
      (Validating.start p []) := by
  refine (hcompares.ends_reported hs hid hfull hcut).mono fun v _ hv => ?_
  obtain ⟨tally, hout, hreported⟩ := hv
  let events := v.shared.map (·.2)
  have hdirections : ∀ e ∈ events, e.direction = p.base := by
    intro e he
    obtain ⟨entry, hentry, rfl⟩ := List.mem_map.mp he
    exact (hreported.direction entry hentry).trans hdirection
  let among : FixTally → Mending → Prop :=
    fun _ m => ∃ n, Mending.InProgress p (st.tables p.base) group events m n
  have hturn : ∀ tally m, among tally m → (c.loop.round tally).Ensures Mending.Answers
      (c.loop.Turns (fun tally' m' => among tally' m' ∧ m'.left events < m.left events)
        (fun o m' => ∃ tally', o = some tally' ∧
          Mending.InProgress p (st.tables p.base) group events m' events.length)) m := by
    rintro tally m ⟨n, hm⟩
    exact Mending.ensures_turn hacross hdirections (hf p.base) hnan hspans tally hm
  have hstart : among {} _ := ⟨0, hreported.inProgress hcompares hcut name group⟩
  have hends := Loop.ends_start (K := fun m => m.topic.closed = true) (fun _ m => m.left events)
    hturn (fun m r hm => m.exists_answer r hm) (fun _ _ _ _ ha hm => ha.closed_topic hm) hstart rfl
  refine ⟨tally, _, hout, Topic.foldlM_produce _ rfl, ?_⟩
  have htopic : (#[] : Array Event.Payload) ++ (events.map Event.toPayload).toArray =
      (events.map Event.toPayload).toArray := by simp
  rw [htopic]
  refine hends.mono ?_
  rintro ⟨m, _⟩ - ⟨_, rfl, tally, rfl, hm⟩
  exact ⟨tally, rfl, converged_of_inProgress hm hs hid hfull hcut⟩

end

/-- A full validation of all rows in pages of one row, the destination being authoritative. -/
def mendingPlan : Plan where
  base := .dst
  target := .src
  direction := .dst
  table := fullPlan.table
  sort := "id"
  batch := 1
  batch_pos := Nat.one_pos

/-- Two stores that differ, of whose calls two will fail. -/
def mendingStores : Stores := ⟨fun d => { table := differingTables d }, 2⟩

/-- A consumer with a fixer for each direction. -/
def mendingConsumer : Consumer where
  fromSrc := ⟨.store .src, .store .dst, fullPlan.table, .mysql, (differingTables .src).columns⟩
  fromDst := ⟨.store .dst, .store .src, fullPlan.table, .postgres, (differingTables .dst).columns⟩

theorem compares_sample : mendingPlan.Compares mendingStores.tables where
  base := by decide +kernel
  target := by decide +kernel
  columns := by
    intro c
    simp [mendingPlan, mendingStores, Stores.tables, differingTables]
    tauto

theorem nanFree_sample : (mendingStores.tables mendingPlan.base).NaNFree := by
  intro r hr x hx
  simp only [mendingStores, Stores.tables, mendingPlan, differingTables, List.mem_cons,
    List.not_mem_nil, or_false] at hr
  rcases hr with rfl | rfl <;> simp at hx

theorem validate_then_fix_converges_sample :
    (Sql.IsName mendingPlan.sort ∧ mendingPlan.byId = true ∧ mendingPlan.isFull = true ∧
      mendingPlan.utimeAfter ≤ 0 ∧ mendingPlan.direction = mendingPlan.base ∧
      mendingPlan.target = mendingPlan.base.other ∧ mendingPlan.Compares mendingStores.tables ∧
      (mendingStores.tables mendingPlan.base).NaNFree ∧
      (∀ d, (mendingConsumer.fixer d).Copies d mendingPlan.table (mendingStores.tables d).columns) ∧
      mendingConsumer.retry.Spans) ∧
    Ends (Validating.Step mendingPlan (sideBySide mendingStores.tables))
      (fun v => ∃ tally topic, v.outcome? = some (.ok tally) ∧
        (v.shared.map (·.2)).foldlM Topic.produce { name := "events" } = .ok topic ∧
        Ends (mendingConsumer.loop.Step Mending.Answers)
          (fun x => ∃ tally, x.2 = .ended (some tally) ∧
            mendingPlan.Converged (mendingStores.tables mendingPlan.base) "fix" x.1)
          (⟨mendingStores, topic.close, .join topic.close "fix"⟩, mendingConsumer.loop.start {}))
      (Validating.start mendingPlan []) :=
  have hs : Sql.IsName mendingPlan.sort := by decide
  have hid : mendingPlan.byId = true := by decide +kernel
  have hcut : mendingPlan.utimeAfter ≤ 0 := by decide
  have hf : ∀ d, (mendingConsumer.fixer d).Copies d mendingPlan.table
      (mendingStores.tables d).columns := by
    intro d
    cases d <;> exact ⟨rfl, rfl, rfl, rfl⟩
  ⟨⟨hs, hid, rfl, hcut, rfl, rfl, compares_sample, nanFree_sample, hf, Retry.spans_default⟩,
    validate_then_fix_converges "events" "fix" hs hid rfl hcut rfl rfl compares_sample
      nanFree_sample hf Retry.spans_default⟩

end Plan
end Cutover
