import Cutover.Proofs.Repair.Converge
import Cutover.Proofs.Repair.Race

/-! # What repairs make of stale, repeated and mistaken events

A repair looks at the base and not at what an event says is wrong, so of an event nothing counts but
its identity and the store that it names.  Of all events for an identity only the first one makes a
difference: it makes both stores hold what the named one held, and from then on they hold the same,
whichever of them the later events name (`Settled.repaired`).  Repairs of different identities do
not touch each other.

So what both stores hold in the end is told by the first event for each identity (`firstNamed?`),
and this does not change when events of different identities are put in another order or an event is
added behind one for the same identity (`Shuffled.firstNamed?`).
-/

namespace Cutover

open Dialogue Consumer

/-- The store that the first event for an identity names. -/
def firstNamed? (events : List Event) (id : Int64) : Option Side :=
  (events.find? fun e => e.id == id).map Event.direction

section
variable {events : List Event} {e : Event} {id : Int64}

theorem firstNamed?_append (events events' : List Event) (id : Int64) :
    firstNamed? (events ++ events') id = (firstNamed? events id).or (firstNamed? events' id) := by
  rw [firstNamed?, List.find?_append, Option.map_or]
  rfl

theorem firstNamed?_cons_self (e : Event) (events : List Event) :
    firstNamed? (e :: events) e.id = some e.direction := by
  simp [firstNamed?]

theorem firstNamed?_cons_of_ne (h : e.id ≠ id) (events : List Event) :
    firstNamed? (e :: events) id = firstNamed? events id := by
  simp [firstNamed?, h]

theorem firstNamed?_eq_none : firstNamed? events id = none ↔ ∀ e ∈ events, e.id ≠ id := by
  simp [firstNamed?]

end

/-! ## Other orders and later events -/

/-- Two events of different identities change places, or an event comes in behind one for the same
identity. -/
inductive Nudged : List Event → List Event → Prop where
  | swapped (a b : List Event) {e f : Event} : e.id ≠ f.id →
      Nudged (a ++ e :: f :: b) (a ++ f :: e :: b)
  | added (a b : List Event) {e f : Event} : f ∈ a → f.id = e.id → Nudged (a ++ b) (a ++ e :: b)

/-- Events that are got from others by any number of such changes and by taking them back. -/
def Shuffled : List Event → List Event → Prop := Relation.EqvGen Nudged

/-- A change of this kind leaves the first event for each identity what it was. -/
theorem Nudged.firstNamed? {l l' : List Event} (h : Nudged l l') (id : Int64) :
    Cutover.firstNamed? l' id = Cutover.firstNamed? l id := by
  cases h with
  | @swapped a b e f hne =>
    rw [firstNamed?_append, firstNamed?_append]
    congr 1
    by_cases he : e.id = id
    · subst he
      rw [firstNamed?_cons_of_ne hne.symm, firstNamed?_cons_self, firstNamed?_cons_self]
    · rw [firstNamed?_cons_of_ne he]
      by_cases hf : f.id = id
      · subst hf
        rw [firstNamed?_cons_self, firstNamed?_cons_self]
      · rw [firstNamed?_cons_of_ne hf, firstNamed?_cons_of_ne hf, firstNamed?_cons_of_ne he]
  | @added a b e f hf hid =>
    rw [firstNamed?_append, firstNamed?_append]
    by_cases he : e.id = id
    · -- the identity has been named before
      cases hfirst : Cutover.firstNamed? a id with
      | none => exact absurd (hid.trans he) (firstNamed?_eq_none.mp hfirst f hf)
      | some d => rfl
    · rw [firstNamed?_cons_of_ne he]

theorem Shuffled.firstNamed? {l l' : List Event} (h : Shuffled l l') (id : Int64) :
    Cutover.firstNamed? l' id = Cutover.firstNamed? l id := by
  induction h with
  | rel _ _ h => exact h.firstNamed? id
  | refl => rfl
  | symm _ _ _ ih => exact ih.symm
  | trans _ _ _ _ _ ih ih' => exact ih'.trans ih

/-! ## One repair after the other -/

/-- What repairs for events have made of two tables: under an identity both hold what the store held
that the first event for it names, and rows of identities without an event are as they were. -/
structure Settled (s : TableSpec) (before : Side → Table) (events : List Event)
    (after : Side → Table) : Prop where
  content : ∀ d id, (after d).content s id =
    (before ((firstNamed? events id).getD d)).content s id
  untouched : ∀ d id, (∀ e ∈ events, e.id ≠ id) → (after d).lookup s id = (before d).lookup s id

/-- Under every identity that has an event both stores hold the same. -/
theorem Settled.synced {s : TableSpec} {before after : Side → Table} {events : List Event}
    (h : Settled s before events after) {e : Event} (he : e ∈ events) (d d' : Side) :
    (after d).content s e.id = (after d').content s e.id := by
  rw [h.content, h.content]
  cases hfirst : firstNamed? events e.id with
  | none => exact absurd rfl (firstNamed?_eq_none.mp hfirst e he)
  | some d₀ => rfl

theorem Settled.shuffled {s : TableSpec} {before after : Side → Table} {l l' : List Event}
    (h : Settled s before l' after) (hl : Shuffled l l') : Settled s before l after where
  content d id := by
    rw [h.content, hl.firstNamed?]
  untouched d id hid := by
    refine h.untouched d id (firstNamed?_eq_none.mp ?_)
    rw [hl.firstNamed?]
    exact firstNamed?_eq_none.mpr hid

theorem settled_nil (s : TableSpec) (before : Side → Table) : Settled s before [] before :=
  ⟨fun _ _ => rfl, fun _ _ _ => rfl⟩

theorem Table.Wrote.content_elsewhere {t t' : Table} {s : TableSpec} {id other : Int64}
    {row : Option (List Value)} (h : t.Wrote s id row t') (hne : other ≠ id) :
    t'.content s other = t.content s other := by
  rw [Table.content, Table.content, h.elsewhere other hne, Table.cell_of_columns_eq h.columns]

/-- What a repair has made of the stores: the named one is as it was, and the other one holds the
same under the identity. -/
structure Repaired (s : TableSpec) (e : Event) (tables tables' : Side → Table) : Prop where
  base : tables' e.direction = tables e.direction
  wrote : ∃ row, (tables e.direction.other).Wrote s e.id row (tables' e.direction.other)
  same : (tables' e.direction.other).content s e.id = (tables e.direction).content s e.id

/-- **Only the first event for an identity makes a difference.** -/
theorem Settled.repaired {s : TableSpec} {before tables tables' : Side → Table}
    {events : List Event} {e : Event} (h : Settled s before events tables)
    (hr : Repaired s e tables tables') : Settled s before (events ++ [e]) tables' := by
  obtain ⟨row, hwrote⟩ := hr.wrote
  refine ⟨fun d id => ?_, fun d id hid => ?_⟩
  · rw [firstNamed?_append]
    by_cases he : e.id = id
    · subst he
      -- after the repair both stores hold what the named one held before it
      have hboth : (tables' d).content s e.id = (tables e.direction).content s e.id := by
        rcases d.eq_or_eq_other e.direction with rfl | rfl
        · rw [hr.base]
        · exact hr.same
      rw [hboth, h.content, firstNamed?_cons_self]
      cases firstNamed? events e.id <;> rfl
    · have hkept : (tables' d).content s id = (tables d).content s id := by
        rcases d.eq_or_eq_other e.direction with rfl | rfl
        · rw [hr.base]
        · exact hwrote.content_elsewhere (Ne.symm he)
      rw [hkept, h.content, firstNamed?_cons_of_ne he]
      cases firstNamed? events id <;> rfl
  · have hevents : ∀ f ∈ events, f.id ≠ id := fun f hf => hid f (List.mem_append_left _ hf)
    have hne : e.id ≠ id := hid e (by simp)
    rcases d.eq_or_eq_other e.direction with rfl | rfl
    · rw [hr.base]
      exact h.untouched _ id hevents
    · rw [hwrote.elsewhere id (Ne.symm hne)]
      exact h.untouched _ id hevents

/-! ## The repairs of a consumer -/

/-- Two tables that both are the migrated one and have the same columns. -/
structure Twins (s : TableSpec) (tables : Side → Table) : Prop where
  keyed : ∀ d, (tables d).Keyed s
  columns : ∀ d, (tables d).SameColumns (tables d.other)

section
variable {s : TableSpec} {e : Event} {tables tables' : Side → Table}

theorem Repaired.columns (h : Repaired s e tables tables') (d : Side) :
    (tables' d).columns = (tables d).columns := by
  obtain ⟨row, hwrote⟩ := h.wrote
  rcases d.eq_or_eq_other e.direction with rfl | rfl
  · rw [h.base]
  · exact hwrote.columns

theorem Repaired.twins (h : Repaired s e tables tables') (ht : Twins s tables) :
    Twins s tables' where
  keyed d := by
    obtain ⟨row, hwrote⟩ := h.wrote
    rcases d.eq_or_eq_other e.direction with rfl | rfl
    · rw [h.base]
      exact ht.keyed _
    · exact hwrote.keyed
  columns d c := by
    rw [h.columns, h.columns]
    exact ht.columns d c

end

/-- What a repair comes to: it has made the other store hold what the named one holds, or it has
spent a fault. -/
def Repairs (s : TableSpec) (e : Event) (st : Stores) (result : Except CutoverError FixOutcome)
    (st' : Stores) : Prop :=
  (∃ o, result = .ok o ∧ Repaired s e st.tables st'.tables ∧ st'.faults = st.faults) ∨
    (∃ x, result = .error x) ∧ st'.faults < st.faults

/-- **A repair that succeeds makes the other store hold what the named one holds.** -/
theorem Fixer.ensures_fix_repaired {f : Fixer} {e : Event} {s : TableSpec} {st : Stores}
    (hf : f.Copies e.direction s (st.tables e.direction).columns) (ht : Twins s st.tables) :
    (f.fix e.id).Ensures Stores.Answers (Repairs s e st) st := by
  obtain rfl := hf.table
  obtain ⟨stmt, o, -, hwrite, hall⟩ := wrote_of_saw e.id ⟨hf.base, hf.target, rfl, rfl⟩
    (ht.keyed e.direction) hf.columns.symm
  rw [f.fix_eq, hf.base]
  refine (Stores.ensures_queryRow ((ht.keyed e.direction).byId_answer f.dialect e.id)).bind ?_
  rintro found st₁ (⟨rfl, hfaults₁, htables₁⟩ | ⟨⟨x, rfl⟩, hlt, -⟩)
  · rw [Function.update_eq_self] at htables₁
    have hfound : (((st.tables e.direction).lookup f.table e.id).toList.map
        ((st.tables e.direction).shown none)).head? =
        ((st.tables e.direction).lookup f.table e.id).map ((st.tables e.direction).shown none) := by
      cases (st.tables e.direction).lookup f.table e.id <;> rfl
    rw [hfound, hwrite]
    have hsuits : (st.tables e.direction.other).Suits f.table f.columns := by
      refine ⟨ht.keyed _, fun c => ?_⟩
      rw [hf.columns]
      exact ht.columns e.direction c
    obtain ⟨a, t', row, hrun, hwrote, hcontent⟩ := hall _ hsuits
    rw [← htables₁] at hrun
    refine (Stores.ensures_exec hrun).bind ?_
    rintro written st₂ (⟨rfl, hfaults₂, htables₂⟩ | ⟨⟨x, rfl⟩, hlt, -⟩)
    · rw [htables₁] at htables₂
      have hother : st₂.tables e.direction.other = t' := by
        rw [htables₂, Function.update_self]
      refine .inl ⟨o, rfl, ⟨?_, ⟨row, hother ▸ hwrote⟩, hother ▸ hcontent⟩, hfaults₂.trans hfaults₁⟩
      rw [htables₂, Function.update_of_ne e.direction.other_ne.symm]
    · exact .inr ⟨⟨_, rfl⟩, hfaults₁ ▸ hlt⟩
  · exact .inr ⟨⟨_, rfl⟩, hlt⟩

/-- Handling a message for an event is a repair for it. -/
theorem Consumer.ensures_handle_repaired {c : Consumer} {payload : Event.Payload} {e : Event}
    {s : TableSpec} {st : Stores} (hdecode : Event.decode payload = .ok e)
    (hf : (c.fixer e.direction).Copies e.direction s (st.tables e.direction).columns)
    (ht : Twins s st.tables) (hfaults : st.faults = 0) :
    (c.handle payload).Ensures Stores.Answers (fun o st' => ∃ outcome,
      o = .finished (.ok outcome) ∧ Repaired s e st.tables st'.tables ∧ st'.faults = 0) st := by
  rw [handle, hdecode]
  refine Retry.ensures_attemptsFrom_of_ok ((Fixer.ensures_fix_repaired hf ht).mono ?_) _ _
  rintro result st' (⟨o, rfl, hrepaired, hfaults'⟩ | ⟨-, hlt⟩)
  · exact ⟨o, rfl, hrepaired, hfaults'.trans hfaults⟩
  · omega

namespace Mending

/-- The consumer of a group has handled the first events, and the stores are as these leave them. -/
structure Settling (s : TableSpec) (before : Side → Table) (payloads : List Event.Payload)
    (events : List Event) (group : String) (m : Mending) (n : Nat) : Prop where
  settled : Settled s before (events.take n) m.stores.tables
  twins : Twins s m.stores.tables
  columns : ∀ d, (m.stores.tables d).columns = (before d).columns
  faults : m.stores.faults = 0
  log : m.topic.log = payloads.toArray
  closed : m.topic.closed = true
  sub : m.sub = ⟨group, n⟩
  within : n ≤ payloads.length

section
variable {s : TableSpec} {before : Side → Table} {payloads : List Event.Payload}
    {events : List Event}
  {group : String} {st st' : Stores} {t : Topic} {n : Nat}

/-- Behind a repair the next event is the first one. -/
theorem Settling.committed (h : Settling s before payloads events group ⟨st, t, ⟨group, n⟩⟩ n)
    (hn : n < payloads.length) {hn' : n < events.length}
    (hr : Repaired s events[n] st.tables st'.tables) (hfaults : st'.faults = 0) :
    Settling s before payloads events group ⟨st', t.commit group n, ⟨group, n + 1⟩⟩ (n + 1) where
  settled := by
    rw [List.take_succ_eq_append_getElem hn']
    exact h.settled.repaired hr
  twins := hr.twins h.twins
  columns d := (hr.columns d).trans (h.columns d)
  faults := hfaults
  log := h.log
  closed := h.closed
  sub := rfl
  within := hn

variable {c : Consumer}

/-- **A turn brings the consumer one message further**, or it is at the end. -/
theorem ensures_turn_settling (hf : ∀ d, (c.fixer d).Copies d s (before d).columns)
    (hevents : List.Forall₂ (fun p e => Event.decode p = .ok e) payloads events) (tally : FixTally)
    {m : Mending} (h : Settling s before payloads events group m n) :
    (c.turn tally).Ensures Answers
      (c.loop.Turns
        (fun _ m' => (∃ n', Settling s before payloads events group m' n') ∧
          payloads.length - m'.sub.position < payloads.length - m.sub.position)
        (fun o m' => ∃ t, o = some t ∧
          Settling s before payloads events group m' payloads.length)) m := by
  obtain ⟨st, t, sub⟩ := m
  obtain rfl : sub = ⟨group, n⟩ := h.sub
  rw [turn]
  refine ensures_request_bind.mpr ?_
  intro reply m' ha
  cases ha with
  | closed hpoll =>
    obtain ⟨hend, rfl⟩ := Subscriber.closed_of_log h.log hpoll
    obtain rfl := Nat.le_antisymm h.within hend
    exact ⟨tally, rfl, h⟩
  | message hpoll =>
    obtain ⟨hn, rfl, rfl⟩ := Subscriber.message_of_log h.log hpoll
    have hn' : n < events.length := hevents.length_eq ▸ hn
    have hdecode : Event.decode payloads[n] = .ok events[n] := hevents.get hn hn'
    have hcopies : (c.fixer events[n].direction).Copies events[n].direction s
        (st.tables events[n].direction).columns := by
      have hcolumns : (st.tables events[n].direction).columns = _ := h.columns _
      rw [hcolumns]
      exact hf _
    have hhandled := ensures_handle_repaired hdecode hcopies h.twins h.faults
    refine (ensures_atWork hhandled t ⟨group, n + 1⟩).bind ?_
    rintro _ _ ⟨st', ⟨outcome, rfl, hrepaired, hfaults⟩, rfl⟩
    -- the message is committed
    rintro _ _ ⟨⟩
    refine ⟨⟨n + 1, h.committed hn hrepaired hfaults⟩, ?_⟩
    simp only
    omega

end
end Mending

/-! ## Whole topics -/

/-- **Repair is insensitive to stale, repeated and mistaken events.**  Two tables of the same
columns, and a closed topic of events in any order, of any identities and types and naming either
store: a consumer that meets no fault comes to its end, and by then both stores hold under each
identity that has an event what the store held at the start that the first event for it names, and
all other rows are as they were.  All this can be read off any other events that these are got from
by putting events of different identities in another order and by adding and removing events behind
one for the same identity. -/
theorem repair_is_insensitive {c : Consumer} {st : Stores} {s : TableSpec}
    {payloads : List Event.Payload} {events events' : List Event} (name group : String)
    (hfaults : st.faults = 0) (ht : Twins s st.tables)
    (hf : ∀ d, (c.fixer d).Copies d s (st.tables d).columns)
    (hpayloads : List.Forall₂ (fun p e => Event.decode p = .ok e) payloads events')
    (hevents : Shuffled events events') :
    Ends (c.loop.Step Mending.Answers)
      (fun x => ∃ tally, x.2 = .ended (some tally) ∧ Twins s x.1.stores.tables ∧
        Settled s st.tables events x.1.stores.tables ∧
        ∀ e ∈ events, (x.1.stores.tables .src).content s e.id =
          (x.1.stores.tables .dst).content s e.id)
      (⟨st, ⟨name, payloads.toArray, [], true⟩, ⟨group, 0⟩⟩, c.loop.start {}) := by
  let among : FixTally → Mending → Prop :=
    fun _ m => ∃ n, Mending.Settling s st.tables payloads events' group m n
  have hturn : ∀ tally m, among tally m → (c.loop.round tally).Ensures Mending.Answers
      (c.loop.Turns
        (fun tally' m' => among tally' m' ∧
          payloads.length - m'.sub.position < payloads.length - m.sub.position)
        (fun o m' => ∃ tally', o = some tally' ∧
          Mending.Settling s st.tables payloads events' group m' payloads.length)) m := by
    rintro tally m ⟨n, hm⟩
    exact Mending.ensures_turn_settling hf hpayloads tally hm
  have hstart : among {} ⟨st, ⟨name, payloads.toArray, [], true⟩, ⟨group, 0⟩⟩ :=
    ⟨0, settled_nil s st.tables, ht, fun _ => rfl, hfaults, rfl, rfl, rfl, Nat.zero_le _⟩
  have hends := Loop.ends_start (K := fun m => m.topic.closed = true)
    (fun _ m => payloads.length - m.sub.position) hturn (fun m r hm => m.exists_answer r hm)
    (fun _ _ _ _ ha hm => ha.closed_topic hm) hstart rfl
  refine hends.mono ?_
  rintro ⟨m, _⟩ - ⟨_, rfl, tally, rfl, hm⟩
  have hall : events'.take payloads.length = events' :=
    List.take_of_length_le hpayloads.length_eq.ge
  have hsettled : Settled s st.tables events m.stores.tables :=
    Settled.shuffled (hall ▸ hm.settled) hevents
  exact ⟨tally, rfl, hm.twins, hsettled, fun e he => hsettled.synced he .src .dst⟩

/-- Two stores that differ and never fail. -/
def soundStores : Stores := ⟨Plan.mendingStores.replica, 0⟩

/-- Events for two identities that name the stores at random, one of them for the second time. -/
def mixedEvents : List Event :=
  [⟨1, .notEqual, .src⟩, ⟨2, .baseMissing, .dst⟩, ⟨1, .targetMissing, .dst⟩]

/-- The first events of each, the other way round. -/
def firstEvents : List Event := [⟨2, .baseMissing, .dst⟩, ⟨1, .notEqual, .src⟩]

theorem shuffled_sample : Shuffled mixedEvents firstEvents := by
  have hadded : Nudged [⟨1, .notEqual, .src⟩, ⟨2, .baseMissing, .dst⟩] mixedEvents :=
    .added [⟨1, .notEqual, .src⟩, ⟨2, .baseMissing, .dst⟩] [] (e := ⟨1, .targetMissing, .dst⟩)
      List.mem_cons_self rfl
  have hswapped : Nudged [⟨1, .notEqual, .src⟩, ⟨2, .baseMissing, .dst⟩] firstEvents :=
    .swapped [] [] (e := ⟨1, .notEqual, .src⟩) (f := ⟨2, .baseMissing, .dst⟩) (by decide)
  exact .trans _ _ _ (.symm _ _ (.rel _ _ hadded)) (.rel _ _ hswapped)

theorem twins_sample : Twins Plan.fullPlan.table soundStores.tables where
  keyed d := by cases d <;> decide +kernel
  columns d c := by
    cases d <;>
      simp [soundStores, Plan.mendingStores, Stores.tables, Plan.differingTables, Side.other]
        <;> tauto

theorem repair_is_insensitive_sample :
    (soundStores.faults = 0 ∧ Twins Plan.fullPlan.table soundStores.tables ∧
      (∀ d, (Plan.mendingConsumer.fixer d).Copies d Plan.fullPlan.table
        (soundStores.tables d).columns) ∧
      List.Forall₂ (fun p e => Event.decode p = .ok e) (firstEvents.map Event.toPayload)
        firstEvents ∧
      Shuffled mixedEvents firstEvents) ∧
    Ends (Plan.mendingConsumer.loop.Step Mending.Answers)
      (fun x => ∃ tally, x.2 = .ended (some tally) ∧ Twins Plan.fullPlan.table x.1.stores.tables ∧
        Settled Plan.fullPlan.table soundStores.tables mixedEvents x.1.stores.tables ∧
        ∀ e ∈ mixedEvents, (x.1.stores.tables .src).content Plan.fullPlan.table e.id =
          (x.1.stores.tables .dst).content Plan.fullPlan.table e.id)
      (⟨soundStores, ⟨"events", (firstEvents.map Event.toPayload).toArray, [], true⟩, ⟨"fix", 0⟩⟩,
        Plan.mendingConsumer.loop.start {}) := by
  have hf : ∀ d, (Plan.mendingConsumer.fixer d).Copies d Plan.fullPlan.table
      (soundStores.tables d).columns := by
    intro d
    cases d <;> exact ⟨rfl, rfl, rfl, rfl⟩
  have hpayloads : List.Forall₂ (fun p e => Event.decode p = .ok e)
    (firstEvents.map Event.toPayload)
      firstEvents := by
    rw [List.forall₂_map_left_iff]
    exact List.forall₂_same.mpr fun e _ => e.decode_toPayload
  exact ⟨⟨rfl, twins_sample, hf, hpayloads, shuffled_sample⟩,
    repair_is_insensitive "events" "fix" rfl twins_sample hf hpayloads shuffled_sample⟩

end Cutover
