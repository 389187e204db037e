import Cutover.Topic

/-! # A group that commits in order

A group may commit places in any order and remembers those ahead of its front.  While every place is
committed when it is the front, nothing is ever ahead, and the front moves by one at a time
(`Group.commit_front`).  Groups do not touch each other.
-/

namespace Cutover

/-- A group that commits its front moves it by one and has nothing ahead. -/
theorem Group.commit_front (n : Nat) : (⟨n, []⟩ : Group).commit n = ⟨n + 1, []⟩ := by
  simp [commit, advance]

namespace Topic

theorem lookup_setGroup_self (name : String) (g : Group) (groups : List (String × Group)) :
    (setGroup name g groups).lookup name = some g := by
  induction groups with
  | nil => simp [setGroup]
  | cons entry groups ih =>
    obtain ⟨n, h⟩ := entry
    by_cases hn : n = name
    · subst hn
      simp [setGroup]
    · have hne : (name == n) = false := by
        simp [Ne.symm hn]
      simp [setGroup, hn, List.lookup_cons, hne, ih]

theorem lookup_setGroup_of_ne {name other : String} (hne : other ≠ name) (g : Group)
    (groups : List (String × Group)) :
    (setGroup other g groups).lookup name = groups.lookup name := by
  induction groups with
  | nil =>
    have h : (name == other) = false := by
      simp [Ne.symm hne]
    simp [setGroup, List.lookup_cons, h]
  | cons entry groups ih =>
    obtain ⟨n, h⟩ := entry
    by_cases hn : n = other
    · subst hn
      have h : (name == n) = false := by
        simp [Ne.symm hne]
      simp [setGroup, List.lookup_cons, h]
    · simp [setGroup, hn, List.lookup_cons, ih]

variable (t : Topic)

theorem group_commit_self (name : String) (k : Nat) :
    (t.commit name k).group name = (t.group name).commit k := by
  rw [commit, group, lookup_setGroup_self, Option.getD_some]

theorem group_commit_of_ne {name other : String} (hne : other ≠ name) (k : Nat) :
    (t.commit other k).group name = t.group name := by
  rw [commit, group, lookup_setGroup_of_ne hne, group]

@[simp]
theorem log_commit (name : String) (k : Nat) : (t.commit name k).log = t.log := rfl

@[simp]
theorem closed_commit (name : String) (k : Nat) : (t.commit name k).closed = t.closed := rfl

variable {t}

/-- Only an open topic takes a payload, at the end of its log. -/
theorem publish_eq_ok {p : Event.Payload} {k : Nat} {t' : Topic} :
    t.publish p = .ok (k, t') ↔
      t.closed = false ∧ k = t.size ∧ t' = { t with log := t.log.push p } := by
  unfold publish
  cases t.closed with
  | true => simp
  | false => simp [eq_comm]

/-- Only a closed topic refuses a payload. -/
theorem publish_eq_error {p : Event.Payload} {e : ChannelError} :
    t.publish p = .error e ↔ t.closed = true ∧ e = .closed := by
  unfold publish
  cases t.closed with
  | true => simp [eq_comm]
  | false => simp

/-- An event is published as its payload. -/
theorem produce_eq_ok {e : Event} {t' : Topic} :
    t.produce e = .ok t' ↔ t.closed = false ∧ t' = { t with log := t.log.push e.toPayload } := by
  unfold produce publish
  cases t.closed with
  | true => simp [Except.map]
  | false => simp [Except.map, eq_comm]

theorem produce_eq_error {e : Event} {f : ChannelError} :
    t.produce e = .error f ↔ t.closed = true ∧ f = .closed := by
  unfold produce publish
  cases t.closed with
  | true => simp [Except.map, eq_comm]
  | false => simp [Except.map]

/-- **An open topic takes events one after the other**, each at the end of its log. -/
theorem foldlM_produce (es : List Event) (h : t.closed = false) :
    es.foldlM produce t = .ok { t with log := t.log ++ (es.map Event.toPayload).toArray } := by
  induction es generalizing t with
  | nil =>
    simp only [List.foldlM_nil, List.map_nil, Array.append_empty]
    rfl
  | cons e es ih =>
    have hproduce : t.produce e = .ok { t with log := t.log.push e.toPayload } := by
      rw [produce, publish_eq_ok.mpr ⟨h, rfl, rfl⟩]
      rfl
    have hrest := ih (t := { t with log := t.log.push e.toPayload }) h
    rw [List.foldlM_cons, hproduce]
    show es.foldlM produce { t with log := t.log.push e.toPayload } = _
    rw [hrest]
    simp

end Topic

namespace Subscriber

variable {s s' : Subscriber} {t : Topic}

/-- A message is what the log has at the place of the consumer, which moves on by one. -/
theorem poll_eq_message {m : Message} :
    s.poll t = (.message m, s') ↔
      m.offset = s.position ∧ t.log[s.position]? = some m.payload ∧
        s' = { s with position := s.position + 1 } := by
  unfold poll
  obtain ⟨offset, payload⟩ := m
  cases t.log[s.position]? with
  | none => cases t.closed <;> simp
  | some p =>
    simp only [Prod.mk.injEq, Polled.message.injEq, Message.mk.injEq, Option.some.injEq]
    constructor
    · rintro ⟨⟨rfl, rfl⟩, rfl⟩
      exact ⟨rfl, rfl, rfl⟩
    · rintro ⟨rfl, rfl, rfl⟩
      exact ⟨⟨rfl, rfl⟩, rfl⟩

/-- The end is found behind the log of a closed topic, and the consumer stays where it is. -/
theorem poll_eq_closed :
    s.poll t = (.closed, s') ↔ t.size ≤ s.position ∧ t.closed = true ∧ s' = s := by
  unfold poll Topic.size
  cases hp : t.log[s.position]? with
  | none =>
    have hsize := Array.getElem?_eq_none_iff.mp hp
    cases t.closed <;> simp [hsize, eq_comm]
  | some p =>
    obtain ⟨hlt, -⟩ := Array.getElem?_eq_some_iff.mp hp
    have hsize : ¬ t.log.size ≤ s.position := Nat.not_le.mpr hlt
    simp [hsize]

/-- Behind the log of an open topic there is nothing yet, and the consumer stays where it is. -/
theorem poll_eq_waiting :
    s.poll t = (.waiting, s') ↔ t.size ≤ s.position ∧ t.closed = false ∧ s' = s := by
  unfold poll Topic.size
  cases hp : t.log[s.position]? with
  | none =>
    have hsize := Array.getElem?_eq_none_iff.mp hp
    cases t.closed <;> simp [hsize, eq_comm]
  | some p =>
    obtain ⟨hlt, -⟩ := Array.getElem?_eq_some_iff.mp hp
    have hsize : ¬ t.log.size ≤ s.position := Nat.not_le.mpr hlt
    simp [hsize]

/-- What a consumer finds in a log of known payloads is the one at its place. -/
theorem message_of_log {group : String} {n : Nat} {payloads : List Event.Payload} {m : Message}
    (hlog : t.log = payloads.toArray) (hpoll : poll ⟨group, n⟩ t = (.message m, s')) :
    ∃ hn : n < payloads.length, m = ⟨n, payloads[n]⟩ ∧ s' = ⟨group, n + 1⟩ := by
  obtain ⟨offset, payload⟩ := m
  obtain ⟨hoffset, hpayload, hs'⟩ := poll_eq_message.mp hpoll
  obtain ⟨hn, rfl⟩ : ∃ hn : n < payloads.length, payloads[n] = payload := by
    simpa [hlog, List.getElem?_eq_some_iff] using hpayload
  obtain rfl : offset = n := hoffset
  exact ⟨hn, rfl, hs'⟩

/-- The end is behind the last payload. -/
theorem closed_of_log {group : String} {n : Nat} {payloads : List Event.Payload}
    (hlog : t.log = payloads.toArray) (hpoll : poll ⟨group, n⟩ t = (.closed, s')) :
    payloads.length ≤ n ∧ s' = ⟨group, n⟩ := by
  obtain ⟨hsize, -, hs'⟩ := poll_eq_closed.mp hpoll
  exact ⟨by simpa [Topic.size, hlog] using hsize, hs'⟩

end Subscriber
end Cutover
