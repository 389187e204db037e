import Cutover.Proofs.Topic.Front
import Cutover.Proofs.Topic.Traffic

/-! # The offset of a group

What a group has committed on a topic is a set of places (`Dealing.places`), and its offset is the
least place outside of that set, at every moment and whatever the order of the commits
(`Traffic.offset_is_first_uncommitted`).  The front of the group carries it: it is tidy, and the
places it stands for are those that the history names (`Traffic.Fronts`).  A message can be
committed only after somebody was given it, so the offset is never behind the end of the log, and
what is between the offset and the end is the lag.

A consumer that joins starts at the offset.  Each of its looks either gives it the next message or
finds the end of the log (`Dealing.Honest.catches_up`); so after as many looks as the lag was, it
has been given everything that the group had left.
-/

namespace Cutover

namespace Dealing

/-! ## The places that a history commits -/

/-- The places committed in a group. -/
def places (g : String) (h : List Dealing) : Set Nat := {k | ∃ d ∈ h, d.committed? g = some k}

/-- Whether it is a look of a consumer. -/
def isLook (c : Nat) : Dealing → Bool
  | .looked b _ => b == c
  | _ => false

variable {g : String} {h : List Dealing} {d : Dealing} {c k : Nat}

theorem mem_places : k ∈ places g h ↔ ∃ d ∈ h, d.committed? g = some k := Iff.rfl

theorem places_nil : places g [] = ∅ := by
  ext k
  simp [mem_places]

theorem places_snoc_of_none (hd : d.committed? g = none) : places g (h ++ [d]) = places g h := by
  ext k
  simp [mem_places, or_and_right, exists_or, hd]

theorem places_snoc_of_some (hd : d.committed? g = some k) :
    places g (h ++ [d]) = insert k (places g h) := by
  ext j
  simp [mem_places, or_and_right, exists_or, hd, or_comm, eq_comm]

theorem places_mono (h₁ h₂ : List Dealing) : places g h₁ ⊆ places g (h₁ ++ h₂) := by
  rintro k ⟨d, hd, hk⟩
  exact ⟨d, List.mem_append_left _ hd, hk⟩

/-- What has been looked at is in the log. -/
theorem Honest.looked_within (hh : Honest h) {m : Message} (hd : .looked c (.message m) ∈ h) :
    m.offset < (accepted h).length := by
  obtain ⟨past, after, rfl⟩ := List.append_of_mem hd
  obtain ⟨o, ms, -, hoffset, hlog⟩ := hh past _ after rfl
  obtain ⟨hlt, -⟩ := List.getElem?_eq_some_iff.mp hlog
  have hlonger := (prefix_accepted_append past (.looked c (.message m) :: after)).length_le
  omega

/-- What has been committed is in the log: somebody was given it before. -/
theorem Honest.places_within (hh : Honest h) (hk : k ∈ places g h) : k < (accepted h).length := by
  obtain ⟨d, hd, hk⟩ := hk
  obtain ⟨past, after, rfl⟩ := List.append_of_mem hd
  cases d with
  | committed b group m =>
    obtain ⟨c, hlooked⟩ := hh past _ after rfl
    have hbefore := hh.of_append.looked_within hlooked
    have hlonger := (prefix_accepted_append past (.committed b group m :: after)).length_le
    have hoffset : m.offset = k := by
      simp only [committed?, Option.ite_none_right_eq_some, Option.some.injEq] at hk
      exact hk.2
    omega
  | published p answer | produced e answer | closed | joined c s | looked c found | sought c o =>
    cases hk

/-- **A consumer that keeps looking catches up with the log**: since it was put at `o`, each of its
looks gave it a message, unless it had everything that was in the log when it was put there. -/
theorem Honest.catches_up {before during : List Dealing} {o : Nat}
    (hh : Honest (before ++ d :: during)) (hd : d.place? c = some o)
    (hnone : ∀ x ∈ during, x.place? c = none) :
    min (accepted before).length (o + during.countP (isLook c)) ≤
      o + (during.filterMap (message? c)).length := by
  induction during using List.reverseRecOn with
  | nil => exact Nat.min_le_right _ _
  | append_singleton during x ih =>
    rw [← List.cons_append, ← List.append_assoc] at hh
    obtain ⟨hbefore, hdue⟩ := honest_snoc.mp hh
    have hnone₀ : ∀ y ∈ during, y.place? c = none := fun y hy => hnone y (by simp [hy])
    have ih := ih hbefore hnone₀
    have hstands : Stands c (before ++ d :: during) o (during.filterMap (message? c)) :=
      ⟨before, d, during, rfl, hd, hnone₀, rfl⟩
    rw [List.countP_append, List.filterMap_append, List.length_append]
    by_cases hlook : x.isLook c = true
    · -- a look gives the next message, or the consumer is at the end of a log that has only grown
      obtain ⟨found, rfl⟩ : ∃ found, x = .looked c found := by
        cases x with
        | looked b found =>
          obtain rfl : b = c := by simpa [isLook] using hlook
          exact ⟨found, rfl⟩
        | published p answer | produced e answer | closed | joined c s | sought c o
        | committed c g m => cases hlook
      have hone : [Dealing.looked c found].countP (isLook c) = 1 := by simp [isLook]
      have hlonger := (prefix_accepted_append before (d :: during)).length_le
      obtain ⟨o', ms, hstands', hfinds⟩ := hdue
      obtain ⟨rfl, rfl⟩ := hstands.unique hstands'
      cases found with
      | message m =>
        have hgiven : ([Dealing.looked c (.message m)].filterMap (message? c)).length = 1 := by
          simp [message?]
        omega
      | closed =>
        obtain ⟨-, hend⟩ := hfinds
        omega
      | waiting =>
        obtain ⟨-, hend⟩ := hfinds
        omega
    · have hzero : [x].countP (isLook c) = 0 := by simp [hlook]
      omega

/-- A consumer that looks often enough has been given every message of the log from where it was
put. -/
theorem Honest.given_all {before during : List Dealing} {o : Nat} {p : Event.Payload}
    (hh : Honest (before ++ d :: during)) (hd : d.place? c = some o)
    (hnone : ∀ x ∈ during, x.place? c = none)
    (hlooks : (accepted before).length ≤ o + during.countP (isLook c)) (hk : o ≤ k)
    (hp : (accepted before)[k]? = some p) : .looked c (.message ⟨k, p⟩) ∈ during := by
  have hcaught := hh.catches_up hd hnone
  obtain ⟨hlt, -⟩ := List.getElem?_eq_some_iff.mp hp
  have hplace : k - o < (during.filterMap (message? c)).length := by omega
  obtain ⟨m, hm⟩ : ∃ m, (during.filterMap (message? c))[k - o]? = some m :=
    ⟨_, List.getElem?_eq_getElem hplace⟩
  have hstands : Stands c (before ++ d :: during) o (during.filterMap (message? c)) :=
    ⟨before, d, during, rfl, hd, hnone, rfl⟩
  obtain ⟨hoffset, hpayload⟩ := hh.delivered hstands hm
  have hback : o + (k - o) = k := by omega
  rw [hback] at hoffset hpayload
  rw [accepted_mono _ hp] at hpayload
  have hmessage : m = ⟨k, p⟩ := by
    rw [← hoffset, Option.some.inj hpayload]
  obtain ⟨x, hx, hgave⟩ := List.mem_filterMap.mp (List.mem_of_getElem? hm)
  rw [message?_eq_some, hmessage] at hgave
  rwa [← hgave]

end Dealing

namespace Traffic

open Dealing

variable {name : String} {g : String} {v v' : Traffic}

/-! ## The fronts of the groups -/

/-- The front of every group is tidy, and stands for the places that the history names. -/
def Fronts (v : Traffic) : Prop :=
  ∀ g, (v.topic.group g).Tidy ∧ (v.topic.group g).places = places g v.history

theorem fronts_start : Fronts (start name) := by
  intro g
  rw [show (start name).history = [] from rfl, places_nil]
  exact ⟨Group.tidy_empty, Group.places_empty⟩

/-- **One more dealing leaves the front of every group where the history says.** -/
theorem Fronts.step (hf : Fronts v) (h : Step v v') : Fronts v' := by
  obtain ⟨d, ha, -⟩ := h.adds
  intro g
  obtain ⟨htidy, hplaces⟩ := hf g
  rw [ha.group, ha.history]
  cases hd : d.committed? g with
  | none =>
    rw [places_snoc_of_none hd]
    exact ⟨htidy, hplaces⟩
  | some k =>
    obtain ⟨htidy', hplaces'⟩ := htidy.commit k
    rw [places_snoc_of_some hd, ← hplaces]
    exact ⟨htidy', hplaces'⟩

/-- In every run the fronts are where the history says. -/
theorem Fronts.reaches (hf : Fronts v) (h : Reaches v v') : Fronts v' := by
  induction h with
  | refl => exact hf
  | tail _ hstep ih => exact ih.step hstep

theorem Fronts.isLeast (hf : Fronts v) (g : String) :
    IsLeast {k | k ∉ places g v.history} (v.topic.committed g) := by
  obtain ⟨htidy, hplaces⟩ := hf g
  have hleast := htidy.isLeast
  rw [hplaces] at hleast
  exact hleast

/-- The offset is at most the length of the log, as what is committed has been published. -/
theorem Fronts.committed_le (hf : Fronts v) (hs : Sound v) (g : String) :
    v.topic.committed g ≤ v.topic.size := by
  have hend : v.topic.size ∉ places g v.history := by
    intro hcommitted
    have hlt := hs.honest.places_within hcommitted
    rw [hs.size_eq] at hlt
    exact Nat.lt_irrefl _ hlt
  exact (hf.isLeast g).2 hend

/-! ## Joining again -/

theorem reader_join (v : Traffic) (g : String) :
    (v.join g).readers[v.readers.length]? = some ⟨g, v.topic.committed g⟩ :=
  List.getElem?_concat_length

/-- A consumer that joins at the offset and looks as often as the lag says has been given every
message that the group had not committed. -/
theorem Fronts.delivered_again (hf : Fronts v) (hs : Sound v) {during : List Dealing}
    (hrun : Reaches (v.join g) v') (hh : v'.history = (v.join g).history ++ during)
    (hstay : ∀ x ∈ during, x.place? v.readers.length = none)
    (hlooks : v.topic.lag g ≤ during.countP (isLook v.readers.length))
    {k : Nat} {p : Event.Payload} (hk : k ∉ places g v.history) (hp : v.topic.log[k]? = some p) :
    .looked v.readers.length (.message ⟨k, p⟩) ∈ during := by
  have hs' : Sound v' := (hs.step (.joined g)).reaches hrun
  have hsplit : v'.history =
      v.history ++ .joined v.readers.length (.join v.topic g) :: during := by
    rw [hh, join, List.append_assoc]
    rfl
  have hput : (Dealing.joined v.readers.length (.join v.topic g)).place? v.readers.length =
      some (v.topic.committed g) := by
    simp [place?, Subscriber.join]
  have hhonest : Honest v'.history := hs'.honest
  rw [hsplit] at hhonest
  rw [hs.getElem?_log] at hp
  refine hhonest.given_all hput hstay ?_ ((hf.isLeast g).2 hk) hp
  have hwithin := hf.committed_le hs g
  have hlag : v.topic.lag g = v.topic.size - v.topic.committed g := rfl
  rw [← hs.size_eq]
  omega

/-! ## The offset -/

/-- What the offset of a group is, and what it is good for. -/
structure Accounted (g : String) (v : Traffic) : Prop where
  /-- It is the least place that no consumer of the group has committed. -/
  least : IsLeast {k | k ∉ places g v.history} (v.topic.committed g)
  /-- Only what is committed counts, neither the order nor how often. -/
  settled : ∀ name w, Reaches (start name) w → places g w.history = places g v.history →
    w.topic.committed g = v.topic.committed g
  grows : ∀ v', Reaches v v' → v.topic.committed g ≤ v'.topic.committed g
  within : v.topic.committed g ≤ v.topic.size
  lag : v.topic.lag g + v.topic.committed g = v.topic.size
  done : v.topic.lag g = 0 ↔ ∀ k < v.topic.size, k ∈ places g v.history
  /-- A commit in another group leaves the group alone. -/
  apart : ∀ v' c other m, Step v v' → v'.history = v.history ++ [.committed c other m] →
    other ≠ g → v'.topic.group g = v.topic.group g
  /-- A consumer that joins starts there. -/
  joined : (v.join g).readers[v.readers.length]? = some ⟨g, v.topic.committed g⟩
  /-- If it stays with its place, as many looks as the lag give it every message that was not
  committed. -/
  again : ∀ v' during, Reaches (v.join g) v' → v'.history = (v.join g).history ++ during →
    (∀ x ∈ during, x.place? v.readers.length = none) →
    v.topic.lag g ≤ during.countP (isLook v.readers.length) →
    ∀ k p, k ∉ places g v.history → v.topic.log[k]? = some p →
      .looked v.readers.length (.message ⟨k, p⟩) ∈ during

/-- **The offset of a group is the first place that it has not committed**, in every run: no commit
covers a message that has not been committed, whatever the order of the commits. -/
theorem offset_is_first_uncommitted (g : String) (h : Reaches (start name) v) : Accounted g v := by
  have hs : Sound v := sound_start.reaches h
  have hf : Fronts v := fronts_start.reaches h
  have hwithin : v.topic.committed g ≤ v.topic.size := hf.committed_le hs g
  have hlag : v.topic.lag g + v.topic.committed g = v.topic.size := Nat.sub_add_cancel hwithin
  refine ⟨hf.isLeast g, ?_, ?_, hwithin, hlag, ?_, ?_, reader_join v g, ?_⟩
  · intro name w hrun hsame
    have hleast := (fronts_start.reaches hrun).isLeast g
    rw [hsame] at hleast
    exact hleast.unique (hf.isLeast g)
  · intro v' hrun
    obtain ⟨after, hafter⟩ := hrun.history
    have hnot := ((hf.reaches hrun).isLeast g).1
    rw [hafter] at hnot
    exact (hf.isLeast g).2 fun hin => hnot (places_mono _ _ hin)
  · constructor
    · intro hzero k hk
      by_contra hnot
      have hle := (hf.isLeast g).2 hnot
      omega
    · intro hall
      by_contra hpos
      exact (hf.isLeast g).1 (hall _ (by omega))
  · intro v' c other m hstep hh hne
    have hgroup := (hstep.adds_of_history hh).group g
    rw [committed?, if_neg hne] at hgroup
    exact hgroup
  · intro v' during hrun hh hstay hlooks k p hk hp
    exact hf.delivered_again hs hrun hh hstay hlooks hk hp

theorem offset_is_first_uncommitted_sample :
    ∃ v, Reaches (start "events") v ∧ v.history = sampleHistory ∧ Accounted "fix" v := by
  obtain ⟨v, hrun, hhistory⟩ := reaches_sample
  exact ⟨v, hrun, hhistory, offset_is_first_uncommitted "fix" hrun⟩

end Traffic
end Cutover
