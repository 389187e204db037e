import Cutover.Proofs.Consumer.Handling
import Cutover.Proofs.History
import Cutover.Proofs.Topic.Commit

/-! # What the consumers of a group have done

The consumers of a group come one after the other: one joins, takes messages, and is stopped or
lost, and then the next one joins.  What they do is a history of deeds.  Most deeds need a reason,
and it lies in the deeds before them: a message is committed because handling it has resolved it, a
message is taken because every place in front of it has been committed, a consumer starts where the
first message is that no one has resolved, and what a consumer tells at its end is what it has done
(`Warranted`).  A history in which every deed has its reason is *vouched for* (`Vouched`); it is
enough to look at each deed when it is done (`Vouched.snoc`).
-/

namespace Cutover

open Dialogue

/-- What a consumer of the group does, or what happens to it. -/
inductive Deed where
  /-- A consumer joins the group; it reads this place next. -/
  | began (position : Nat)
  | received (m : Message)
  /-- The stores or the clock were asked while a message is handled. -/
  | worked (e : Exchange Work)
  | committed (m : Message)
  /-- The consumer returns to a place, to take its message again. -/
  | handedBack (offset : Nat)
  /-- The topic is closed and nothing is left in it. -/
  | sawEnd
  /-- A look for a message that found none, or a rest. -/
  | idled
  /-- A consumer has stopped; this is what it counted. -/
  | ended (t : FixTally)
  | lost

namespace Deed

/-- The place that a deed commits. -/
def place? : Deed → Option Nat
  | .committed m => some m.offset
  | _ => none

/-- Whether a message is handed back. -/
def isHandBack : Deed → Bool
  | .handedBack _ => true
  | _ => false

/-- Whether a consumer joins. -/
def isBegin : Deed → Bool
  | .began _ => true
  | _ => false

/-- The places that were committed, in the order of the commits. -/
def commits (h : List Deed) : List Nat := h.filterMap place?

/-- How often a message was handed back. -/
def handBacks (h : List Deed) : Nat := h.countP isHandBack

/-- The deeds since a consumer joined last. -/
def run (h : List Deed) : List Deed :=
  h.foldl (fun ds d => if d.isBegin then [] else ds ++ [d]) []

variable (h h' : List Deed) (d : Deed)

@[simp]
theorem commits_append : commits (h ++ h') = commits h ++ commits h' := List.filterMap_append

@[simp]
theorem commits_cons : commits (d :: h) = d.place?.toList ++ commits h := by
  unfold commits
  cases hd : d.place? with
  | none => simp [hd]
  | some k => simp [hd]

@[simp]
theorem commits_nil : commits [] = [] := rfl

@[simp]
theorem commits_worked (es : List (Exchange Work)) : commits (es.map .worked) = [] := by
  induction es with
  | nil => rfl
  | cons e es ih => rw [List.map_cons, commits_cons, ih]; rfl

@[simp]
theorem handBacks_snoc : handBacks (h ++ [d]) = handBacks h + d.isHandBack.toNat := by
  cases hd : d.isHandBack <;> simp [handBacks, hd]

@[simp]
theorem run_snoc : run (h ++ [d]) = if d.isBegin then [] else run h ++ [d] := by
  simp [run]

end Deed

/-- What is no work comes after a stretch of work, not within it. -/
theorem Deed.worked_append_eq {es : List (Exchange Work)} {later a b : List Deed} {d : Deed}
    (hd : ∀ e, d ≠ .worked e) (he : es.map Deed.worked ++ later = a ++ d :: b) :
    ∃ later', a = es.map Deed.worked ++ later' ∧ later = later' ++ d :: b := by
  rcases List.append_eq_append_iff.mp he with ⟨mid, ha, hb⟩ | ⟨mid, ha, hb⟩
  · exact ⟨mid, ha, hb⟩
  · cases mid with
    | nil => exact ⟨[], by simpa using ha.symm, by simpa using hb.symm⟩
    | cons z mid =>
      obtain ⟨rfl, -⟩ := List.cons.inj hb
      have hmem : d ∈ es.map Deed.worked := by
        rw [ha]
        simp
      obtain ⟨e, -, rfl⟩ := List.mem_map.mp hmem
      exact absurd rfl (hd e)

/-! ## Messages that have been resolved -/

section
variable (c : Consumer)

/-- Some handling of the message at a place has resolved it. -/
def ResolvedIn (h : List Deed) (k : Nat) : Prop :=
  ∃ earlier m es later, h = earlier ++ .received m :: (es.map .worked ++ later) ∧ m.offset = k ∧
    c.Resolves m.payload es

variable {c} {h : List Deed} {k : Nat}

/-- Deeds outside of a handling resolve nothing. -/
theorem resolvedIn_snoc {d : Deed} (hw : ∀ e, d ≠ .worked e) (hr : ∀ m, d ≠ .received m) :
    ResolvedIn c (h ++ [d]) k ↔ ResolvedIn c h k := by
  constructor
  · rintro ⟨earlier, m, es, later, hsplit, hk, hes⟩
    rcases snoc_eq_append_cons hsplit with ⟨-, hm, -⟩ | ⟨b, hb, hh⟩
    · exact absurd hm.symm (hr m)
    · obtain ⟨later', rfl, -⟩ := Deed.worked_append_eq hw hb
      exact ⟨earlier, m, es, later', hh, hk, hes⟩
  · rintro ⟨earlier, m, es, later, rfl, hk, hes⟩
    exact ⟨earlier, m, es, later ++ [d], by simp, hk, hes⟩

/-- If the beginning of a complete handling resolves a payload, it is the whole of it. -/
theorem Consumer.Resolves.of_append {payload : Event.Payload} {es fs : List (Exchange Work)}
    {o : Retry.Outcome FixOutcome} (hes : c.Resolves payload es)
    (hl : Leads (c.handle payload) (es ++ fs) (.done o)) : fs = [] := by
  rcases hes with ⟨e, he, -, rfl⟩ | ⟨-, outcome, -, -, -, -, -, hdone⟩
  · rw [List.nil_append, Consumer.handle, he] at hl
    exact hl.of_done.1
  · obtain ⟨d, hd, hrest⟩ := leads_append.mp hl
    cases hd.unique hdone
    exact hrest.of_done.1

/-- **What one complete handling adds**: the place of its message, if it has resolved it. -/
theorem resolvedIn_handled {m : Message} {es : List (Exchange Work)}
    {o : Retry.Outcome FixOutcome} (hl : Leads (c.handle m.payload) es (.done o)) :
    ResolvedIn c (h ++ .received m :: es.map .worked) k ↔
      ResolvedIn c h k ∨ (m.offset = k ∧ c.Resolves m.payload es) := by
  constructor
  · rintro ⟨earlier, m', fs, later, hsplit, hk, hfs⟩
    -- the handling that resolved it began behind the start of the last one, with it, or before it
    rcases append_cons_cases hsplit with ⟨mid, -, hmid⟩ | ⟨-, hm, hmap⟩ | ⟨mid, rfl, hmid⟩
    · have hmem : Deed.received m' ∈ es.map Deed.worked := by
        rw [hmid]
        simp
      obtain ⟨e, -, he⟩ := List.mem_map.mp hmem
      cases he
    · cases hm
      obtain ⟨es₁, es₂, rfl, hes₁, -⟩ := List.map_eq_append_iff.mp hmap
      have hsame : es₁ = fs :=
        (List.map_inj_right fun a b hab => Deed.worked.inj hab).mp hes₁
      subst hsame
      cases hfs.of_append hl
      rw [List.append_nil]
      exact .inr ⟨hk, hfs⟩
    · obtain ⟨later', rfl, -⟩ := Deed.worked_append_eq (fun e => by simp) hmid
      exact .inl ⟨earlier, m', fs, later', rfl, hk, hfs⟩
  · rintro (⟨earlier, m', fs, later, rfl, hk, hfs⟩ | ⟨hk, hes⟩)
    · exact ⟨earlier, m', fs, later ++ .received m :: es.map .worked, by simp, hk, hfs⟩
    · exact ⟨h, m, es, [], by simp, hk, hes⟩

/-- The messages that have been resolved are those in front of a place. -/
def ResolvedUpTo (c : Consumer) (h : List Deed) (n : Nat) : Prop := ∀ k, ResolvedIn c h k ↔ k < n

/-- Deeds outside of a handling leave it there. -/
theorem ResolvedUpTo.snoc {n : Nat} {d : Deed} (hres : ResolvedUpTo c h n)
    (hw : ∀ e, d ≠ .worked e) (hr : ∀ m, d ≠ .received m) : ResolvedUpTo c (h ++ [d]) n :=
  fun k => (resolvedIn_snoc hw hr).trans (hres k)

/-- A handling that resolves the message at that place moves it by one. -/
theorem ResolvedUpTo.resolved {m : Message} {es : List (Exchange Work)}
    {o : Retry.Outcome FixOutcome} (hres : ResolvedUpTo c h m.offset)
    (hl : Leads (c.handle m.payload) es (.done o)) (hes : c.Resolves m.payload es) :
    ResolvedUpTo c (h ++ .received m :: es.map .worked) (m.offset + 1) := by
  intro k
  rw [resolvedIn_handled hl, hres k]
  constructor
  · rintro (hk | ⟨hk, -⟩) <;> omega
  · intro hk
    by_cases hlt : k < m.offset
    · exact .inl hlt
    · exact .inr ⟨by omega, hes⟩

/-- A handling that does not resolve its message leaves it there. -/
theorem ResolvedUpTo.unresolved {n : Nat} {m : Message} {es : List (Exchange Work)}
    {o : Retry.Outcome FixOutcome} (hres : ResolvedUpTo c h n)
    (hl : Leads (c.handle m.payload) es (.done o)) (hes : ¬ c.Resolves m.payload es) :
    ResolvedUpTo c (h ++ .received m :: es.map .worked) n := by
  intro k
  rw [resolvedIn_handled hl, hres k]
  simp [hes]

theorem resolvedUpTo_nil : ResolvedUpTo c [] 0 := by
  intro k
  constructor
  · rintro ⟨earlier, m, es, later, hsplit, -⟩
    simp at hsplit
  · intro hk
    exact absurd hk (Nat.not_lt_zero k)

end

/-! ## Reasons -/

/-- A tally counts the commits and the hand-backs among the deeds. -/
def Counts (t : FixTally) (ds : List Deed) : Prop :=
  t.upserted + t.deleted + t.skipped = (Deed.commits ds).length ∧ t.failed = Deed.handBacks ds

theorem Counts.snoc {t : FixTally} {h : List Deed} {d : Deed} (hcounts : Counts t (Deed.run h))
    (hb : d.isBegin = false) (hp : d.place? = none) (hh : d.isHandBack = false) :
    Counts t (Deed.run (h ++ [d])) := by
  unfold Counts at *
  simpa [hb, hp, hh] using hcounts

/-- A commit is counted as a row written, a row deleted or a message passed over. -/
theorem Counts.commit {t t' : FixTally} {h : List Deed} (hcounts : Counts t (Deed.run h))
    (hmore : t'.upserted + t'.deleted + t'.skipped = t.upserted + t.deleted + t.skipped + 1)
    (hfailed : t'.failed = t.failed) (m : Message) :
    Counts t' (Deed.run (h ++ [.committed m])) := by
  obtain ⟨hsum, hfails⟩ := hcounts
  constructor
  · rw [hmore, hsum]
    simp [Deed.isBegin, Deed.place?]
  · rw [hfailed, hfails]
    simp [Deed.isBegin, Deed.isHandBack]

/-- A hand-back is counted as a failure. -/
theorem Counts.handBack {t : FixTally} {h : List Deed} (hcounts : Counts t (Deed.run h)) (k : Nat) :
    Counts t.fail (Deed.run (h ++ [.handedBack k])) := by
  obtain ⟨hsum, hfails⟩ := hcounts
  constructor
  · show t.upserted + t.deleted + t.skipped = _
    rw [hsum]
    simp [Deed.isBegin, Deed.place?]
  · show t.failed + 1 = _
    rw [hfails]
    simp [Deed.isBegin, Deed.isHandBack]

/-- The reason of a deed in the deeds before it. -/
def Warranted (c : Consumer) (topic : Topic) (before : List Deed) : Deed → Prop
  | .began p => Deed.commits before = List.range p ∧ ResolvedUpTo c before p
  | .received m => topic.log[m.offset]? = some m.payload ∧ Deed.commits before = List.range m.offset
  | .committed m =>
    ∃ earlier es, before = earlier ++ .received m :: es.map .worked ∧ c.Resolves m.payload es
  | .sawEnd => topic.closed = true ∧ Deed.commits before = List.range topic.size
  | .ended t => Counts t (Deed.run before)
  | _ => True

/-- Every deed of a history has its reason. -/
def Vouched (c : Consumer) (topic : Topic) (h : List Deed) : Prop :=
  ∀ before d after, h = before ++ d :: after → Warranted c topic before d

section
variable {c : Consumer} {topic topic' : Topic} {h : List Deed} {d : Deed}

theorem vouched_nil : Vouched c topic [] := by
  intro before d after hsplit
  simp at hsplit

/-- **A history stays vouched for if its next deed has a reason.** -/
theorem Vouched.snoc (hv : Vouched c topic h) (hd : Warranted c topic h d) :
    Vouched c topic (h ++ [d]) := by
  intro before x after hsplit
  rcases snoc_eq_append_cons hsplit with ⟨rfl, rfl, -⟩ | ⟨after', -, hh⟩
  · exact hd
  · exact hv before x after' hh

/-- Reasons outlast what happens to the topic: its log grows, and not once it is closed. -/
theorem Vouched.mono (hlog : ∀ (k : Nat) p, topic.log[k]? = some p → topic'.log[k]? = some p)
    (hclosed : topic.closed = true → topic'.closed = true ∧ topic'.size = topic.size)
    (hv : Vouched c topic h) : Vouched c topic' h := by
  intro before d after hsplit
  have hd := hv before d after hsplit
  cases d with
  | received m => exact ⟨hlog _ _ hd.1, hd.2⟩
  | sawEnd =>
    obtain ⟨hc, hn⟩ := hd
    obtain ⟨hc', hsize⟩ := hclosed hc
    exact ⟨hc', hsize ▸ hn⟩
  | began p => exact hd
  | committed m => exact hd
  | ended t => exact hd
  | worked e => trivial
  | handedBack k => trivial
  | idled => trivial
  | lost => trivial

/-- Between two deeds something was taken if something was committed. -/
theorem Vouched.commits_eq_nil {before during after : List Deed} {p : Nat}
    (hv : Vouched c topic (before ++ .began p :: (during ++ after)))
    (hnone : ∀ m, Deed.received m ∉ during) : Deed.commits during = [] := by
  refine List.filterMap_eq_nil_iff.mpr fun d hd => ?_
  cases d with
  | committed m =>
    obtain ⟨during₁, during₂, rfl⟩ := List.append_of_mem hd
    obtain ⟨earlier, es, hsplit, -⟩ :=
      hv (before ++ .began p :: during₁) (.committed m) (during₂ ++ after) (by simp)
    -- the message was taken before the commit, with nothing but work between
    rcases append_cons_cases hsplit with ⟨mid, -, hmid⟩ | ⟨-, hm, -⟩ | ⟨mid, -, hmid⟩
    · refine absurd ?_ (hnone m)
      rw [hmid]
      simp
    · cases hm
    · have hmem : Deed.began p ∈ es.map Deed.worked := by
        rw [hmid]
        simp
      obtain ⟨e, -, he⟩ := List.mem_map.mp hmem
      cases he
  | _ => rfl

/-- **The first message that a consumer takes is the first that has not been resolved.** -/
theorem Vouched.first_taken {before during after : List Deed} {p : Nat} {m : Message}
    (hv : Vouched c topic (before ++ .began p :: (during ++ .received m :: after)))
    (hnone : ∀ m', Deed.received m' ∉ during) :
    m.offset = p ∧ ResolvedUpTo c before m.offset := by
  obtain ⟨hp, hresolved⟩ := hv before (.began p) _ rfl
  obtain ⟨-, hm⟩ := hv (before ++ .began p :: during) (.received m) after (by simp)
  have hduring : Deed.commits during = [] := hv.commits_eq_nil hnone
  have hrange : List.range p = List.range m.offset := by
    rw [← hp, ← hm, Deed.commits_append, Deed.commits_cons, hduring]
    simp [Deed.place?]
  have hoffset : m.offset = p := by
    have hlength := congrArg List.length hrange
    simpa using hlength.symm
  exact ⟨hoffset, hoffset ▸ hresolved⟩

end
end Cutover
