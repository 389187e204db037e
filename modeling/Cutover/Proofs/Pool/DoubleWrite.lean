import Cutover.Proofs.Pool.Engine

/-! # Double writes keep equal stores equal

While every phase writes both stores, a write of the pool is a write on the one that is
authoritative and, if that succeeded, the same write on the other.  Of stores whose answers depend
on their content alone, the second write can only end as the first did.  A write that fails on the
authoritative store is not repeated, but it has changed nothing there, and repeating it would change
nothing on the other store either.  So in either case both stores are as if each had carried out the
call by itself (`Did`).

That reduces the pool to two stores side by side.  What is kept by every order (`Level`) is that
their contents are the same and that every open transaction has a branch on both, with equal work
behind the two branches.  The two stores number their transactions each in its own way; different
open transactions never share a number on a side, so what is done in one leaves the work of the
others alone.  Which of its branches a transaction has first does not matter, so neither does a
switch of the phase while it is open.
-/

namespace Cutover

open Dialogue Pool

/-- Orders that write, and those that begin and end transactions. -/
def Order.Writes : Order → Prop
  | .exec _ | .begin | .execIn .. | .commit _ | .rollback _ | .drop _ => True
  | .query _ | .queryRow _ | .columns _ | .queryIn .. | .queryRowIn .. => False

namespace Pool.Transaction

variable (t : Transaction)

/-- The number of the branch on a side. -/
def number (d : Side) : Nat :=
  if d = t.primary.side then t.primary.tx else (t.secondary.map (·.tx)).getD 0

/-- Whether there are branches on both sides. -/
def Spans : Prop := t.secondary.map (·.side) = some t.primary.side.other

variable {t}

theorem number_primary : t.number t.primary.side = t.primary.tx := if_pos rfl

theorem Spans.secondary (h : t.Spans) :
    t.secondary = some ⟨t.primary.side.other, t.number t.primary.side.other⟩ := by
  obtain ⟨b, hb, hside⟩ := Option.map_eq_some_iff.mp h
  have hnumber : t.number t.primary.side.other = b.tx := by
    rw [number, if_neg t.primary.side.other_ne, hb]
    rfl
  rw [hb, hnumber, ← hside]

theorem Spans.repeatCall (h : t.Spans) (c : Nat → Call) :
    t.repeatCall c =
      repeatOn (some t.primary.side.other) (c (t.number t.primary.side.other)) := by
  rw [Transaction.repeatCall, h.secondary]
  rfl

end Pool.Transaction

/-! ## Both stores carry out a call -/

namespace Site

variable {σ : Side → Type} {S : Site σ} {m m' : Moment σ} {c : Side → Call} {on : Side}

/-- Between two moments, each of the two stores has carried out a call. -/
def Did (S : Site σ) (c : Side → Call) (m m' : Moment σ) : Prop :=
  ∀ d, m'.held d = ((S.backend d).carry (c d) (m.held d)).2

/-- A call, and its repetition if it succeeded, are done on both sides, if the one that fails would
have changed nothing on the other. -/
theorem did_followedBy
    (hfail : ∀ e x, (S.backend on).carry (c on) (m.held on) = (.error e, x) →
      ((S.backend on.other).carry (c on.other) (m.held on.other)).2 = m.held on.other) :
    S.Did c m (S.carryOut (followedBy on (c on) (repeatOn (some on.other) (c on.other))) m).2 := by
  intro d
  rw [carryOut_followedBy]
  rcases hcall : (S.backend on).carry (c on) (m.held on) with ⟨e | r, x⟩
  · obtain rfl | rfl := d.eq_or_eq_other on
    · rw [hcall]
      exact m.held_put_self d x
    · rw [hfail e x hcall]
      exact m.held_put_of_ne on.other_ne x
  · dsimp only
    rw [carryOut_repeatOn]
    have hrest : (m.put on x).held on.other = m.held on.other := m.held_put_of_ne on.other_ne x
    obtain rfl | rfl := d.eq_or_eq_other on
    · rw [Moment.held_put_of_ne _ d.other_ne.symm, hcall]
      exact m.held_put_self d x
    · rw [Moment.held_put_self, hrest]

/-- The end of a transaction is done on both sides, if the one that fails lets the other branch
go. -/
theorem did_ending {t : Transaction} (ht : t.Spans)
    (hfail : ∀ e x, (S.backend t.primary.side).carry (c t.primary.side) (m.held t.primary.side) =
        (.error e, x) →
      ((S.backend t.primary.side.other).carry (c t.primary.side.other)
          (m.held t.primary.side.other)).2 =
        (S.backend t.primary.side.other).release (t.number t.primary.side.other)
          (m.held t.primary.side.other)) :
    S.Did c m (S.ending t (followedBy t.primary.side (c t.primary.side)
      (repeatOn (some t.primary.side.other) (c t.primary.side.other))) m).2 := by
  have hne := t.primary.side.other_ne
  intro d
  rw [ending_followedBy]
  rcases hcall : (S.backend t.primary.side).carry (c t.primary.side) (m.held t.primary.side) with
    ⟨e | r, x⟩
  · have hrest : (m.put t.primary.side x).held t.primary.side.other = m.held t.primary.side.other :=
      m.held_put_of_ne hne x
    dsimp only
    rw [S.releaseSecond_of_some ht.secondary]
    obtain rfl | rfl := d.eq_or_eq_other t.primary.side
    · rw [hcall, S.held_release_of_ne hne.symm]
      exact m.held_put_self _ x
    · rw [hfail e x hcall, ← hrest]
      exact S.held_release_self ⟨t.primary.side.other, t.number t.primary.side.other⟩ _
  · have hokay : ∀ e y, (S.backend t.primary.side).carry (c t.primary.side)
      (m.held t.primary.side) =
        (.error e, y) → ((S.backend t.primary.side.other).carry (c t.primary.side.other)
          (m.held t.primary.side.other)).2 = m.held t.primary.side.other := by
      intro e y hy
      rw [hcall] at hy
      cases hy
    have hdone := did_followedBy hokay d
    rw [carryOut_followedBy, hcall] at hdone
    exact hdone

/-- A transaction that is let go is let go on both sides. -/
theorem drop_held {t : Transaction} (ht : t.Spans) (d : Side) :
    (S.service.drop t m).held d = (S.backend d).release (t.number d) (m.held d) := by
  show (S.releaseSecond t (S.release t.primary m)).held d = _
  rw [S.releaseSecond_of_some ht.secondary]
  have hne := t.primary.side.other_ne
  obtain rfl | rfl := d.eq_or_eq_other t.primary.side
  · rw [S.held_release_of_ne hne.symm, t.number_primary]
    exact S.held_release_self t.primary m
  · rw [← S.held_release_of_ne hne m]
    exact S.held_release_self ⟨t.primary.side.other, t.number t.primary.side.other⟩ _

end Site

/-! ## What every order keeps -/

section
variable {α κ : Type} {E : Engine α κ} {phase : Nat → Phase}
  {c c' : Client (Moment fun _ => Holding α κ) Transaction}

/-- **The stores are level for a client**: they have the same content, and every open transaction
has equal work behind its two branches, under numbers of its own. -/
structure Level (c : Client (Moment fun _ => Holding α κ) Transaction) : Prop where
  contents : ∀ d d', (c.state.held d).contents = (c.state.held d').contents
  spans : ∀ i t, c.open? i = some t → t.Spans
  copies : ∀ i t, c.open? i = some t → ∃ k, ∀ d, (c.state.held d).copies (t.number d) = some k
  fresh : ∀ i t, c.open? i = some t → ∀ d, t.number d < (c.state.held d).next
  apart : ∀ i j t u, c.open? i = some t → c.open? j = some u → i ≠ j →
    ∀ d, t.number d ≠ u.number d

namespace Level

theorem start {m : Moment fun _ => Holding α κ}
    (hsame : (m.held .src).contents = (m.held .dst).contents) : Level ⟨m, []⟩ := by
  have hnone : ∀ i, (⟨m, []⟩ : Client _ Transaction).open? i = none := fun _ => rfl
  constructor
  case contents =>
    intro d d'
    obtain rfl | rfl := d.eq_or_eq_other d'
    · rfl
    · cases d'
      · exact hsame.symm
      · exact hsame
  all_goals simp [hnone]

/-- While no transaction begins, only the contents and the work of the open transactions are to be
looked at. -/
theorem of_copies (h : Level c) (hopen : ∀ i t, c'.open? i = some t → c.open? i = some t)
    (hcontents : ∀ d d', (c'.state.held d).contents = (c'.state.held d').contents)
    (hnext : ∀ d, (c'.state.held d).next = (c.state.held d).next)
    (hcopies : ∀ i t, c'.open? i = some t →
      ∃ k, ∀ d, (c'.state.held d).copies (t.number d) = some k) : Level c' where
  contents := hcontents
  spans i t ht := h.spans i t (hopen i t ht)
  copies := hcopies
  fresh i t ht d := by
    rw [hnext d]
    exact h.fresh i t (hopen i t ht) d
  apart i j t u ht hu := h.apart i j t u (hopen i t ht) (hopen j u hu)

/-! ### The pool's calls are done on both sides -/

/-- A statement of the pool, in a phase that writes both stores. -/
theorem did_exec (h : Level c) (hphase : ∀ n, (phase n).writesBoth) (s : Statement) :
    (E.site phase).Did (fun _ => .exec s) c.state
      ((E.site phase).carryOut (Pool.exec s) c.state).2 := by
  have hsecondary := Phase.secondary?_eq (hphase c.state.time)
  rw [Pool.exec_eq, Site.carryOut_phase]
  show Site.Did _ _ c.state.tick _
  simp only [Engine.site, hsecondary]
  refine Site.did_followedBy fun e x hfail => ?_
  have hsame :=
    h.contents (phase c.state.time).authoritative.other (phase c.state.time).authoritative
  exact E.statement_kept hsame hfail

/-- A statement of the pool in an open transaction. -/
theorem did_execIn (h : Level c) {n : Nat} {t : Transaction} (ht : c.open? n = some t)
    (s : Statement) :
    (E.site phase).Did (fun d => .txExec (t.number d) s) c.state
      ((E.site phase).carryOut (t.exec s) c.state).2 := by
  obtain ⟨k, hk⟩ := h.copies n t ht
  rw [t.exec_eq, (h.spans n t ht).repeatCall, ← t.number_primary]
  refine Site.did_followedBy (c := fun d => .txExec (t.number d) s) fun e x hfail => ?_
  exact E.statementIn_kept (hk _) (hk _) hfail

/-- The end of an open transaction with effect. -/
theorem did_commit (h : Level c) {n : Nat} {t : Transaction} (ht : c.open? n = some t) :
    (E.site phase).Did (fun d => .txCommit (t.number d)) c.state
      ((E.site phase).ending t t.commit c.state).2 := by
  obtain ⟨k, hk⟩ := h.copies n t ht
  have hspans := h.spans n t ht
  rw [t.commit_eq, hspans.repeatCall, ← t.number_primary]
  refine Site.did_ending (c := fun d => .txCommit (t.number d)) hspans fun e x hfail => ?_
  have hsame := h.contents t.primary.side.other t.primary.side
  exact E.commit_kept (hk _) (hk _) hsame hfail

/-- The end of an open transaction without effect. -/
theorem did_rollback (h : Level c) {n : Nat} {t : Transaction} (ht : c.open? n = some t) :
    (E.site phase).Did (fun d => .txRollback (t.number d)) c.state
      ((E.site phase).ending t t.rollback c.state).2 := by
  obtain ⟨k, hk⟩ := h.copies n t ht
  have hspans := h.spans n t ht
  rw [t.rollback_eq, hspans.repeatCall, ← t.number_primary]
  refine Site.did_ending (c := fun d => .txRollback (t.number d)) hspans fun e x hfail => ?_
  exact E.rollback_snd (hk _)

/-! ### What a call done on both sides keeps -/

/-- Nothing has changed. -/
theorem of_held (h : Level c) {m : Moment fun _ => Holding α κ}
    (hm : ∀ d, m.held d = c.state.held d) : Level { c with state := m } := by
  refine h.of_copies (fun i t ht => ht) ?_ ?_ ?_
  · intro d d'
    show (m.held d).contents = (m.held d').contents
    rw [hm d, hm d']
    exact h.contents d d'
  · exact fun d => congrArg Holding.next (hm d)
  · intro i t ht
    obtain ⟨k, hk⟩ := h.copies i t ht
    refine ⟨k, fun d => ?_⟩
    show (m.held d).copies _ = _
    rw [hm d]
    exact hk d

/-- A statement outside transactions. -/
theorem exec (h : Level c) {s : Statement} {m : Moment fun _ => Holding α κ}
    (hm : (E.site phase).Did (fun _ => .exec s) c.state m) : Level { c with state := m } := by
  have heffect (d : Side) :
      m.held d = { c.state.held d with contents := E.after s (c.state.held d).contents } :=
    (hm d).trans (E.statement_snd _ s)
  refine h.of_copies (fun i t ht => ht) ?_ ?_ ?_
  · intro d d'
    show (m.held d).contents = (m.held d').contents
    rw [heffect d, heffect d', h.contents d d']
  · intro d
    show (m.held d).next = _
    rw [heffect d]
  · intro i t ht
    obtain ⟨k, hk⟩ := h.copies i t ht
    refine ⟨k, fun d => ?_⟩
    show (m.held d).copies _ = _
    rw [heffect d]
    exact hk d

/-- A statement in a transaction. -/
theorem execIn (h : Level c) {n : Nat} {t : Transaction} (ht : c.open? n = some t) {s : Statement}
    {m : Moment fun _ => Holding α κ}
    (hm : (E.site phase).Did (fun d => .txExec (t.number d) s) c.state m) :
    Level { c with state := m } := by
  obtain ⟨k, hk⟩ := h.copies n t ht
  have heffect (d : Side) :
      m.held d = (c.state.held d).setCopy (t.number d) (some (E.afterIn s k)) :=
    (hm d).trans (E.statementIn_snd (hk d) _ s)
  refine h.of_copies (fun i u hu => hu) ?_ ?_ ?_
  · intro d d'
    show (m.held d).contents = (m.held d').contents
    rw [heffect d, heffect d']
    exact h.contents d d'
  · intro d
    show (m.held d).next = _
    rw [heffect d]
    rfl
  · intro i u hu
    by_cases hi : i = n
    · subst hi
      obtain rfl : t = u := Option.some.inj (ht.symm.trans hu)
      refine ⟨E.afterIn s k, fun d => ?_⟩
      show (m.held d).copies _ = _
      rw [heffect d]
      exact Holding.copies_setCopy_self _ _ _
    · obtain ⟨l, hl⟩ := h.copies i u hu
      refine ⟨l, fun d => ?_⟩
      show (m.held d).copies _ = _
      rw [heffect d, Holding.copies_setCopy_of_ne _ (h.apart i n u t hu ht hi d)]
      exact hl d

/-- The end of a transaction, whatever it makes of the content. -/
theorem ended (h : Level c) {n : Nat} {t : Transaction} (ht : c.open? n = some t) {f : α → α}
    {m : Moment fun _ => Holding α κ}
    (hm : ∀ d, m.held d =
      { (c.state.held d).setCopy (t.number d) none with contents := f (c.state.held d).contents }) :
    Level { c.forget n with state := m } := by
  have hopen : ∀ i u, ({ c.forget n with state := m } : Client _ Transaction).open? i = some u →
      i ≠ n ∧ c.open? i = some u := by
    intro i u hu
    have hforget : (c.forget n).open? i = some u := hu
    rw [Client.open?_forget] at hforget
    split at hforget
    · cases hforget
    · exact ⟨‹_›, hforget⟩
  refine h.of_copies (fun i u hu => (hopen i u hu).2) ?_ ?_ ?_
  · intro d d'
    show (m.held d).contents = (m.held d').contents
    rw [hm d, hm d', h.contents d d']
  · intro d
    show (m.held d).next = _
    rw [hm d]
    rfl
  · intro i u hu
    obtain ⟨hi, hu⟩ := hopen i u hu
    obtain ⟨l, hl⟩ := h.copies i u hu
    refine ⟨l, fun d => ?_⟩
    show (m.held d).copies _ = _
    rw [hm d]
    exact (Holding.copies_setCopy_of_ne _ (h.apart i n u t hu ht hi d) _).trans (hl d)

/-- The beginning of a transaction with a branch on both sides. -/
theorem begun (h : Level c) {t : Transaction} (ht : t.Spans)
    (hnumber : ∀ d, t.number d = (c.state.held d).next) {k : κ} {m : Moment fun _ => Holding α κ}
    (hm : ∀ d, m.held d =
      { (c.state.held d).setCopy (t.number d) (some k) with next := (c.state.held d).next + 1 }) :
    Level ⟨m, c.begun ++ [some t]⟩ := by
  -- an older transaction has an older number on either side
  have holder : ∀ i u, c.open? i = some u → ∀ d, u.number d ≠ t.number d := by
    intro i u hu d
    rw [hnumber d]
    exact Nat.ne_of_lt (h.fresh i u hu d)
  constructor
  case contents =>
    intro d d'
    show (m.held d).contents = (m.held d').contents
    rw [hm d, hm d']
    exact h.contents d d'
  case spans =>
    intro i u hu
    obtain ⟨-, rfl⟩ | hu := Client.open?_snoc hu
    · exact ht
    · exact h.spans i u hu
  case copies =>
    intro i u hu
    obtain ⟨-, rfl⟩ | hu := Client.open?_snoc hu
    · refine ⟨k, fun d => ?_⟩
      show (m.held d).copies _ = _
      rw [hm d]
      exact Holding.copies_setCopy_self _ _ _
    · obtain ⟨l, hl⟩ := h.copies i u hu
      refine ⟨l, fun d => ?_⟩
      show (m.held d).copies _ = _
      rw [hm d]
      exact (Holding.copies_setCopy_of_ne _ (holder i u hu d) _).trans (hl d)
  case fresh =>
    intro i u hu d
    show _ < (m.held d).next
    rw [hm d]
    obtain ⟨-, rfl⟩ | hu := Client.open?_snoc hu
    · rw [hnumber d]
      exact Nat.lt_succ_self _
    · exact Nat.lt_succ_of_lt (h.fresh i u hu d)
  case apart =>
    intro i j u v hu hv hij d
    obtain ⟨hi, rfl⟩ | hold := Client.open?_snoc hu
    · obtain ⟨hj, rfl⟩ | hold := Client.open?_snoc hv
      · exact absurd (hi.trans hj.symm) hij
      · exact (holder j v hold d).symm
    · obtain ⟨-, rfl⟩ | hold' := Client.open?_snoc hv
      · exact holder i u hold d
      · exact h.apart i j u v hold hold' hij d

/-- The beginning of a transaction of the pool, in a phase that writes both stores. -/
theorem opens (h : Level c) (hphase : ∀ n, (phase n).writesBoth) :
    Level (c.opens ((E.site phase).carryOut Pool.begin c.state)).2 := by
  rw [(E.site phase).carryOut_begin rfl]
  have hsecondary : ((E.site phase).phase c.state.time).secondary? = _ :=
    Phase.secondary?_eq (hphase c.state.time)
  rw [hsecondary]
  generalize ((E.site phase).phase c.state.time).authoritative = on
  have hne := on.other_ne
  rw [E.site_begin]
  cases hfork : E.fork (c.state.held on).contents with
  | error e =>
    rw [E.begin_eq_error hfork]
    refine h.of_held fun d => ?_
    exact congrFun (Function.update_eq_self on c.state.held) d
  | ok k =>
    have hfork' : E.fork (c.state.held on.other).contents = .ok k := by
      rw [h.contents on.other on]
      exact hfork
    rw [E.begin_eq_ok hfork]
    dsimp only
    rw [E.site_begin, Moment.held_put_of_ne _ hne, Moment.held_tick, E.begin_eq_ok hfork']
    let t : Transaction :=
      ⟨⟨on, (c.state.held on).next⟩, some ⟨on.other, (c.state.held on.other).next⟩⟩
    have hspans : t.Spans := rfl
    have hnumber : ∀ d, t.number d = (c.state.held d).next := by
      intro d
      obtain rfl | rfl := d.eq_or_eq_other on
      · exact if_pos rfl
      · exact if_neg hne
    refine h.begun (t := t) (k := k) hspans hnumber fun d => ?_
    rw [hnumber d]
    obtain rfl | rfl := d.eq_or_eq_other on
    · exact (Moment.held_put_of_ne _ hne.symm _).trans (Moment.held_put_self _ _ _)
    · exact Moment.held_put_self _ _ _

/-- **Every order that writes keeps the stores level.** -/
theorem serve (h : Level c) (hphase : ∀ n, (phase n).writesBoth) {o : Order} (ho : o.Writes) :
    Level ((E.site phase).service.serve o c).2 := by
  cases o with
  | exec s => exact h.exec (h.did_exec hphase s)
  | begin => exact h.opens hphase
  | execIn n s => exact Client.within_kept h fun t ht => h.execIn ht (h.did_execIn ht s)
  | commit n =>
    refine Client.within_kept h fun t ht => ?_
    obtain ⟨k, hk⟩ := h.copies n t ht
    exact h.ended ht fun d => (h.did_commit ht d).trans (E.commit_snd (hk d))
  | rollback n =>
    refine Client.within_kept h fun t ht => ?_
    obtain ⟨k, hk⟩ := h.copies n t ht
    exact h.ended (f := id) ht fun d => (h.did_rollback ht d).trans (E.rollback_snd (hk d))
  | drop n =>
    refine Client.within_kept h fun t ht => ?_
    exact h.ended (f := id) ht fun d => Site.drop_held (h.spans n t ht) d
  | query s | queryRow s | columns sql | queryIn n s | queryRowIn n s => exact ho.elim

end Level

/-- **Double writes keep equal stores equal.**  Of a client that only writes, the stores have the
same content after all of its orders if they had before, whatever these orders are, whichever of
them fail and whenever the phase is switched from one that writes both stores to another; and every
transaction that is open then has a branch on both sides, with the same work behind the two. -/
theorem double_write_keeps_stores_equal (E : Engine α κ) (hphase : ∀ n, (phase n).writesBoth)
    (m : Moment fun _ => Holding α κ) (hsame : (m.held .src).contents = (m.held .dst).contents)
    (orders : List Order) (hwrites : ∀ o ∈ orders, o.Writes) :
    let c := ((E.site phase).service.run orders ⟨m, []⟩).2
    (c.state.held .src).contents = (c.state.held .dst).contents ∧
      ∀ i t, c.open? i = some t →
        ∃ b k, t.secondary = some b ∧ b.side = t.primary.side.other ∧
          (c.state.held t.primary.side).copies t.primary.tx = some k ∧
          (c.state.held b.side).copies b.tx = some k := by
  have hlevel : Level ((E.site phase).service.run orders ⟨m, []⟩).2 :=
    (E.site phase).service.run_kept (Level.start hsame) fun o ho c hc =>
      hc.serve hphase (hwrites o ho)
  intro c
  refine ⟨hlevel.contents .src .dst, fun i t ht => ?_⟩
  have hspans := hlevel.spans i t ht
  obtain ⟨k, hk⟩ := hlevel.copies i t ht
  refine ⟨_, k, hspans.secondary, rfl, ?_, hk _⟩
  rw [← t.number_primary]
  exact hk _

/-- Two stores that hold the same row, under numbers that differ. -/
def sameRow : Moment fun _ => Holding Table Table where
  held
    | .src => { contents := ⟨"items", "id", ["id", "name"], [[.int 1, .text "a"]]⟩ }
    | .dst => { contents := ⟨"items", "id", ["id", "name"], [[.int 1, .text "a"]]⟩, next := 7 }

/-- Two transactions at once; a statement in the first is refused, the second stays open. -/
def twoTransactions : List Order :=
  let insert (id : Int64) : Statement := ⟨"INSERT INTO items (id) VALUES (?)", [.int id]⟩
  [.begin, .exec (insert 2), .begin, .execIn 0 (insert 1), .execIn 0 (insert 3),
    .execIn 1 ⟨"DELETE FROM items WHERE id = ?", [.int 1]⟩, .commit 0]

/-- The phases that write both, in turns. -/
def bothInTurns (n : Nat) : Phase := if n % 2 = 0 then .srcFirst else .dstFirst

theorem double_write_keeps_stores_equal_sample :
    ((∀ n, (bothInTurns n).writesBoth) ∧
      (sameRow.held .src).contents = (sameRow.held .dst).contents ∧
      ∀ o ∈ twoTransactions, o.Writes) ∧
    let c := ((Engine.ofTable.site bothInTurns).service.run twoTransactions ⟨sameRow, []⟩).2
    ((c.state.held .src).contents = (c.state.held .dst).contents ∧
      ∀ i t, c.open? i = some t →
        ∃ b k, t.secondary = some b ∧ b.side = t.primary.side.other ∧
          (c.state.held t.primary.side).copies t.primary.tx = some k ∧
          (c.state.held b.side).copies b.tx = some k) ∧
    ((c.state.held .dst).contents.rows = [[.int 1, .text "a"], [.int 3, .null]] ∧
      c.open? 1 = some ⟨⟨.src, 1⟩, some ⟨.dst, 8⟩⟩) := by
  have hphase : ∀ n, (bothInTurns n).writesBoth := by
    intro n
    unfold bothInTurns
    split <;> rfl
  have hsame : (sameRow.held .src).contents = (sameRow.held .dst).contents := rfl
  have hwrites : ∀ o ∈ twoTransactions, o.Writes := by simp [twoTransactions, Order.Writes]
  refine ⟨⟨hphase, hsame, hwrites⟩, ?_, ?_⟩
  · exact double_write_keeps_stores_equal Engine.ofTable hphase sameRow hsame
      twoTransactions hwrites
  · decide +kernel

end
end Cutover
