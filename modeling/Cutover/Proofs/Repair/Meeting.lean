import Cutover.Proofs.Pool.Engine
import Cutover.Proofs.Repair.Race
import Mathlib.Data.List.Permutation

/-! # A repair meets a write

A client writes the row that is being repaired.  What the stores hold under its identity in the
course of this is one and the same content, to which the client's write has been applied so many
times (`RowEffect.times`); how many times on which side is settled by the order of the calls alone
(`Sketch`).  In four of the six orders it is once on both sides.  If both calls of the client fall
between those of the repair, the repair puts back what was there before the write.  If both calls of
the repair fall between those of the client, the write is applied to its own result on the target.
-/

namespace Cutover

open Dialogue Pool

/-! ## What the order of the calls settles -/

/-- How often a write has been applied to what a store holds, as far as calls have come. -/
structure Sketch where
  /-- The calls of the repair, and those of the client. -/
  looks : Nat := 0
  writes : Nat := 0
  /-- How often it had been applied to what the repair saw. -/
  saw : Nat := 0
  /-- How often it has been applied to what the target holds. -/
  target : Nat := 0
  deriving DecidableEq

namespace Sketch

/-- How often the write has been applied to what the base holds. -/
def base (k : Sketch) : Nat := min k.writes 1

/-- One more call.  The first call of the repair looks at the base, the second one writes what it
saw; the first call of the client writes the base, the second one the target. -/
def call (k : Sketch) : Actor → Sketch
  | .repair =>
    { k with
      looks := k.looks + 1
      saw := if k.looks = 0 then k.base else k.saw
      target := if k.looks = 0 then k.target else k.saw }
  | .client =>
    { k with
      writes := k.writes + 1
      target := if k.writes = 0 then k.target else k.target + 1 }

section
variable {k : Sketch}

theorem saw_first_look (h : k.looks = 0) : (k.call .repair).saw = k.base := if_pos h

theorem target_first_look (h : k.looks = 0) : (k.call .repair).target = k.target := if_pos h

theorem target_second_look (h : k.looks = 1) : (k.call .repair).target = k.saw :=
  if_neg (by rw [h]; decide)

theorem base_first_write (h : k.writes = 0) : (k.call .client).base = 1 := by
  show min (k.writes + 1) 1 = 1
  rw [h]
  rfl

theorem target_first_write (h : k.writes = 0) : (k.call .client).target = k.target := if_pos h

theorem base_second_write (h : k.writes = 1) : (k.call .client).base = k.base := by
  show min (k.writes + 1) 1 = min k.writes 1
  rw [h]
  rfl

theorem target_second_write (h : k.writes = 1) : (k.call .client).target = k.target + 1 :=
  if_neg (by rw [h]; decide)

end

/-- After these calls. -/
def of (calls : List Actor) : Sketch := calls.foldl call {}

theorem of_snoc (calls : List Actor) (a : Actor) : of (calls ++ [a]) = (of calls).call a := by
  rw [of, List.foldl_append]
  rfl

theorem looks_of (calls : List Actor) : (of calls).looks = calls.count .repair := by
  induction calls using List.reverseRecOn with
  | nil => rfl
  | append_singleton calls a ih =>
    rw [of_snoc, List.count_append, ← ih]
    cases a <;> rfl

theorem writes_of (calls : List Actor) : (of calls).writes = calls.count .client := by
  induction calls using List.reverseRecOn with
  | nil => rfl
  | append_singleton calls a ih =>
    rw [of_snoc, List.count_append, ← ih]
    cases a <;> rfl

/-- **Of the six orders of four calls, two do not leave the write applied once to the target**: not
at all when both calls of the client fall between those of the repair, twice when it is the other
way round. -/
theorem target_of (calls : List Actor) (hlooks : (of calls).looks = 2)
    (hwrites : (of calls).writes = 2) : (of calls).target =
      if calls = [.repair, .client, .client, .repair] then 0
      else if calls = [.client, .repair, .repair, .client] then 2
      else 1 := by
  have hperm : calls.Perm [.repair, .repair, .client, .client] := by
    rw [looks_of] at hlooks
    rw [writes_of] at hwrites
    refine List.perm_iff_count.mpr fun a => ?_
    cases a with
    | repair => exact hlooks
    | client => exact hwrites
  have horders : ∀ l ∈ [Actor.repair, .repair, .client, .client].permutations',
      (of l).target =
        if l = [.repair, .client, .client, .repair] then 0
        else if l = [.client, .repair, .repair, .client] then 2
        else 1 := by decide
  exact horders calls (List.mem_permutations'.mpr hperm)

end Sketch

/-- What is held when a write has been applied so many times; a write that is refused leaves what
there was. -/
def Table.RowEffect.times (effect : Table.RowEffect) (c : Option (String → Value)) :
    Nat → Option (String → Value)
  | 0 => c
  | n + 1 => (effect (times effect c n)).getD (times effect c n)

namespace Table.RowEffect

variable {effect : RowEffect} {c c' : Option (String → Value)}

theorem times_succ_of_done {n : Nat} (h : effect (effect.times c n) = some c') :
    effect.times c (n + 1) = c' := by
  rw [times, h, Option.getD_some]

theorem times_succ_of_refused {n : Nat} (h : effect (effect.times c n) = none) :
    effect.times c (n + 1) = effect.times c n := by
  rw [times, h, Option.getD_none]

theorem times_of_refused (h : effect c = none) (n : Nat) : effect.times c n = c := by
  induction n with
  | zero => rfl
  | succ n ih =>
    have hagain : effect (effect.times c n) = none := ih.symm ▸ h
    rw [times_succ_of_refused hagain, ih]

/-- A write that has been lost is not missed if it changes nothing. -/
theorem times_one_eq_zero_iff (h : effect c = some c') :
    effect.times c 1 = effect.times c 0 ↔ effect c = some c := by
  rw [times_succ_of_done (n := 0) h, times, h, Option.some_inj]

/-- A write that has been made twice is as good as one if it does not change its own result. -/
theorem times_one_eq_two_iff (h : effect c = some c') :
    effect.times c 1 = effect.times c 2 ↔
      ∀ x, effect c = some x → effect x = none ∨ effect x = some x := by
  have honce : effect.times c 1 = c' := times_succ_of_done (n := 0) h
  have honly : (∀ x, effect c = some x → effect x = none ∨ effect x = some x) ↔
      (effect c' = none ∨ effect c' = some c') := by
    rw [h]
    exact ⟨fun hx => hx c' rfl, fun hx x hcx => Option.some.inj hcx ▸ hx⟩
  rw [honly, honce, times, honce]
  cases effect c' with
  | none => exact iff_of_true rfl (.inl rfl)
  | some again => simp [eq_comm]

end Table.RowEffect

/-! ## Where the two stand -/

/-- **A repair and a write that meet.**  The phase writes both stores; the repair copies from the
authoritative one; the stores carry out the statements of the repair as tables do, and the write of
the client is one of the row that is repaired. -/
structure Meet {κ : Type} (E : Engine Table κ) (p : Phase) (f : Fixer) (id : Int64) (st : Statement)
    (effect : Table.RowEffect) : Prop where
  both : p.writesBoth
  copies : f.Copies p.authoritative f.table f.columns
  sound : ∀ s, f.Says id s → ∀ t, E.run s t = t.runStatement s
  write : Table.RowWrite E.run f.table f.columns id st effect

section
variable {κ : Type} {E : Engine Table κ} {p : Phase} {f : Fixer} {id : Int64} {st : Statement}
  {effect : Table.RowEffect} {c : Option (String → Value)}

/-- A repair, as far as its calls have come. -/
inductive RepairAt (f : Fixer) (id : Int64) (effect : Table.RowEffect)
    (c : Option (String → Value)) :
    Dialogue Work (Except CutoverError FixOutcome) → Sketch → Prop where
  | looking {k : Sketch} : k.looks = 0 → RepairAt f id effect c (f.fix id) k
  | writing {k : Sketch} {b : Table} : k.looks = 1 → b.Keyed f.table → b.columns = f.columns →
      b.content f.table id = effect.times c k.saw →
      RepairAt f id effect c (f.write id (.ok ((b.lookup f.table id).map (b.shown none)))) k
  | finished {k : Sketch} (o : FixOutcome) : k.looks = 2 → RepairAt f id effect c (.done (.ok o)) k

/-- A write of a client, as far as its calls have come. -/
inductive ClientAt (p : Phase) (st : Statement) (effect : Table.RowEffect)
    (c : Option (String → Value)) : Dialogue Work (Except StoreError Nat) → Sketch → Prop where
  | starting {k : Sketch} : k.writes = 0 → ClientAt p st effect c (Pool.exec st) k
  | routed {k : Sketch} : k.writes = 0 →
      ClientAt p st effect c (followedBy p.authoritative (.exec st)
        (repeatOn (some p.authoritative.other) (.exec st))) k
  | repeating {k : Sketch} (n : Nat) : k.writes = 1 → effect c ≠ none →
      ClientAt p st effect c
        (callStore p.authoritative.other (.exec st) >>= fun _ => .done (.ok n)) k
  | finished {k : Sketch} (n : Nat) : k.writes = 2 → effect c ≠ none →
      ClientAt p st effect c (.done (.ok n)) k
  | refused {k : Sketch} (e : StoreError) : k.writes = 1 → effect c = none →
      ClientAt p st effect c (.done (.error e)) k

/-- A call of the client leaves the repair where it is. -/
theorem RepairAt.elsewhere {d : Dialogue Work (Except CutoverError FixOutcome)} {k : Sketch}
    (h : RepairAt f id effect c d k) : RepairAt f id effect c d (k.call .client) := by
  cases h with
  | looking hlooks => exact .looking hlooks
  | writing hlooks hb hcolumns hsaw => exact .writing hlooks hb hcolumns hsaw
  | finished o hlooks => exact .finished o hlooks

/-- A call of the repair leaves the write where it is. -/
theorem ClientAt.elsewhere {d : Dialogue Work (Except StoreError Nat)} {k : Sketch}
    (h : ClientAt p st effect c d k) : ClientAt p st effect c d (k.call .repair) := by
  cases h with
  | starting hwrites => exact .starting hwrites
  | routed hwrites => exact .routed hwrites
  | repeating n hwrites hdone => exact .repeating n hwrites hdone
  | finished n hwrites hdone => exact .finished n hwrites hdone
  | refused e hwrites hrefused => exact .refused e hwrites hrefused

/-- What the stores hold, as far as calls have come. -/
structure HeldAt (p : Phase) (f : Fixer) (id : Int64) (effect : Table.RowEffect)
    (c : Option (String → Value)) (held : Side → Holding Table κ) (k : Sketch) : Prop where
  keyed : (held p.authoritative).contents.Keyed f.table
  columns : (held p.authoritative).contents.columns = f.columns
  base : (held p.authoritative).contents.content f.table id = effect.times c k.base
  suits : (held p.authoritative.other).contents.Suits f.table f.columns
  target : (held p.authoritative.other).contents.content f.table id = effect.times c k.target

/-- **Where the two stand**: what the stores hold and what is left of both is settled by the calls
they have made. -/
structure Stands (p : Phase) (f : Fixer) (id : Int64) (st : Statement) (effect : Table.RowEffect)
    (c : Option (String → Value)) (r : Race fun _ => Holding Table κ) : Prop where
  held : HeldAt p f id effect c r.moment.held (.of r.calls)
  repair : RepairAt f id effect c r.repair (.of r.calls)
  client : ClientAt p st effect c r.client (.of r.calls)

/-- The base has been put in place of one that holds what is said. -/
theorem HeldAt.put_base {m : Moment fun _ => Holding Table κ} {k k' : Sketch}
    (h : HeldAt p f id effect c m.held k) {x : Holding Table κ} (hkeyed : x.contents.Keyed f.table)
    (hcolumns : x.contents.columns = f.columns)
    (hbase : x.contents.content f.table id = effect.times c k'.base)
    (htarget : k'.target = k.target) :
    HeldAt p f id effect c (m.put p.authoritative x).held k' := by
  have hself : (m.put p.authoritative x).held p.authoritative = x := m.held_put_self _ x
  have hother : (m.put p.authoritative x).held p.authoritative.other =
      m.held p.authoritative.other :=
    m.held_put_of_ne p.authoritative.other_ne x
  constructor
  · rw [hself]
    exact hkeyed
  · rw [hself]
    exact hcolumns
  · rw [hself]
    exact hbase
  · rw [hother]
    exact h.suits
  · rw [hother, htarget]
    exact h.target

/-- The target has been put in place of one that holds what is said. -/
theorem HeldAt.put_target {m : Moment fun _ => Holding Table κ} {k k' : Sketch}
    (h : HeldAt p f id effect c m.held k) {x : Holding Table κ}
    (hsuits : x.contents.Suits f.table f.columns)
    (htarget : x.contents.content f.table id = effect.times c k'.target)
    (hbase : k'.base = k.base) :
    HeldAt p f id effect c (m.put p.authoritative.other x).held k' := by
  have hself : (m.put p.authoritative.other x).held p.authoritative.other = x := m.held_put_self _ x
  have hother : (m.put p.authoritative.other x).held p.authoritative = m.held p.authoritative :=
    m.held_put_of_ne p.authoritative.other_ne.symm x
  constructor
  · rw [hother]
    exact h.keyed
  · rw [hother]
    exact h.columns
  · rw [hother, hbase]
    exact h.base
  · rw [hself]
    exact hsuits
  · rw [hself]
    exact htarget

section
variable {r : Race fun _ => Holding Table κ}

/-- A call of the repair after which the stores and the repair stand right. -/
theorem Stands.repair_called (h : Stands p f id st effect c r)
    {d : Dialogue Work (Except CutoverError FixOutcome)} {m : Moment fun _ => Holding Table κ}
    (hturn : (E.site fun _ => p).turn r.repair r.moment = (d, m, true))
    (hheld : HeldAt p f id effect c m.held ((Sketch.of r.calls).call .repair))
    (hrepair : RepairAt f id effect c d ((Sketch.of r.calls).call .repair)) :
    Stands p f id st effect c ((E.site fun _ => p).advance r .repair) := by
  rw [Site.advance_repair hturn, if_pos rfl]
  have hcalled := Sketch.of_snoc r.calls .repair
  exact ⟨hcalled.symm ▸ hheld, hcalled.symm ▸ hrepair, hcalled.symm ▸ h.client.elsewhere⟩

/-- A call of the client after which the stores and the client stand right. -/
theorem Stands.client_called (h : Stands p f id st effect c r)
    {d : Dialogue Work (Except StoreError Nat)} {m : Moment fun _ => Holding Table κ}
    (hturn : (E.site fun _ => p).turn r.client r.moment = (d, m, true))
    (hheld : HeldAt p f id effect c m.held ((Sketch.of r.calls).call .client))
    (hclient : ClientAt p st effect c d ((Sketch.of r.calls).call .client)) :
    Stands p f id st effect c ((E.site fun _ => p).advance r .client) := by
  rw [Site.advance_client hturn, if_pos rfl]
  have hcalled := Sketch.of_snoc r.calls .client
  exact ⟨hcalled.symm ▸ hheld, hcalled.symm ▸ h.repair.elsewhere, hcalled.symm ▸ hclient⟩

/-- The repair looks the row up in the base. -/
theorem Stands.repair_looks (hmeet : Meet E p f id st effect) (h : Stands p f id st effect c r)
    (hd : r.repair = f.fix id) (hlooks : (Sketch.of r.calls).looks = 0) :
    Stands p f id st effect c ((E.site fun _ => p).advance r .repair) := by
  have hheld := h.held
  have hrun := (hmeet.sound _ .lookup _).trans (hheld.keyed.toFits.byId_answer f.dialect id)
  have hfound : E.statement (·.rows.head?) ((f.table.byId id).statement f.dialect)
      (r.moment.held p.authoritative) = _ := E.statement_eq_ok hrun
  have hturn : (E.site fun _ => p).turn r.repair r.moment =
      (f.write id (.ok (((r.moment.held p.authoritative).contents.lookup f.table id).map
        ((r.moment.held p.authoritative).contents.shown none))),
        r.moment.put p.authoritative (r.moment.held p.authoritative), true) := by
    rw [hd, f.fix_eq, hmeet.copies.base]
    refine (Site.turn_callStore _ _ (.queryRow _) _).trans ?_
    rw [E.site_queryRow, hfound]
    cases (r.moment.held p.authoritative).contents.lookup f.table id <;> rfl
  refine h.repair_called hturn ?_ (.writing (congrArg (· + 1) hlooks) hheld.keyed hheld.columns ?_)
  · exact hheld.put_base hheld.keyed hheld.columns hheld.base (Sketch.target_first_look hlooks)
  · rw [hheld.base, Sketch.saw_first_look hlooks]

/-- The repair writes what it saw to the target. -/
theorem Stands.repair_writes (hmeet : Meet E p f id st effect) (h : Stands p f id st effect c r)
    {b : Table} (hd : r.repair = f.write id (.ok ((b.lookup f.table id).map (b.shown none))))
    (hlooks : (Sketch.of r.calls).looks = 1) (hb : b.Keyed f.table)
    (hcolumns : b.columns = f.columns)
    (hsaw : b.content f.table id = effect.times c (Sketch.of r.calls).saw) :
    Stands p f id st effect c ((E.site fun _ => p).advance r .repair) := by
  obtain ⟨s, o, hs, hwrite, hcopies⟩ := Fixer.write_of_saw hmeet.copies hb hcolumns
  obtain ⟨a, t', hrun, hsuits, hcontent⟩ := hcopies _ h.held.suits
  have hwritten : E.statement (·.affected) s (r.moment.held p.authoritative.other) = _ :=
    E.statement_eq_ok ((hmeet.sound s hs _).trans hrun)
  have hturn : (E.site fun _ => p).turn r.repair r.moment =
      (.done (.ok o), r.moment.put p.authoritative.other
        { r.moment.held p.authoritative.other with contents := t' }, true) := by
    rw [hd, hwrite]
    refine (Site.turn_callStore _ _ (.exec s) _).trans ?_
    rw [E.site_exec, hwritten]
    rfl
  refine h.repair_called hturn (h.held.put_target hsuits ?_ rfl)
    (.finished o (congrArg (· + 1) hlooks))
  rw [hcontent, hsaw, Sketch.target_second_look hlooks]

/-- A request of the repair. -/
theorem Stands.repair_turn (hmeet : Meet E p f id st effect) (h : Stands p f id st effect c r) :
    Stands p f id st effect c ((E.site fun _ => p).advance r .repair) := by
  have hrepair := h.repair
  generalize hd : r.repair = d at hrepair
  cases hrepair with
  | looking hlooks => exact h.repair_looks hmeet hd hlooks
  | writing hlooks hb hcolumns hsaw => exact h.repair_writes hmeet hd hlooks hb hcolumns hsaw
  | finished o hlooks =>
    rw [Site.advance_repair_of_done hd]
    exact h

/-- The client learns the phase. -/
theorem Stands.client_routed (hmeet : Meet E p f id st effect) (h : Stands p f id st effect c r)
    (hd : r.client = Pool.exec st) (hwrites : (Sketch.of r.calls).writes = 0) :
    Stands p f id st effect c ((E.site fun _ => p).advance r .client) := by
  have hturn : (E.site fun _ => p).turn r.client r.moment =
      (followedBy p.authoritative (.exec st) (repeatOn (some p.authoritative.other) (.exec st)),
        r.moment.tick, false) := by
    rw [hd, Pool.exec_eq, Site.turn_phase, ← Phase.secondary?_eq hmeet.both]
    rfl
  rw [Site.advance_client hturn]
  exact ⟨h.held, h.repair, .routed hwrites⟩

/-- The client writes the authoritative store. -/
theorem Stands.client_writes (hmeet : Meet E p f id st effect) (h : Stands p f id st effect c r)
    (hd : r.client = followedBy p.authoritative (.exec st)
      (repeatOn (some p.authoritative.other) (.exec st)))
    (hwrites : (Sketch.of r.calls).writes = 0) :
    Stands p f id st effect c ((E.site fun _ => p).advance r .client) := by
  have hheld := h.held
  have hbase : (r.moment.held p.authoritative).contents.content f.table id = c := by
    rw [hheld.base, Sketch.base, hwrites]
    rfl
  have hsuits : (r.moment.held p.authoritative).contents.Suits f.table f.columns :=
    ⟨hheld.keyed, fun x => by rw [hheld.columns]⟩
  have htarget := Sketch.target_first_write hwrites
  have hwrites' : ((Sketch.of r.calls).call .client).writes = 1 := congrArg (· + 1) hwrites
  cases heffect : effect c with
  | none =>
    obtain ⟨e, hrun⟩ := hmeet.write.refused _ hsuits (hbase.symm ▸ heffect)
    have hrefused : E.statement (·.affected) st (r.moment.held p.authoritative) = _ :=
      E.statement_eq_error hrun
    have hturn : (E.site fun _ => p).turn r.client r.moment =
        (.done (.error e), r.moment.put p.authoritative (r.moment.held p.authoritative), true) := by
      rw [hd]
      refine (Site.turn_callStore _ _ (.exec st) _).trans ?_
      rw [E.site_exec, hrefused]
      rfl
    refine h.client_called hturn ?_ (.refused e hwrites' heffect)
    refine hheld.put_base hheld.keyed hheld.columns ?_ htarget
    rw [hbase, effect.times_of_refused heffect]
  | some c' =>
    obtain ⟨a, t', hrun, hkeyed, hcolumns, hcontent⟩ :=
      hmeet.write.done _ c' hsuits (hbase.symm ▸ heffect)
    have hdone : E.statement (·.affected) st (r.moment.held p.authoritative) = _ :=
      E.statement_eq_ok hrun
    have hturn : (E.site fun _ => p).turn r.client r.moment =
        (callStore p.authoritative.other (.exec st) >>= fun _ => .done (.ok a.affected),
          r.moment.put p.authoritative { r.moment.held p.authoritative with contents := t' },
          true) := by
      rw [hd]
      refine (Site.turn_callStore _ _ (.exec st) _).trans ?_
      rw [E.site_exec, hdone]
      rfl
    refine h.client_called hturn ?_ (.repeating _ hwrites' (heffect ▸ Option.some_ne_none c'))
    refine hheld.put_base hkeyed (hcolumns.trans hheld.columns) ?_ htarget
    rw [hcontent, Sketch.base_first_write hwrites]
    exact (Table.RowEffect.times_succ_of_done (n := 0) heffect).symm

/-- The client repeats its write on the other store, and does not care what comes of it. -/
theorem Stands.client_repeats (hmeet : Meet E p f id st effect) (h : Stands p f id st effect c r)
    {n : Nat} (hd : r.client = callStore p.authoritative.other (.exec st) >>= fun _ =>
      .done (.ok n))
    (hwrites : (Sketch.of r.calls).writes = 1) (hdone : effect c ≠ none) :
    Stands p f id st effect c ((E.site fun _ => p).advance r .client) := by
  have hheld := h.held
  have hbase := Sketch.base_second_write hwrites
  have htarget := Sketch.target_second_write hwrites
  have hturn : (E.site fun _ => p).turn r.client r.moment =
      (.done (.ok n), r.moment.put p.authoritative.other
        (E.statement (·.affected) st (r.moment.held p.authoritative.other)).2, true) := by
    rw [hd]
    exact Site.turn_callStore _ _ (.exec st) _
  refine h.client_called hturn ?_ (.finished n (congrArg (· + 1) hwrites) hdone)
  cases heffect : effect (effect.times c (Sketch.of r.calls).target) with
  | none =>
    obtain ⟨e, hrun⟩ := hmeet.write.refused _ hheld.suits (hheld.target.symm ▸ heffect)
    rw [E.statement_eq_error hrun]
    refine hheld.put_target hheld.suits ?_ hbase
    rw [hheld.target, htarget]
    exact (Table.RowEffect.times_succ_of_refused heffect).symm
  | some c' =>
    obtain ⟨a, t', hrun, hkeyed, hcolumns, hcontent⟩ :=
      hmeet.write.done _ c' hheld.suits (hheld.target.symm ▸ heffect)
    rw [E.statement_eq_ok hrun]
    refine hheld.put_target ⟨hkeyed, hcolumns.symm ▸ hheld.suits.columns⟩ ?_ hbase
    rw [hcontent, htarget]
    exact (Table.RowEffect.times_succ_of_done heffect).symm

/-- A request of the client. -/
theorem Stands.client_turn (hmeet : Meet E p f id st effect) (h : Stands p f id st effect c r) :
    Stands p f id st effect c ((E.site fun _ => p).advance r .client) := by
  have hclient := h.client
  generalize hd : r.client = d at hclient
  cases hclient with
  | starting hwrites => exact h.client_routed hmeet hd hwrites
  | routed hwrites => exact h.client_writes hmeet hd hwrites
  | repeating n hwrites hdone => exact h.client_repeats hmeet hd hwrites hdone
  | finished n hwrites hdone =>
    rw [Site.advance_client_of_done hd]
    exact h
  | refused e hwrites hrefused =>
    rw [Site.advance_client_of_done hd]
    exact h

end

theorem Stands.race (hmeet : Meet E p f id st effect) {r : Race fun _ => Holding Table κ}
    (h : Stands p f id st effect c r) (schedule : List Actor) :
    Stands p f id st effect c ((E.site fun _ => p).race schedule r) := by
  induction schedule generalizing r with
  | nil => exact h
  | cons a schedule ih =>
    cases a with
    | repair => exact ih (h.repair_turn hmeet)
    | client => exact ih (h.client_turn hmeet)

/-- A conversation that begins with a call is not over. -/
theorem isDone_callStore_bind {α : Type} (on : Side) (call : Call)
    (f : Except StoreError call.Result → Dialogue Work α) :
    (callStore on call >>= f).isDone = false :=
  rfl

/-- A repair that is over has made both its calls. -/
theorem RepairAt.looks_of_isDone (hmeet : Meet E p f id st effect)
    {d : Dialogue Work (Except CutoverError FixOutcome)} {k : Sketch}
    (h : RepairAt f id effect c d k) (hd : d.isDone = true) : k.looks = 2 := by
  cases h with
  | looking hlooks =>
    rw [f.fix_eq, hmeet.copies.base] at hd
    exact absurd hd (Bool.eq_false_iff.mp (isDone_callStore_bind _ (.queryRow _) _))
  | writing hlooks hb hcolumns hsaw =>
    obtain ⟨s, o, -, hwrite, -⟩ := Fixer.write_of_saw hmeet.copies hb hcolumns
    rw [hwrite] at hd
    exact absurd hd (Bool.eq_false_iff.mp (isDone_callStore_bind _ (.exec s) _))
  | finished o hlooks => exact hlooks

/-- A write that is over has been refused, or it has been made on both stores. -/
theorem ClientAt.writes_of_isDone {d : Dialogue Work (Except StoreError Nat)} {k : Sketch}
    (h : ClientAt p st effect c d k) (hd : d.isDone = true) :
    (k.writes = 1 ∧ effect c = none) ∨ (k.writes = 2 ∧ effect c ≠ none) := by
  cases h with
  | starting hwrites => exact absurd hd Bool.false_ne_true
  | routed hwrites => exact absurd hd (Bool.eq_false_iff.mp (isDone_callStore_bind _ (.exec st) _))
  | repeating n hwrites hdone =>
    exact absurd hd (Bool.eq_false_iff.mp (isDone_callStore_bind _ (.exec st) _))
  | finished n hwrites hdone => exact .inr ⟨hwrites, hdone⟩
  | refused e hwrites hrefused => exact .inl ⟨hwrites, hrefused⟩

/-! ## What comes of it -/

/-- A repair of a row and a write of a client, begun at this moment, after any number of their
requests. -/
def Engine.meeting (E : Engine Table κ) (p : Phase) (f : Fixer) (id : Int64) (st : Statement)
    (m : Moment fun _ => Holding Table κ) (schedule : List Actor) : Race fun _ => Holding Table κ :=
  (E.site fun _ => p).race schedule ⟨m, f.fix id, Pool.exec st, []⟩

/-- Two turns of the repair and three of the client are enough. -/
theorem Engine.meeting_isOver (hmeet : Meet E p f id st effect)
    (m : Moment fun _ => Holding Table κ) {schedule : List Actor}
    (hrepair : 2 ≤ schedule.count .repair) (hclient : 3 ≤ schedule.count .client) :
    (E.meeting p f id st m schedule).isOver = true :=
  Site.race_isOver ((Fixer.fix_within hmeet.copies id).mono hrepair)
    ((Pool.exec_within st).mono hclient)

/-- **A repair and a write of the same row leave the stores in agreement on it, but for two orders
of their calls.**  If the stores held the same there before, they do so when both are over, unless
both calls of the client fell between those of the repair and the write has changed the row, or both
calls of the repair fell between those of the client and the write changes its own result once
more. -/
theorem repair_meets_write (hmeet : Meet E p f id st effect) {m : Moment fun _ => Holding Table κ}
    (hkeyed : (m.held p.authoritative).contents.Keyed f.table)
    (hcolumns : (m.held p.authoritative).contents.columns = f.columns)
    (hsuits : (m.held p.authoritative.other).contents.Suits f.table f.columns)
    (hbase : (m.held p.authoritative).contents.content f.table id = c)
    (htarget : (m.held p.authoritative.other).contents.content f.table id = c)
    (schedule : List Actor) :
    let r := E.meeting p f id st m schedule
    r.isOver = true →
      ((r.moment.held p.authoritative).contents.content f.table id =
          (r.moment.held p.authoritative.other).contents.content f.table id ↔
        (r.calls = [.repair, .client, .client, .repair] → effect c = some c) ∧
          (r.calls = [.client, .repair, .repair, .client] → ∀ c', effect c = some c' →
            effect c' = none ∨ effect c' = some c')) := by
  intro r hover
  obtain ⟨hrepaired, hwritten⟩ := Bool.and_eq_true_iff.mp hover
  have hstart : Stands p f id st effect c ⟨m, f.fix id, Pool.exec st, []⟩ :=
    ⟨⟨hkeyed, hcolumns, hbase, hsuits, htarget⟩, .looking rfl, .starting rfl⟩
  obtain ⟨hheld, hrepair, hclient⟩ : Stands p f id st effect c r := hstart.race hmeet schedule
  have hlooks := hrepair.looks_of_isDone hmeet hrepaired
  rw [hheld.base, hheld.target]
  rcases hclient.writes_of_isDone hwritten with ⟨hwrites, hrefused⟩ | ⟨hwrites, hdone⟩
  · -- a write that is refused changes nothing anywhere
    have hone : r.calls.count .client = 1 := (Sketch.writes_of r.calls).symm.trans hwrites
    rw [effect.times_of_refused hrefused, effect.times_of_refused hrefused]
    refine iff_of_true rfl ⟨?_, ?_⟩
    · intro horder
      rw [horder] at hone
      exact absurd hone (by decide)
    · intro horder
      rw [horder] at hone
      exact absurd hone (by decide)
  · obtain ⟨c', hc'⟩ := Option.ne_none_iff_exists'.mp hdone
    have hbase : (Sketch.of r.calls).base = 1 := by
      rw [Sketch.base, hwrites]
      rfl
    rw [hbase, Sketch.target_of r.calls hlooks hwrites]
    by_cases hlost : r.calls = [.repair, .client, .client, .repair]
    · have hother : r.calls ≠ [.client, .repair, .repair, .client] := by
        rw [hlost]
        decide
      rw [if_pos hlost, effect.times_one_eq_zero_iff hc']
      exact ⟨fun h => ⟨fun _ => h, fun h' => absurd h' hother⟩, fun h => h.1 hlost⟩
    · rw [if_neg hlost]
      by_cases htwice : r.calls = [.client, .repair, .repair, .client]
      · rw [if_pos htwice, effect.times_one_eq_two_iff hc']
        exact ⟨fun h => ⟨fun h' => absurd h' hlost, fun _ => h⟩, fun h => h.2 htwice⟩
      · rw [if_neg htwice]
        exact iff_of_true rfl ⟨fun h => absurd h hlost, fun h => absurd h htwice⟩

end

/-- A repair from the source to the destination. -/
def forwardFixer : Fixer where
  base := .store .src
  target := .store .dst
  table := .items
  dialect := .sqlite
  columns := ["id", "name"]

/-- Two stores that hold the same row. -/
def rowOnBoth : Moment fun _ => Holding Table Table where
  held _ := { contents := ⟨"items", "id", ["id", "name"], [[.int 1, .text "a"]]⟩ }

/-- A client deletes the row. -/
def rowDeletion : Statement := (forwardFixer.table.deleteById 1).statement forwardFixer.dialect

/-- The repair looks when the source has been written, and it and the client write the
destination. -/
def repairWithin : List Actor := [.client, .client, .repair, .repair, .client]

theorem repair_meets_write_sample :
    (Meet Engine.ofTable .srcFirst forwardFixer 1 rowDeletion (fun _ => some none) ∧
      (rowOnBoth.held .src).contents.Keyed forwardFixer.table ∧
      (rowOnBoth.held .src).contents.columns = forwardFixer.columns ∧
      (rowOnBoth.held .dst).contents.Suits forwardFixer.table forwardFixer.columns) ∧
    let r := Engine.ofTable.meeting .srcFirst forwardFixer 1 rowDeletion rowOnBoth repairWithin
    r.isOver = true ∧
      (r.moment.held .src).contents.content forwardFixer.table 1 =
        (r.moment.held .dst).contents.content forwardFixer.table 1 ∧
      (r.moment.held .dst).contents.rows = [] := by
  have hmeet : Meet Engine.ofTable .srcFirst forwardFixer 1 rowDeletion fun _ => some none :=
    ⟨rfl, ⟨rfl, rfl, rfl, rfl⟩, fun _ _ _ => rfl, Table.rowWrite_deleteById _⟩
  have hkeyed : (rowOnBoth.held .src).contents.Keyed forwardFixer.table := by decide +kernel
  have hsuits : (rowOnBoth.held .dst).contents.Suits forwardFixer.table forwardFixer.columns :=
    ⟨hkeyed, fun _ => Iff.rfl⟩
  have hover : (Engine.ofTable.meeting .srcFirst forwardFixer 1 rowDeletion rowOnBoth
      repairWithin).isOver = true := by decide +kernel
  have hagree := (repair_meets_write hmeet hkeyed rfl hsuits rfl rfl _ hover).mpr
    ⟨fun horder => absurd horder (by decide +kernel), fun _ _ h => .inr h⟩
  -- the sides are named before the stores are compared, which would be computed otherwise
  dsimp only [Phase.authoritative, Side.other] at hagree
  exact ⟨⟨hmeet, hkeyed, rfl, hsuits⟩, hover, hagree, by decide +kernel⟩

/-- **A repair may undo a write**: it is not so that the stores agree on the row whenever both are
over.  If the client deletes the row when the repair has seen it, the repair puts it back in the
target. -/
theorem repair_may_undo_write :
    (rowOnBoth.held .src).contents.content forwardFixer.table 1 =
        (rowOnBoth.held .dst).contents.content forwardFixer.table 1 ∧
      ¬ ∀ schedule,
        let r := Engine.ofTable.meeting .srcFirst forwardFixer 1 rowDeletion rowOnBoth schedule
        r.isOver = true →
          (r.moment.held .src).contents.content forwardFixer.table 1 =
            (r.moment.held .dst).contents.content forwardFixer.table 1 := by
  refine ⟨rfl, fun hall => ?_⟩
  have hsame := hall [.repair, .client, .client, .client, .repair] (by decide +kernel)
  exact absurd (congrArg Option.isSome hsame) (by decide +kernel)

end Cutover
