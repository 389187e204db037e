import Cutover.Proofs.Consumer.Handling
import Cutover.Proofs.Event.Codec
import Cutover.Proofs.Validation.Agreement
import Cutover.Rehearsal.Replica

/-! # Repairs over stores that fail now and then

Two stores of one table each carry out what they are asked, but for so many calls that may fail, any
of them and with any error; a call that fails changes nothing (`Stores.Answers`).

A repair of an identity leaves the base alone and the agreement of the tables on all other
identities.  If it succeeds the tables agree on this one, and if it fails, a fault has been spent on
it (`ensures_fix`).  The same holds of a repair that is tried again and again (`ensures_handle`).
-/

namespace Cutover

open Dialogue

/-- The stores of the two sides, and how many of their calls may still fail. -/
structure Stores where
  replica : Side → Rehearsal.Replica
  faults : Nat

namespace Stores

/-- The tables of the stores. -/
def tables (st : Stores) (d : Side) : Table := (st.replica d).table

/-- The stores after a call has been carried out. -/
def after (st : Stores) (on : Side) (c : Call) : Stores :=
  ⟨Function.update st.replica on ((st.replica on).work c).2, st.faults⟩

/-- How a request is answered: a call is carried out, or it fails while calls may still fail.  What
the phase is and what chance there is, is left open. -/
inductive Answers : Surroundings Work Stores where
  | carried (st : Stores) (on : Side) (c : Call) :
      Answers st (.call on c) ((st.replica on).work c).1 (st.after on c)
  | fault {st : Stores} {n : Nat} (on : Side) (c : Call) (e : StoreError) : st.faults = n + 1 →
      Answers st (.call on c) (Except.error (α := c.Result) e) ⟨st.replica, n⟩
  | phase (st : Stores) (p : Phase) : Answers st .phase p st
  | pause (st : Stores) (d : Duration) : Answers st (.pause d) () st
  | chance (st : Stores) (n : Nat) : Answers st .chance n st

theorem exists_answer (st : Stores) (r : Work.Request) : ∃ reply st', Answers st r reply st' := by
  cases r with
  | call on c => exact ⟨_, _, .carried st on c⟩
  | phase => exact ⟨_, _, .phase st .srcOnly⟩
  | pause d => exact ⟨_, _, .pause st d⟩
  | chance => exact ⟨_, _, .chance st 0⟩

/-- What a call comes to that puts a table in place of another and returns a result: it has done so,
or it has failed. -/
def Does {α : Type} (on : Side) (t : Table) (a : α) (st : Stores) (reply : Except StoreError α)
    (st' : Stores) : Prop :=
  (reply = .ok a ∧ st'.faults = st.faults ∧ st'.tables = Function.update st.tables on t) ∨
    ((∃ e, reply = .error e) ∧ st'.faults < st.faults ∧ st'.tables = st.tables)

section
variable {st : Stores} {on : Side} {s : Statement} {a : Table.Answer} {t : Table}

theorem tables_after {c : Call} (h : ((st.replica on).work c).2.table = t) :
    (st.after on c).tables = Function.update st.tables on t := by
  funext d
  by_cases hd : d = on
  · subst hd
    simp [tables, after, h]
  · simp [tables, after, hd]

theorem ensures_call {c : Call} {x : c.Result} (hresult : ((st.replica on).work c).1 = .ok x)
    (htable : ((st.replica on).work c).2.table = t) :
    (callStore on c).Ensures Answers (Does on t x st) st := by
  intro reply st' ha
  cases ha with
  | carried => exact .inl ⟨hresult, rfl, tables_after htable⟩
  | fault _ _ e hn =>
    refine .inr ⟨⟨e, rfl⟩, ?_, rfl⟩
    rw [hn]
    exact Nat.lt_succ_self _

theorem run_replica (h : (st.tables on).runStatement s = .ok (a, t)) :
    (st.replica on).run s = .ok (a, { st.replica on with table := t }) := by
  have htable : (st.replica on).table.runStatement s = .ok (a, t) := h
  rw [Rehearsal.Replica.run, htable]
  rfl

/-- A write that the table carries out. -/
theorem ensures_exec (h : (st.tables on).runStatement s = .ok (a, t)) :
    (callStore on (.exec s)).Ensures Answers (Does on t a.affected st) st := by
  have hwork : (st.replica on).work (.exec s) =
      (.ok a.affected, { st.replica on with table := t }) := by
    rw [Rehearsal.Replica.work, run_replica h]
    rfl
  exact ensures_call (c := .exec s) (by rw [hwork]) (by rw [hwork])

/-- A reading that the table answers. -/
theorem ensures_queryRow (h : (st.tables on).runStatement s = .ok (a, t)) :
    (callStore on (.queryRow s)).Ensures Answers (Does on t a.rows.head? st) st := by
  have hwork : (st.replica on).work (.queryRow s) =
      (.ok a.rows.head?, { st.replica on with table := t }) := by
    rw [Rehearsal.Replica.work, run_replica h]
    rfl
  exact ensures_call (c := .queryRow s) (by rw [hwork]) (by rw [hwork])

end
end Stores

/-! ## One repair -/

/-- The waits between attempts are spans of time. -/
def Retry.Spans (r : Retry) : Prop := ∀ k < r.maxRetries, r.delay? k ≠ none

instance (r : Retry) : Decidable r.Spans := inferInstanceAs (Decidable (∀ k < r.maxRetries, _))

/-- So are those of the usual attempts. -/
theorem Retry.spans_default : ({} : Retry).Spans := by decide +kernel

/-- No cell of the table is a NaN. -/
def Table.NaNFree (t : Table) : Prop := ∀ r ∈ t.rows, ∀ x, Value.float x ∈ r → x.isNaN = false

/-- A row without NaN holds the same as a row with its cells. -/
theorem Table.NaNFree.sameRow {b t : Table} (h : b.NaNFree) {r new : List Value} (hr : r ∈ b.rows)
    (hcells : ∀ c, t.HasColumn c → t.cell new c = b.cell r c) : b.SameRow t r new := by
  intro c hc
  rw [hcells c hc, Value.equals_self_iff]
  intro x hx
  rw [cell] at hx
  split at hx
  · rename_i i _
    rw [cellAt] at hx
    cases hi : r[i]? with
    | none =>
      rw [hi] at hx
      cases hx
    | some v =>
      rw [hi, Option.getD_some] at hx
      exact h r hr x (hx ▸ List.mem_of_getElem? hi)
  · cases hx

/-- The fixer copies rows of a table from a side to the other one, with these columns. -/
structure Fixer.Copies (f : Fixer) (d : Side) (s : TableSpec) (columns : List String) : Prop where
  base : f.base = .store d
  target : f.target = .store d.other
  table : f.table = s
  columns : f.columns = columns

/-- **A fixer that is made over the stores copies all columns of its base.** -/
theorem Fixer.ensures_make {d : Side} {s : TableSpec} {st : Stores} (h : (st.tables d).Fits s)
    (dialect : Dialect) :
    (make (.store d) (.store d.other) s dialect).Ensures Stores.Answers
      (fun result st' => st'.tables = st.tables ∧
        ∀ f, result = .ok f → f.Copies d s (st.tables d).columns) st := by
  have hnames : ((st.replica d).work (.columns s.selectAllText)).1 = .ok (st.tables d).columns :=
    h.namesOf_selectAll
  rw [make]
  refine (Stores.ensures_call hnames rfl).bind ?_
  rintro told st' (⟨rfl, -, htables⟩ | ⟨⟨e, rfl⟩, -, htables⟩)
  · have hsame : st'.tables = st.tables := by
      rw [htables]
      exact Function.update_eq_self _ _
    simp only
    split
    · refine ⟨hsame, ?_⟩
      rintro f ⟨⟩
    · refine ⟨hsame, ?_⟩
      rintro f ⟨⟩
      exact ⟨rfl, rfl, rfl, rfl⟩
  · refine ⟨htables, ?_⟩
    rintro f ⟨⟩

/-- What a repair of an identity keeps: the base, that the tables can be compared, and the agreement
on all other identities.  It brings no faults about. -/
structure Plan.Keeps (p : Plan) (id : Int64) (st st' : Stores) : Prop where
  base : st'.tables p.base = st.tables p.base
  compares : p.Compares st'.tables
  elsewhere : ∀ other, other ≠ id →
    (st.tables p.base).AgreeAt p.table (st.tables p.target) other →
      (st'.tables p.base).AgreeAt p.table (st'.tables p.target) other
  faults : st'.faults ≤ st.faults

/-- What a repair of an identity comes to. -/
structure Plan.Fixes (p : Plan) (id : Int64) (st : Stores) (result : Except CutoverError FixOutcome)
    (st' : Stores) : Prop where
  keeps : p.Keeps id st st'
  done : ∀ outcome, result = .ok outcome →
    (st'.tables p.base).AgreeAt p.table (st'.tables p.target) id
  failed : ∀ e, result = .error e → e.isPoison = false ∧ st'.faults < st.faults

namespace Plan

variable {p : Plan} {id : Int64} {st st₁ st₂ : Stores}

theorem Keeps.refl (h : p.Compares st.tables) : p.Keeps id st st :=
  ⟨rfl, h, fun _ _ hagree => hagree, Nat.le_refl _⟩

theorem Keeps.trans (h₁ : p.Keeps id st st₁) (h₂ : p.Keeps id st₁ st₂) : p.Keeps id st st₂ where
  base := h₂.base.trans h₁.base
  compares := h₂.compares
  elsewhere other hne hagree := h₂.elsewhere other hne (h₁.elsewhere other hne hagree)
  faults := Nat.le_trans h₂.faults h₁.faults

/-- A call that failed has spent a fault and nothing else. -/
theorem Fixes.of_failed (h : p.Compares st.tables) {e : StoreError}
    (hfaults : st₁.faults < st.faults) (htables : st₁.tables = st.tables) :
    p.Fixes id st (.error (.store e)) st₁ where
  keeps :=
    ⟨congrFun htables _, htables ▸ h, fun _ _ hagree => htables ▸ hagree, Nat.le_of_lt hfaults⟩
  done := by rintro outcome ⟨⟩
  failed := by
    rintro e ⟨⟩
    exact ⟨rfl, hfaults⟩

/-- A write on the target under the identity that brings agreement on it. -/
theorem Fixes.of_wrote (h : p.Compares st.tables) (hne : p.target ≠ p.base) {t' : Table}
    {row : Option (List Value)} (hwrote : (st.tables p.target).Wrote p.table id row t')
    (hagree : (st.tables p.base).AgreeAt p.table t' id) (outcome : FixOutcome)
    (hfaults : st₁.faults = st.faults)
    (htables : st₁.tables = Function.update st.tables p.target t') :
    p.Fixes id st (.ok outcome) st₁ := by
  have hbase : st₁.tables p.base = st.tables p.base := by
    rw [htables, Function.update_of_ne hne.symm]
  have htarget : st₁.tables p.target = t' := by
    rw [htables, Function.update_self]
  refine ⟨⟨hbase, ⟨?_, ?_, ?_⟩, ?_, hfaults.le⟩, ?_, ?_⟩
  · rw [hbase]
    exact h.base
  · rw [htarget]
    exact hwrote.keyed
  · rw [hbase, htarget]
    intro c
    rw [hwrote.columns]
    exact h.columns c
  · intro other hother hagreed
    rw [hbase, htarget]
    exact (hwrote.agreeAt_iff hother).mpr hagreed
  · rintro _ -
    rw [hbase, htarget]
    exact hagree
  · rintro e ⟨⟩

/-- **A repair brings agreement on its identity, or spends a fault.** -/
theorem ensures_fix {f : Fixer} (hacross : p.target = p.base.other)
    (hf : f.Copies p.base p.table (st.tables p.base).columns) (hnan : (st.tables p.base).NaNFree)
    (h : p.Compares st.tables) (id : Int64) :
    (f.fix id).Ensures Stores.Answers (p.Fixes id st) st := by
  have hne : p.target ≠ p.base := by
    rw [hacross]
    exact p.base.other_ne
  rw [Fixer.fix, hf.base, hf.target, hf.table, hf.columns, ← hacross]
  refine (Stores.ensures_queryRow (h.base.byId_answer f.dialect id)).bind ?_
  rintro found st₁ (⟨rfl, hfaults, htables⟩ | ⟨⟨e, rfl⟩, hfaults, htables⟩)
  · rw [Function.update_eq_self] at htables
    -- the lookup has changed nothing, so the target is as it was
    have htarget : st₁.tables p.target = st.tables p.target := congrFun htables _
    cases hlookup : (st.tables p.base).lookup p.table id with
    | none =>
      obtain ⟨n, t', hrun, hwrote⟩ := h.target.deleteById_answer f.dialect id
      rw [← htarget] at hrun
      refine (Stores.ensures_exec hrun).bind ?_
      rintro written st₂ (⟨rfl, hfaults₂, htables₂⟩ | ⟨⟨e, rfl⟩, hfaults₂, htables₂⟩)
      · exact .of_wrote h hne hwrote (hwrote.agreeAt_none hlookup) .deleted
          (hfaults₂.trans hfaults) (htables ▸ htables₂)
      · exact .of_failed h (hfaults ▸ hfaults₂) (htables₂.trans htables)
    | some r =>
      obtain ⟨hr, rfl⟩ := h.base.lookup_eq_some.mp hlookup
      obtain ⟨bound, n, new, t', hbound, hrun, hwrote, hcells⟩ :=
        h.base.upsert_answer h.target h.columns hr f.dialect
      rw [← htarget] at hrun
      simp only [Option.toList_some, List.map_singleton, List.head?_singleton, hbound]
      refine (Stores.ensures_exec hrun).bind ?_
      rintro written st₂ (⟨rfl, hfaults₂, htables₂⟩ | ⟨⟨e, rfl⟩, hfaults₂, htables₂⟩)
      · exact .of_wrote h hne hwrote (hwrote.agreeAt_row hlookup (hnan.sameRow hr hcells)) .upserted
          (hfaults₂.trans hfaults) (htables ▸ htables₂)
      · exact .of_failed h (hfaults ▸ hfaults₂) (htables₂.trans htables)
  · exact .of_failed h hfaults htables

/-! ## Repeated repairs -/

theorem Keeps.fixes {result : Except CutoverError FixOutcome} (hk : p.Keeps id st st₁)
    (hf : p.Fixes id st₁ result st₂) : p.Fixes id st result st₂ where
  keeps := hk.trans hf.keeps
  done := hf.done
  failed e he := ⟨(hf.failed e he).1, Nat.lt_of_lt_of_le (hf.failed e he).2 hk.faults⟩

/-- **Handling an event comes to an end** as a repair of its row does, if the waits in between are
spans of time. -/
theorem ensures_handle {c : Consumer} {e : Event} (hacross : p.target = p.base.other)
    (hf : (c.fixer e.direction).Copies p.base p.table (st.tables p.base).columns)
    (hnan : (st.tables p.base).NaNFree) (h : p.Compares st.tables) (hspans : c.retry.Spans) :
    (c.handle e.toPayload).Ensures Stores.Answers
      (fun o st' => ∃ result, o = .finished result ∧ p.Fixes e.id st result st') st := by
  have hfix : ∀ s, p.Keeps e.id st s →
      ((c.fixer e.direction).fix e.id).Ensures Stores.Answers (p.Fixes e.id st) s := by
    intro s hs
    have hcopies : (c.fixer e.direction).Copies p.base p.table (s.tables p.base).columns :=
      hs.base ▸ hf
    exact (ensures_fix hacross hcopies (hs.base ▸ hnan) hs.compares e.id).mono fun _ _ => hs.fixes
  rw [Consumer.handle, e.decode_toPayload]
  refine Retry.ensures_attemptsFrom hfix ?_ ?_ ?_ ?_ ?_ (.refl h)
  · intro result s hresult
    exact ⟨result, rfl, hresult⟩
  · intro _ s hresult
    exact hresult.keeps
  · rintro d s hs _ _ ⟨⟩
    exact hs
  · rintro s hs _ _ ⟨⟩
    exact hs
  · intro k hk hnone
    rw [Nat.zero_add] at hk
    exact absurd hnone (hspans k hk)

end Plan
end Cutover
