import Cutover.Proofs.Pool.Transparency

/-! # Stores with transactions

What is relied on of a store is only what every store with transactions promises: a beginning
changes nothing that is committed, a statement in a transaction changes what the transaction has
made of it and nothing else, one that fails not even that, a commit that succeeds brings it in, and
one that fails, a rollback and a transaction that is let go bring in nothing
(`Backend.Transactional`).  Which calls fail is up to the store.  A rehearsed store keeps these
promises under any rules of failure (`Site.rehearsedLaw`).
-/

namespace Cutover

/-- What is relied on of a store with transactions, as long as nobody else writes. -/
structure Backend.Transactional {σ : Type} (b : Backend σ) (α : Type) where
  /-- What has been committed. -/
  contents : σ → α
  /-- What a transaction was begun on, and what its statements have made of it. -/
  Draft : σ → Nat → α → α → Prop
  /-- What a statement that succeeds makes of contents. -/
  effect : Statement → α → α
  begin_ok {x y : σ} {tx : Nat} : b.carry .begin x = (.ok tx, y) →
    contents y = contents x ∧ Draft y tx (contents x) (contents x)
  begin_error {x y : σ} {e : StoreError} : b.carry .begin x = (.error e, y) →
    contents y = contents x
  exec_ok {x y : σ} {tx n : Nat} {s : Statement} {a k : α} : Draft x tx a k →
    b.carry (.txExec tx s) x = (.ok n, y) → contents y = contents x ∧ Draft y tx a (effect s k)
  exec_error {x y : σ} {tx : Nat} {s : Statement} {e : StoreError} {a k : α} : Draft x tx a k →
    b.carry (.txExec tx s) x = (.error e, y) → contents y = contents x ∧ Draft y tx a k
  commit_ok {x y : σ} {tx : Nat} {u : Unit} {k : α} : Draft x tx (contents x) k →
    b.carry (.txCommit tx) x = (.ok u, y) → contents y = k
  commit_error {x y : σ} {tx : Nat} {e : StoreError} {a k : α} : Draft x tx a k →
    b.carry (.txCommit tx) x = (.error e, y) → contents y = contents x
  rollback {x : σ} {tx : Nat} {a k : α} : Draft x tx a k →
    contents (b.carry (.txRollback tx) x).2 = contents x
  release {x : σ} {tx : Nat} {a k : α} : Draft x tx a k → contents (b.release tx x) = contents x

namespace Backend.Transactional

variable {σ α : Type} {b : Backend σ} (law : b.Transactional α)

/-- What statements that succeed make of contents. -/
def effects (ss : List Statement) (a : α) : α := ss.foldl (fun k s => law.effect s k) a

theorem effects_snoc (ss : List Statement) (s : Statement) (a : α) :
    law.effects (ss ++ [s]) a = law.effect s (law.effects ss a) := by
  simp [effects]

end Backend.Transactional

/-! ## Rehearsed stores -/

namespace Rehearsal.Replica

/-- A rehearsed store fails where a rule says so and works otherwise, perhaps with another name for
a column. -/
theorem carry_cases (c : Call) (r : Replica) : ∃ rules,
    (∃ e, r.carry c = (.error e, { r with rules })) ∨
      ∃ f : c.Result → c.Result, r.carry c =
        (((work { r with rules } c).1).map f, (work { r with rules } c).2) := by
  refine ⟨(Rule.meet c r.rules).2, ?_⟩
  unfold carry
  rcases Rule.meet c r.rules with ⟨_ | ⟨e⟩ | ⟨column, name⟩, rules⟩
  · refine .inr ⟨id, ?_⟩
    dsimp only
    rcases work { r with rules } c with ⟨e | a, r'⟩ <;> rfl
  · exact .inl ⟨e, rfl⟩
  · exact .inr ⟨rename column name c, rfl⟩

variable {r r' : Replica} {c : Call} {tx : Nat} {s : Statement} {e : StoreError} {k : Table}

/-- Work that succeeds is behind every call that does. -/
theorem carry_ok {a : c.Result} (h : r.carry c = (.ok a, r')) :
    ∃ rules b, work { r with rules } c = (.ok b, r') := by
  obtain ⟨rules, ⟨e, hfail⟩ | ⟨f, hwork⟩⟩ := r.carry_cases c
  · rw [hfail] at h
    cases h
  · rw [hwork] at h
    rcases hresult : work { r with rules } c with ⟨e | b, y⟩
    · rw [hresult] at h
      cases h
    · rw [hresult] at h
      cases h
      exact ⟨rules, b, hresult⟩

theorem answered_error {α : Type} {f : Table.Answer → α}
    {x : Except StoreError (Table.Answer × Replica)} (h : r.answered f x = (.error e, r')) :
    r' = r := by
  rcases x with e' | ⟨a, y⟩
  · cases h
    rfl
  · cases h

theorem work_txCommit (r : Replica) (tx : Nat) :
    r.work (.txCommit tx) = match r.copy tx with
      | .ok table => ((.ok () : Except StoreError Unit), { r.close tx with table })
      | .error e => (.error e, r) := rfl

/-- Work that fails changes nothing. -/
theorem work_error (h : r.work c = (.error e, r')) : r' = r := by
  cases c with
  | exec s | query s | queryRow s | txExec tx s | txQuery tx s | txQueryRow tx s =>
    exact answered_error h
  | columns sql | prepare sql => exact (Prod.mk.inj h).2.symm
  | begin | txRollback tx => cases h
  | txCommit tx =>
    rw [work_txCommit] at h
    rcases hcopy : r.copy tx with e' | table <;> rw [hcopy] at h
    · exact (Prod.mk.inj h).2.symm
    · cases h

/-- A call that fails changes nothing but the rules. -/
theorem carry_error (h : r.carry c = (.error e, r')) :
    r'.table = r.table ∧ r'.copies = r.copies := by
  obtain ⟨rules, ⟨e, hfail⟩ | ⟨f, hwork⟩⟩ := r.carry_cases c
  · rw [hfail] at h
    cases h
    exact ⟨rfl, rfl⟩
  · rw [hwork] at h
    rcases hresult : work { r with rules } c with ⟨e' | b, y⟩
    · rw [hresult] at h
      cases h
      rw [work_error hresult]
      exact ⟨rfl, rfl⟩
    · rw [hresult] at h
      cases h

/-- What a statement that succeeds makes of a table. -/
def effect (s : Statement) (t : Table) : Table :=
  match t.runStatement s with
  | .ok (_, t') => t'
  | .error _ => t

theorem carry_begin (h : r.carry .begin = (.ok tx, r')) :
    r'.table = r.table ∧ r'.copies.lookup tx = some r.table := by
  rcases hmeet : Rule.meet .begin r.rules with ⟨_ | ⟨e⟩ | ⟨column, name⟩, rules⟩ <;>
  · rw [carry, hmeet] at h
    cases h
    all_goals exact ⟨rfl, List.lookup_cons_self⟩

theorem carry_txExec {n : Nat} (hk : r.copies.lookup tx = some k)
    (h : r.carry (.txExec tx s) = (.ok n, r')) :
    r'.table = r.table ∧ r'.copies.lookup tx = some (effect s k) := by
  obtain ⟨rules, b, hwork⟩ := carry_ok h
  have hcopy : copy { r with rules } tx = .ok k := by rw [copy, hk]
  have hrun : runIn { r with rules } tx s = (k.runStatement s).bind fun x =>
      .ok (x.1, { r.close tx with rules, copies := (tx, x.2) :: (r.close tx).copies }) := by
    rw [runIn, hcopy]
    rfl
  change answered _ _ (runIn { r with rules } tx s) = (.ok b, r') at hwork
  rw [hrun] at hwork
  unfold effect
  rcases hresult : k.runStatement s with e | ⟨a, t⟩ <;> rw [hresult] at hwork <;> cases hwork
  exact ⟨rfl, List.lookup_cons_self⟩

theorem carry_txCommit {u : Unit} (hk : r.copies.lookup tx = some k)
    (h : r.carry (.txCommit tx) = (.ok u, r')) : r'.table = k := by
  obtain ⟨rules, b, hwork⟩ := carry_ok h
  have hcopy : copy { r with rules } tx = .ok k := by rw [copy, hk]
  rw [work_txCommit, hcopy] at hwork
  cases hwork
  rfl

theorem carry_txRollback : (r.carry (.txRollback tx)).2.table = r.table := by
  obtain ⟨rules, ⟨e, hfail⟩ | ⟨f, hwork⟩⟩ := r.carry_cases (.txRollback tx)
  · rw [hfail]
  · rw [hwork]
    rfl

end Rehearsal.Replica

/-- A rehearsed store has transactions, whatever rules it fails by. -/
def Site.rehearsedLaw : rehearsed.Transactional Table where
  contents := Rehearsal.Replica.table
  Draft r tx _ k := r.copies.lookup tx = some k
  effect := Rehearsal.Replica.effect
  begin_ok := Rehearsal.Replica.carry_begin
  begin_error h := (Rehearsal.Replica.carry_error h).1
  exec_ok := Rehearsal.Replica.carry_txExec
  exec_error hk h := by
    obtain ⟨htable, hcopies⟩ := Rehearsal.Replica.carry_error h
    exact ⟨htable, (congrArg (List.lookup _) hcopies).trans hk⟩
  commit_ok := Rehearsal.Replica.carry_txCommit
  commit_error _ h := (Rehearsal.Replica.carry_error h).1
  rollback _ := Rehearsal.Replica.carry_txRollback
  release _ := rfl

end Cutover
