import Cutover.Proofs.Dialogue.Path
import Cutover.Proofs.Pool.Transactional

/-! # Transactions of the pool have all of their effect or none

Until the end of a transaction of the pool both stores hold what they held before it, and its
branches have made of that what the statements that have succeeded in each of them make of it
(`Site.Pending`).  There is one place in which that is decided, the answer of the authoritative
store to the commit: before it nothing is committed anywhere, and after a refusal the second branch
is let go.
-/

namespace Cutover

open Dialogue Pool

/-! ## What is asked of the stores -/

/-- The statement that has succeeded in a branch, if the exchange is one of that kind. -/
def Exchange.succeeded? (b : Branch) : Exchange Work → Option Statement
  | ⟨.call on (.txExec tx s), .ok _⟩ => if (⟨on, tx⟩ : Branch) = b then some s else none
  | _ => none

/-- The statements that have succeeded in a branch. -/
def succeededIn (b : Branch) (es : List (Exchange Work)) : List Statement :=
  es.filterMap (·.succeeded? b)

/-- The statements that the pool has reported to be carried out. -/
def carriedOut (rs : List (Statement × Except StoreError Nat)) : List Statement :=
  (rs.filter (·.2.isOk)).map Prod.fst

namespace Site

variable {σ α : Side → Type} (S : Site σ)

/-- The exchanges of a conversation at a site. -/
def exchanges {β : Type} : Dialogue Work β → Moment σ → List (Exchange Work)
  | .done _, _ => []
  | .ask r next, m => ⟨r, (S.answer r m).1⟩ :: exchanges (next (S.answer r m).1) (S.answer r m).2

theorem exchanges_bind {β γ : Type} (d : Dialogue Work β) (f : β → Dialogue Work γ) (m : Moment σ) :
    S.exchanges (d >>= f) m =
      S.exchanges d m ++ S.exchanges (f (S.carryOut d m).1) (S.carryOut d m).2 := by
  induction d generalizing m with
  | done b => rfl
  | ask r next ih =>
    rw [ask_bind, exchanges, exchanges, ih, List.cons_append]
    rfl

theorem exchanges_followedBy (on : Side) (c : Call) (d : Dialogue Work Unit) (m : Moment σ) :
    S.exchanges (followedBy on c d) m =
      ⟨.call on c, ((S.backend on).carry c (m.held on)).1⟩ ::
        match (S.backend on).carry c (m.held on) with
        | (.error _, _) => []
        | (.ok _, x) => S.exchanges d (m.put on x) := by
  rw [followedBy, exchanges_bind, carryOut_callStore]
  refine congrArg (List.cons _) ?_
  rcases (S.backend on).carry c (m.held on) with ⟨e | r, x⟩
  · rfl
  · dsimp only
    rw [followUp, exchanges_bind]
    exact List.append_nil _

/-! ## The course of a transaction -/

variable (law : (d : Side) → (S.backend d).Transactional (α d))

/-- Both stores hold the same as before. -/
def Unchanged (m m' : Moment σ) : Prop :=
  ∀ d, (law d).contents (m'.held d) = (law d).contents (m.held d)

/-- Nobody has written meanwhile, nor touched the transactions of others. -/
def Quiet (m m' : Moment σ) : Prop :=
  S.Unchanged law m m' ∧ ∀ d tx a k, (law d).Draft (m.held d) tx a k →
    (law d).Draft (m'.held d) tx a k

/-- Statements that are given in a transaction, with what the pool reports of each, the exchanges
with the stores, and the moment after them. -/
inductive Course (t : Transaction) (m : Moment σ) :
    List (Statement × Except StoreError Nat) → List (Exchange Work) → Moment σ → Prop where
  | begun : Course t m [] [] m
  | exec {rs : List (Statement × Except StoreError Nat)} {es : List (Exchange Work)} {m₁ : Moment σ}
      (s : Statement) : Course t m rs es m₁ →
      Course t m (rs ++ [(s, (S.service.execIn t s m₁).1)]) (es ++ S.exchanges (t.exec s) m₁)
        (S.service.execIn t s m₁).2
  | meanwhile {rs : List (Statement × Except StoreError Nat)} {es : List (Exchange Work)}
      {m₁ m₂ : Moment σ} : Course t m rs es m₁ → S.Quiet law m₁ m₂ → Course t m rs es m₂

/-- A branch that has made of what its store held at a moment what statements make of that. -/
def Drafted (m₀ m : Moment σ) (b : Branch) (ss : List Statement) : Prop :=
  (law b.side).Draft (m.held b.side) b.tx ((law b.side).contents (m₀.held b.side))
    ((law b.side).effects ss ((law b.side).contents (m₀.held b.side)))

/-- A transaction that is not over: nothing is committed, and each branch has made of what its store
held what the statements that have succeeded in it make of that. -/
structure Pending (m₀ : Moment σ) (t : Transaction) (rs : List (Statement × Except StoreError Nat))
    (es : List (Exchange Work)) (m : Moment σ) : Prop where
  unchanged : S.Unchanged law m₀ m
  first : S.Drafted law m₀ m t.primary (carriedOut rs)
  second : ∀ b, t.secondary = some b → b.side ≠ t.primary.side ∧
    S.Drafted law m₀ m b (succeededIn b es) ∧ (succeededIn b es).Sublist (carriedOut rs)

variable {S law} {m₀ m m' : Moment σ} {t : Transaction}
    {rs : List (Statement × Except StoreError Nat)}
  {es : List (Exchange Work)}

/-- A store that is left as it holds what it held, and the other one too. -/
theorem Unchanged.put (h : S.Unchanged law m₀ m) {on : Side} {x : σ on}
    (hx : (law on).contents x = (law on).contents (m.held on)) :
    S.Unchanged law m₀ (m.put on x) := by
  intro d
  by_cases hd : d = on
  · subst hd
    rw [Moment.held_put_self, hx]
    exact h d
  · rw [Moment.held_put_of_ne _ hd]
    exact h d

theorem Unchanged.release (h : S.Unchanged law m₀ m) {b : Branch}
    (hb : (law b.side).contents ((S.backend b.side).release b.tx (m.held b.side)) =
      (law b.side).contents (m.held b.side)) : S.Unchanged law m₀ (S.release b m) := by
  intro d
  by_cases hd : d = b.side
  · subst hd
    rw [held_release_self, hb]
    exact h _
  · rw [held_release_of_ne S hd]
    exact h d

theorem Drafted.congr {b : Branch} {ss : List Statement} (h : S.Drafted law m₀ m b ss)
    (hheld : m'.held b.side = m.held b.side) : S.Drafted law m₀ m' b ss := by
  unfold Drafted
  rw [hheld]
  exact h

/-- A branch is where its store has put it. -/
theorem drafted_put {b : Branch} {x : σ b.side} {ss : List Statement}
    (h : (law b.side).Draft x b.tx ((law b.side).contents (m₀.held b.side))
      ((law b.side).effects ss ((law b.side).contents (m₀.held b.side)))) :
    S.Drafted law m₀ (m.put b.side x) b ss := by
  unfold Drafted
  rw [Moment.held_put_self]
  exact h

/-! ### The beginning -/

/-- What the beginning of a transaction comes to at a site, and the moment after it. -/
inductive Begins (S : Site σ) (m : Moment σ) (on : Side) :
    Except StoreError Transaction → Moment σ → Prop where
  | refused {e : StoreError} {x : σ on} : (S.backend on).carry .begin (m.held on) = (.error e, x) →
      Begins S m on (.error e) (m.tick.put on x)
  | alone {tx : Nat} {x : σ on} : (S.backend on).carry .begin (m.held on) = (.ok tx, x) →
      Begins S m on (.ok ⟨⟨on, tx⟩, none⟩) (m.tick.put on x)
  | deserted {tx : Nat} {x : σ on} {side : Side} {e : StoreError} {y : σ side} :
      (S.backend on).carry .begin (m.held on) = (.ok tx, x) → side ≠ on →
      (S.backend side).carry .begin ((m.tick.put on x).held side) = (.error e, y) →
      Begins S m on (.ok ⟨⟨on, tx⟩, none⟩) ((m.tick.put on x).put side y)
  | paired {tx tx' : Nat} {x : σ on} {side : Side} {y : σ side} :
      (S.backend on).carry .begin (m.held on) = (.ok tx, x) → side ≠ on →
      (S.backend side).carry .begin ((m.tick.put on x).held side) = (.ok tx', y) →
      Begins S m on (.ok ⟨⟨on, tx⟩, some ⟨side, tx'⟩⟩) ((m.tick.put on x).put side y)

theorem begins (S : Site σ) (m : Moment σ) :
    S.Begins m (S.phase m.time).authoritative (S.carryOut Pool.begin m).1
    (S.carryOut Pool.begin m).2 := by
  rw [S.carryOut_begin rfl]
  rcases hfirst : (S.backend _).carry .begin (m.held (S.phase m.time).authoritative)
    with ⟨e | tx, x⟩
  · exact .refused hfirst
  · dsimp only
    cases hside : (S.phase m.time).secondary? with
    | none => exact .alone hfirst
    | some side =>
      have hne := Phase.secondary?_ne hside
      dsimp only
      rcases hsecond : (S.backend side).carry .begin
        ((m.tick.put (S.phase m.time).authoritative x).held side) with ⟨e | tx', y⟩
      · exact .deserted hfirst hne hsecond
      · exact .paired hfirst hne hsecond

/-- A beginning that fails leaves nothing behind. -/
theorem Begins.unchanged {on : Side} {e : StoreError} (h : S.Begins m on (.error e) m') :
    S.Unchanged law m m' := by
  cases h with
  | refused hfirst => exact Unchanged.put (fun _ => rfl) ((law on).begin_error hfirst)

variable (law) in
/-- The first branch has begun. -/
theorem drafted_begin {on : Side} {tx : Nat} {x : σ on}
    (h : (S.backend on).carry .begin (m.held on) = (.ok tx, x)) :
    S.Unchanged law m (m.tick.put on x) ∧ S.Drafted law m (m.tick.put on x) ⟨on, tx⟩ [] := by
  obtain ⟨hsame, hdraft⟩ := (law on).begin_ok h
  exact ⟨Unchanged.put (fun _ => rfl) hsame, drafted_put (b := ⟨on, tx⟩) hdraft⟩

variable (law) in
/-- A transaction that has begun is pending. -/
theorem Begins.pending {on : Side} (h : S.Begins m on (.ok t) m') :
    t.primary.side = on ∧ S.Pending law m t [] [] m' := by
  cases h with
  | alone hfirst =>
    obtain ⟨hunchanged, hdrafted⟩ := drafted_begin law hfirst
    exact ⟨rfl, hunchanged, hdrafted, nofun⟩
  | deserted hfirst hne hsecond =>
    obtain ⟨hunchanged, hdrafted⟩ := drafted_begin law hfirst
    exact ⟨rfl, hunchanged.put ((law _).begin_error hsecond),
      hdrafted.congr (Moment.held_put_of_ne _ hne.symm _), nofun⟩
  | @paired _ _ _ side _ hfirst hne hsecond =>
    obtain ⟨hunchanged, hdrafted⟩ := drafted_begin law hfirst
    obtain ⟨hsame, hdraft⟩ := (law _).begin_ok hsecond
    refine ⟨rfl, hunchanged.put hsame, hdrafted.congr (Moment.held_put_of_ne _ hne.symm _), ?_⟩
    intro b hb
    cases hb
    have hbase := hunchanged side
    rw [hbase] at hdraft
    exact ⟨hne, drafted_put (b := ⟨side, _⟩) hdraft, .slnil⟩

/-! ### The statements -/

theorem carriedOut_snoc_ok (rs : List (Statement × Except StoreError Nat)) (s : Statement)
    (n : Nat) : carriedOut (rs ++ [(s, .ok n)]) = carriedOut rs ++ [s] := by
  simp [carriedOut, Except.isOk, Except.toBool]

theorem carriedOut_snoc_error (rs : List (Statement × Except StoreError Nat)) (s : Statement)
    (e : StoreError) :
    carriedOut (rs ++ [(s, .error e)]) = carriedOut rs := by
  simp [carriedOut, Except.isOk, Except.toBool]

theorem succeededIn_append (b : Branch) (es fs : List (Exchange Work)) :
    succeededIn b (es ++ fs) = succeededIn b es ++ succeededIn b fs :=
  List.filterMap_append

/-- What one store makes of a statement is nothing that succeeds in a branch on the other one. -/
theorem succeededIn_elsewhere {b : Branch} {on : Side} (hon : b.side ≠ on) (tx : Nat)
    (s : Statement) (reply : Except StoreError Nat) (fs : List (Exchange Work)) :
    succeededIn b (⟨.call on (.txExec tx s), reply⟩ :: fs) = succeededIn b fs := by
  refine List.filterMap_cons_none ?_
  rcases reply with e | n
  · rfl
  · refine if_neg ?_
    rintro rfl
    exact hon rfl

theorem exchanges_repeatCall {b : Branch} (h : t.secondary = some b) (c : Nat → Call) :
    S.exchanges (t.repeatCall c) m =
      [⟨.call b.side (c b.tx), ((S.backend b.side).carry (c b.tx) (m.held b.side)).1⟩] := by
  obtain ⟨primary, secondary⟩ := t
  cases h
  rfl

theorem carryOut_repeatCall {b : Branch} (h : t.secondary = some b) (c : Nat → Call) :
    (S.carryOut (t.repeatCall c) m).2 =
      m.put b.side ((S.backend b.side).carry (c b.tx) (m.held b.side)).2 := by
  obtain ⟨primary, secondary⟩ := t
  cases h
  rfl

theorem carryOut_repeatCall_none (h : t.secondary = none) (c : Nat → Call) :
    (S.carryOut (t.repeatCall c) m).2 = m := by
  obtain ⟨primary, secondary⟩ := t
  cases h
  rfl

/-- The authoritative store has carried a statement out, and the other one has not been asked
yet. -/
theorem Pending.exec_first (h : S.Pending law m₀ t rs es m) {s : Statement} {n : Nat}
    {x : σ t.primary.side}
    (hfirst : (S.backend t.primary.side).carry (.txExec t.primary.tx s) (m.held t.primary.side) =
      (.ok n, x)) :
    S.Unchanged law m₀ (m.put t.primary.side x) ∧
      S.Drafted law m₀ (m.put t.primary.side x) t.primary (carriedOut rs ++ [s]) ∧
      ∀ b, t.secondary = some b →
      S.Drafted law m₀ (m.put t.primary.side x) b (succeededIn b es) := by
  obtain ⟨hsame, hdraft⟩ := (law t.primary.side).exec_ok h.first hfirst
  rw [← (law t.primary.side).effects_snoc] at hdraft
  refine ⟨h.unchanged.put hsame, drafted_put hdraft, fun b hb => ?_⟩
  obtain ⟨hne, hdrafted, -⟩ := h.second b hb
  exact hdrafted.congr (Moment.held_put_of_ne _ hne x)

theorem succeededIn_own_ok (b : Branch) (s : Statement) (n : Nat) :
    succeededIn b [⟨.call b.side (.txExec b.tx s), (.ok n : Except StoreError Nat)⟩] = [s] :=
  List.filterMap_cons_some (if_pos rfl)

theorem succeededIn_own_error (b : Branch) (s : Statement) (e : StoreError) :
    succeededIn b [⟨.call b.side (.txExec b.tx s), (.error e : Except StoreError Nat)⟩] = [] := rfl

/-- What the other store makes of a statement that the authoritative one has carried out. -/
theorem Pending.exec_second (h : S.Pending law m₀ t rs es m) {s : Statement} {n : Nat}
    {x : σ t.primary.side} {b : Branch} {reply : Except StoreError Nat} {y : σ b.side}
    (hfirst : (S.backend t.primary.side).carry (.txExec t.primary.tx s) (m.held t.primary.side) =
      (.ok n, x)) (hsecondary : t.secondary = some b)
    (hsecond : (S.backend b.side).carry (.txExec b.tx s) ((m.put t.primary.side x).held b.side) =
      (reply, y)) :
    S.Pending law m₀ t (rs ++ [(s, .ok n)])
      (es ++ [⟨.call t.primary.side (.txExec t.primary.tx s), (.ok n : Except StoreError Nat)⟩,
        ⟨.call b.side (.txExec b.tx s), reply⟩]) ((m.put t.primary.side x).put b.side y) := by
  obtain ⟨hunchanged, hdrafted, hother⟩ := h.exec_first hfirst
  obtain ⟨hne, -, hsome⟩ := h.second b hsecondary
  have hfirst' := hdrafted.congr (Moment.held_put_of_ne (m.put t.primary.side x) hne.symm y)
  rcases reply with e | k
  · obtain ⟨hsame, hdraft⟩ := (law b.side).exec_error (hother b hsecondary) hsecond
    refine ⟨hunchanged.put hsame, carriedOut_snoc_ok rs s n ▸ hfirst', fun b' hb' => ?_⟩
    obtain rfl := Option.some.inj (hsecondary.symm.trans hb')
    rw [succeededIn_append, succeededIn_elsewhere hne, succeededIn_own_error, List.append_nil,
      carriedOut_snoc_ok]
    exact ⟨hne, drafted_put hdraft, hsome.trans (List.sublist_append_left ..)⟩
  · obtain ⟨hsame, hdraft⟩ := (law b.side).exec_ok (hother b hsecondary) hsecond
    refine ⟨hunchanged.put hsame, carriedOut_snoc_ok rs s n ▸ hfirst', fun b' hb' => ?_⟩
    obtain rfl := Option.some.inj (hsecondary.symm.trans hb')
    rw [succeededIn_append, succeededIn_elsewhere hne, succeededIn_own_ok, carriedOut_snoc_ok]
    rw [← (law b.side).effects_snoc] at hdraft
    exact ⟨hne, drafted_put hdraft, hsome.append_right [s]⟩

/-- **A statement leaves a transaction pending**, whatever becomes of it on either store. -/
theorem Pending.exec (h : S.Pending law m₀ t rs es m) (s : Statement) :
    S.Pending law m₀ t (rs ++ [(s, (S.service.execIn t s m).1)]) (es ++ S.exchanges (t.exec s) m)
      (S.service.execIn t s m).2 := by
  show S.Pending law m₀ t (rs ++ [(s, (S.carryOut (t.exec s) m).1)]) _ (S.carryOut (t.exec s) m).2
  rw [t.exec_eq, carryOut_followedBy, exchanges_followedBy]
  rcases hfirst :
    (S.backend t.primary.side).carry (.txExec t.primary.tx s) (m.held t.primary.side) with
    ⟨e | n, x⟩
  · -- nothing is asked of the other store
    obtain ⟨hsame, hdraft⟩ := (law t.primary.side).exec_error h.first hfirst
    rw [← carriedOut_snoc_error rs s e] at hdraft
    refine ⟨h.unchanged.put hsame, drafted_put hdraft, fun b hb => ?_⟩
    obtain ⟨hne, hdrafted, hsome⟩ := h.second b hb
    rw [succeededIn_append, succeededIn_elsewhere hne, carriedOut_snoc_error]
    exact ⟨hne, by simpa [succeededIn] using hdrafted.congr (Moment.held_put_of_ne _ hne x),
      by simpa [succeededIn] using hsome⟩
  · dsimp only
    cases hsecondary : t.secondary with
    | none =>
      obtain ⟨hunchanged, hdrafted, -⟩ := h.exec_first hfirst
      rw [carryOut_repeatCall_none hsecondary]
      refine ⟨hunchanged, carriedOut_snoc_ok rs s n ▸ hdrafted, fun b hb => ?_⟩
      cases hsecondary.symm.trans hb
    | some b =>
      rw [carryOut_repeatCall hsecondary, exchanges_repeatCall hsecondary]
      exact h.exec_second hfirst hsecondary rfl

theorem Pending.meanwhile (h : S.Pending law m₀ t rs es m) (hquiet : S.Quiet law m m') :
    S.Pending law m₀ t rs es m' := by
  refine ⟨fun d => (hquiet.1 d).trans (h.unchanged d), hquiet.2 _ _ _ _ h.first, fun b hb => ?_⟩
  obtain ⟨hne, hdrafted, hsome⟩ := h.second b hb
  exact ⟨hne, hquiet.2 _ _ _ _ hdrafted, hsome⟩

/-- A transaction is pending until its end. -/
theorem Course.pending (h : S.Course law t m rs es m') (hbegun : S.Pending law m₀ t [] [] m) :
    S.Pending law m₀ t rs es m' := by
  induction h with
  | begun => exact hbegun
  | exec s _ ih => exact ih.exec s
  | meanwhile _ hquiet ih => exact ih.meanwhile hquiet

/-! ### The end -/

/-- Letting the second branch go leaves nothing behind. -/
theorem Unchanged.releaseSecond (h : S.Unchanged law m₀ m)
    (hb : ∀ b, t.secondary = some b → ∃ a k, (law b.side).Draft (m.held b.side) b.tx a k) :
    S.Unchanged law m₀ (S.releaseSecond t m) := by
  cases hsecondary : t.secondary with
  | none =>
    have hsame : S.releaseSecond t m = m := by rw [Site.releaseSecond, hsecondary]
    rw [hsame]
    exact h
  | some b =>
    obtain ⟨a, k, hdraft⟩ := hb b hsecondary
    rw [S.releaseSecond_of_some hsecondary]
    exact h.release ((law b.side).release hdraft)

/-- What the transaction has made of the other store stays its own. -/
theorem Pending.second_put (h : S.Pending law m₀ t rs es m) (x : σ t.primary.side) (b : Branch)
    (hb : t.secondary = some b) :
    S.Drafted law m₀ (m.put t.primary.side x) b (succeededIn b es) := by
  obtain ⟨hne, hdrafted, -⟩ := h.second b hb
  exact hdrafted.congr (Moment.held_put_of_ne _ hne x)

theorem Pending.drop (h : S.Pending law m₀ t rs es m) :
    S.Unchanged law m₀ (S.service.drop t m) := by
  show S.Unchanged law m₀ (S.releaseSecond t (S.release t.primary m))
  refine Unchanged.releaseSecond (h.unchanged.release ((law _).release h.first)) fun b hb => ?_
  obtain ⟨hne, hdrafted, -⟩ := h.second b hb
  rw [held_release_of_ne S hne]
  exact ⟨_, _, hdrafted⟩

/-- A rollback leaves nothing behind, whether it succeeds or not. -/
theorem Pending.rollback (h : S.Pending law m₀ t rs es m) :
    S.Unchanged law m₀ (S.service.rollback t m).2 := by
  show S.Unchanged law m₀ (S.ending t t.rollback m).2
  rw [t.rollback_eq, ending_followedBy]
  have hsame := (law t.primary.side).rollback h.first
  rcases hfirst : (S.backend t.primary.side).carry (.txRollback t.primary.tx)
    (m.held t.primary.side) with ⟨e | r, x⟩
  · rw [hfirst] at hsame
    exact (h.unchanged.put hsame).releaseSecond fun b hb => ⟨_, _, h.second_put x b hb⟩
  · rw [hfirst] at hsame
    dsimp only
    cases hsecondary : t.secondary with
    | none =>
      rw [carryOut_repeatCall_none hsecondary]
      exact h.unchanged.put hsame
    | some b =>
      rw [carryOut_repeatCall hsecondary]
      exact (h.unchanged.put hsame).put ((law b.side).rollback (h.second_put x b hsecondary))

/-- What a commit leaves that the authoritative store has carried out: there the effect of all
statements that were carried out, and in the other store none or that of those that have succeeded
in its own branch. -/
structure Committed (S : Site σ) (law : (d : Side) → (S.backend d).Transactional (α d))
    (m₀ : Moment σ) (t : Transaction) (rs : List (Statement × Except StoreError Nat))
    (es : List (Exchange Work)) (m : Moment σ) : Prop where
  first : (law t.primary.side).contents (m.held t.primary.side) =
    (law t.primary.side).effects (carriedOut rs)
      ((law t.primary.side).contents (m₀.held t.primary.side))
  second : ∀ d, d ≠ t.primary.side →
    (law d).contents (m.held d) = (law d).contents (m₀.held d) ∨
      ∃ b, t.secondary = some b ∧ b.side = d ∧ (succeededIn b es).Sublist (carriedOut rs) ∧
        (law d).contents (m.held d) =
          (law d).effects (succeededIn b es) ((law d).contents (m₀.held d))

/-- The authoritative store has carried a commit out, and the other one has not been asked yet. -/
theorem Pending.commit_first (h : S.Pending law m₀ t rs es m) {r : Unit} {x : σ t.primary.side}
    (hfirst : (S.backend t.primary.side).carry (.txCommit t.primary.tx) (m.held t.primary.side) =
      (.ok r, x)) :
    S.Committed law m₀ t rs es (m.put t.primary.side x) := by
  refine ⟨?_, fun d hd => .inl ?_⟩
  · have hbase := h.unchanged t.primary.side
    have hdraft := h.first
    unfold Drafted at hdraft
    rw [← hbase] at hdraft
    rw [Moment.held_put_self, ← hbase]
    exact (law t.primary.side).commit_ok hdraft hfirst
  · rw [Moment.held_put_of_ne _ hd]
    exact h.unchanged d

/-- What the other store makes of a commit that the authoritative one has carried out. -/
theorem Pending.commit_second (h : S.Pending law m₀ t rs es m) {r : Unit} {x : σ t.primary.side}
    {b : Branch}
    (hfirst : (S.backend t.primary.side).carry (.txCommit t.primary.tx) (m.held t.primary.side) =
      (.ok r, x)) (hsecondary : t.secondary = some b) :
    S.Committed law m₀ t rs es ((m.put t.primary.side x).put b.side
      ((S.backend b.side).carry (.txCommit b.tx) ((m.put t.primary.side x).held b.side)).2) := by
  have hcommitted := h.commit_first hfirst
  obtain ⟨hne, -, hsome⟩ := h.second b hsecondary
  have hheld : (m.put t.primary.side x).held b.side = m.held b.side := Moment.held_put_of_ne _ hne x
  have hdraft := h.second_put x b hsecondary
  refine ⟨?_, fun d hd => ?_⟩
  · rw [Moment.held_put_of_ne _ hne.symm]
    exact hcommitted.first
  · by_cases hdb : d = b.side
    · subst hdb
      have hbase : (law b.side).contents ((m.put t.primary.side x).held b.side) =
          (law b.side).contents (m₀.held b.side) := by
        rw [hheld]
        exact h.unchanged b.side
      rw [Moment.held_put_self]
      rcases hsecond : (S.backend b.side).carry (.txCommit b.tx)
        ((m.put t.primary.side x).held b.side) with ⟨e | r', y⟩
      · exact .inl (((law b.side).commit_error hdraft hsecond).trans hbase)
      · unfold Drafted at hdraft
        rw [← hbase] at hdraft
        refine .inr ⟨b, hsecondary, rfl, hsome, ?_⟩
        rw [← hbase]
        exact (law b.side).commit_ok hdraft hsecond
    · rw [Moment.held_put_of_ne _ hdb]
      exact hcommitted.second d hd

/-- **The answer of the authoritative store to a commit decides**: after a refusal nothing is
committed. -/
theorem Pending.commit (h : S.Pending law m₀ t rs es m) {r : Except StoreError Unit}
    (hr : S.service.commit t m = (r, m')) :
    (∀ e, r = .error e → S.Unchanged law m₀ m') ∧
      (∀ u, r = .ok u → S.Committed law m₀ t rs es m') := by
  have hcommit : S.ending t t.commit m = (r, m') := hr
  rw [t.commit_eq, ending_followedBy] at hcommit
  rcases hfirst : (S.backend t.primary.side).carry (.txCommit t.primary.tx)
    (m.held t.primary.side) with ⟨e | u, x⟩
  · rw [hfirst] at hcommit
    cases hcommit
    refine ⟨fun _ _ => ?_, nofun⟩
    have hsame := (law t.primary.side).commit_error h.first hfirst
    exact (h.unchanged.put hsame).releaseSecond fun b hb => ⟨_, _, h.second_put x b hb⟩
  · rw [hfirst] at hcommit
    cases hcommit
    refine ⟨nofun, fun _ _ => ?_⟩
    cases hsecondary : t.secondary with
    | none =>
      rw [carryOut_repeatCall_none hsecondary]
      exact h.commit_first hfirst
    | some b =>
      rw [carryOut_repeatCall hsecondary]
      exact h.commit_second hfirst hsecondary

/-! ## Whole transactions -/

/-- What becomes of a transaction that is begun at a moment, with any statements in it.

* A beginning that fails leaves both stores as they were.
* So does a transaction that is let go or rolled back, even if a rollback fails.
* So does a commit that fails.
* A commit that succeeds leaves in the store that was authoritative at the beginning the effect of
  the statements that were reported to be carried out, and in the other one none or that of those
  that have also succeeded there. -/
structure Atomic (S : Site σ) (law : (d : Side) → (S.backend d).Transactional (α d))
    (m : Moment σ) : Prop where
  refused : ∀ e m₁, S.service.begin m = (.error e, m₁) → S.Unchanged law m m₁
  dropped : ∀ t m₁ rs es m₂, S.service.begin m = (.ok t, m₁) → S.Course law t m₁ rs es m₂ →
    S.Unchanged law m (S.service.drop t m₂)
  rolledBack : ∀ t m₁ rs es m₂, S.service.begin m = (.ok t, m₁) → S.Course law t m₁ rs es m₂ →
    S.Unchanged law m (S.service.rollback t m₂).2
  failed : ∀ t m₁ rs es m₂ e m₃, S.service.begin m = (.ok t, m₁) → S.Course law t m₁ rs es m₂ →
    S.service.commit t m₂ = (.error e, m₃) → S.Unchanged law m m₃
  committed : ∀ t m₁ rs es m₂ u m₃, S.service.begin m = (.ok t, m₁) → S.Course law t m₁ rs es m₂ →
    S.service.commit t m₂ = (.ok u, m₃) →
    t.primary.side = (S.phase m.time).authoritative ∧ S.Committed law m t rs es m₃

/-- **Transactions of the pool are atomic**, whatever phase they are begun in, whatever statements
are given in them, and whichever calls of either store fail. -/
theorem transactions_are_atomic (S : Site σ) (law : (d : Side) → (S.backend d).Transactional (α d))
    (m : Moment σ) : S.Atomic law m := by
  have hbegins : ∀ {r m₁}, S.service.begin m = (r, m₁) →
      S.Begins m (S.phase m.time).authoritative r m₁ := by
    intro r m₁ h
    have hbegins := S.begins m
    rw [show S.carryOut Pool.begin m = (r, m₁) from h] at hbegins
    exact hbegins
  have hpending : ∀ {t m₁ rs es m₂}, S.service.begin m = (.ok t, m₁) → S.Course law t m₁ rs es m₂ →
      S.Pending law m t rs es m₂ := fun h hcourse => hcourse.pending ((hbegins h).pending law).2
  exact {
    refused := fun e m₁ h => (hbegins h).unchanged
    dropped := fun t m₁ rs es m₂ h hcourse => (hpending h hcourse).drop
    rolledBack := fun t m₁ rs es m₂ h hcourse => (hpending h hcourse).rollback
    failed := fun t m₁ rs es m₂ e m₃ h hcourse hcommit =>
      ((hpending h hcourse).commit hcommit).1 e rfl
    committed := fun t m₁ rs es m₂ u m₃ h hcourse hcommit =>
      ⟨((hbegins h).pending law).1, ((hpending h hcourse).commit hcommit).2 u rfl⟩ }

open Rehearsal

/-- Two rehearsed stores in a phase that writes both. -/
def writingBoth : Site fun _ => Replica where
  backend _ := rehearsed
  phase _ := .srcFirst

/-- A moment at which both stores are empty, and the one across fails to carry a second statement
out. -/
def acrossFalters : Moment fun _ => Replica where
  held
    | .src => { table := ⟨"items", "id", ["id", "name"], []⟩ }
    | .dst =>
      { table := ⟨"items", "id", ["id", "name"], []⟩
        rules := [{ effect := .fail (.unavailable "gone"), call := some "tx_exec", skip := 1 }] }

/-- A row of the items. -/
def insertItem (id : Int64) (name : String) : Statement :=
  ⟨"INSERT INTO items (id, name) VALUES (?, ?)", [.int id, .text name]⟩

/-- Of three statements the second fails in the authoritative store and the third in the other one:
the commit leaves two rows in the first store and one in the second. -/
theorem transactions_are_atomic_sample :
    writingBoth.Atomic (fun _ => rehearsedLaw) acrossFalters ∧
      ∃ t m₁ rs es m₂ m₃, writingBoth.service.begin acrossFalters = (.ok t, m₁) ∧
        writingBoth.Course (fun _ => rehearsedLaw) t m₁ rs es m₂ ∧
        carriedOut rs = [insertItem 1 "a", insertItem 2 "b"] ∧
        writingBoth.service.commit t m₂ = (.ok (), m₃) ∧
        (m₃.held .src).table.rows = [[.int 1, .text "a"], [.int 2, .text "b"]] ∧
        (m₃.held .dst).table.rows = [[.int 1, .text "a"]] := by
  refine ⟨transactions_are_atomic _ _ _, _, _, _, _, _, _, rfl,
    .exec (insertItem 2 "b") (.exec (insertItem 1 "c") (.exec (insertItem 1 "a") .begun)), ?_,
    Prod.ext ?_ rfl, ?_, ?_⟩
  all_goals decide +kernel

end Site
end Cutover
