import Cutover.Proofs.Sql.Spelling
import Cutover.Sql.Parser

/-! # Statements are read as the commands they were written from

A store gets the text of a statement, the cutover works with commands; what ties the two is that the
reader of statements takes every text that `Command.render` writes for the command it was written
from (`command?_render`), in each of the dialects and under every grammar that takes the dialect.
Only the key of an insertion is lost where the dialect has no place for it (`Command.asRead`).

The text falls into the tokens of the command; here these are read part by part, each part whatever
comes after it, as long as that does not continue the part.
-/

namespace Cutover.Sql

/-- The conflict clause without a key that the dialect does not write. -/
def Conflict.asRead (d : Dialect) (c : Conflict) : Conflict :=
  match c, d with
  | .keep _, .mysql => .keep none
  | .overwrite _ cs, .mysql => .overwrite none cs
  | c, _ => c

/-- The command without a key that the dialect does not write. -/
def Command.asRead (d : Dialect) : Command → Command
  | .insert i => .insert { i with conflict := i.conflict.asRead d }
  | c => c

theorem Condition.three_le_length_tokens (c : Condition) : 3 ≤ c.tokens.length := by
  cases c <;> simp [Condition.tokens] <;> omega

namespace Parser

variable {g : Grammar} {rest : List Token}

/-! ## Lists -/

@[simp]
theorem commas_cons_cons (a b : List Token) (as : List (List Token)) :
    commas (a :: b :: as) = a ++ .comma :: commas (b :: as) := by
  simp [commas, List.intercalate_cons_cons]

@[simp]
theorem commas_singleton (a : List Token) : commas [a] = a := by simp [commas]

theorem names_tokens {cs : List String} (hne : cs ≠ []) {rest : List Token}
    (hrest : rest.head? ≠ some .comma) : names (nameTokens cs ++ rest) = some (cs, rest) := by
  induction cs with
  | nil => exact absurd rfl hne
  | cons c cs ih =>
    cases cs with
    | nil =>
      cases rest with
      | nil => rfl
      | cons t r =>
        have ht : t ≠ .comma := fun he => hrest (by rw [he]; rfl)
        simp [nameTokens, names, ht]
    | cons c' cs =>
      have htail := ih (by simp)
      simp only [nameTokens, List.map_cons, commas_cons_cons, List.cons_append,
        List.nil_append] at htail ⊢
      rw [names, htail]
      rfl

theorem arguments_tokens {ns : List Nat} (hne : ns ≠ []) {rest : List Token}
    (hrest : rest.head? ≠ some .comma) : arguments (markTokens ns ++ rest) = some (ns, rest) := by
  induction ns with
  | nil => exact absurd rfl hne
  | cons n ns ih =>
    cases ns with
    | nil =>
      cases rest with
      | nil => rfl
      | cons t r =>
        have ht : t ≠ .comma := fun he => hrest (by rw [he]; rfl)
        simp [markTokens, arguments, ht]
    | cons n' ns =>
      have htail := ih (by simp)
      simp only [markTokens, List.map_cons, commas_cons_cons, List.cons_append,
        List.nil_append] at htail ⊢
      rw [arguments, htail]
      rfl

/-- A list that the grammar has is read back. -/
theorem members_tokens {ns : List Nat} (hempty : ns = [] → g.emptyLists = true)
    (rest : List Token) : members g (markTokens ns ++ .closeParen :: rest) = some (ns, rest) := by
  cases ns with
  | nil =>
    show (if g.emptyLists then some ([], rest) else none) = _
    rw [if_pos (hempty rfl)]
  | cons n ns =>
    have hargs : arguments (markTokens (n :: ns) ++ .closeParen :: rest) = _ :=
      arguments_tokens (List.cons_ne_nil n ns) (by simp)
    -- such a list begins with a mark, so it is not taken for an empty one
    obtain ⟨ts, hts⟩ : ∃ ts, markTokens (n :: ns) = .argument n :: ts := by
      cases ns <;> simp [markTokens]
    rw [hts, List.cons_append] at hargs ⊢
    rw [members]
    · rw [hargs]
      rfl
    · simp

theorem excludedAssignments_tokens {cs : List String} (hne : cs ≠ []) :
    excludedAssignments (commas (cs.map fun c => [.word c, .equals, .word ("excluded." ++ c)])) =
      some cs := by
  induction cs with
  | nil => exact absurd rfl hne
  | cons c cs ih =>
    cases cs with
    | nil => simp [excludedAssignments]
    | cons c' cs =>
      have htail := ih (by simp)
      simp only [List.map_cons, commas_cons_cons, List.cons_append, List.nil_append] at htail ⊢
      rw [excludedAssignments, if_pos rfl, htail]
      rfl

theorem valuesAssignments_tokens {cs : List String} (hne : cs ≠ []) :
    valuesAssignments (commas (cs.map fun c => [.word c, .equals, .word "VALUES", .openParen,
      .word c, .closeParen])) = some cs := by
  induction cs with
  | nil => exact absurd rfl hne
  | cons c cs ih =>
    cases cs with
    | nil => simp [valuesAssignments]
    | cons c' cs =>
      have htail := ih (by simp)
      simp only [List.map_cons, commas_cons_cons, List.cons_append, List.nil_append] at htail ⊢
      rw [valuesAssignments, if_pos rfl, htail]
      rfl

/-! ## Conditions -/

section Levels
variable {fuel : Nat} {r r' r'' : List Token} {a b : Condition}

theorem condition_parentheses (h : disjunction g fuel r = some (a, .closeParen :: r')) :
    condition g (fuel + 1) (.openParen :: r) = some (a, r') := by
  rw [condition, h]; rfl

theorem conjunction_last (h : condition g fuel r = some (a, .closeParen :: r')) :
    conjunction g (fuel + 1) r = some (a, .closeParen :: r') := by
  rw [conjunction, h]; rfl

theorem conjunction_or (h : condition g fuel r = some (a, .word "OR" :: r')) :
    conjunction g (fuel + 1) r = some (a, .word "OR" :: r') := by
  rw [conjunction, h]; rfl

theorem conjunction_and (ha : condition g fuel r = some (a, .word "AND" :: r'))
    (hb : conjunction g fuel r' = some (b, r'')) :
    conjunction g (fuel + 1) r = some (.both a b, r'') := by
  simp [conjunction, ha, hb]

theorem disjunction_last (h : conjunction g fuel r = some (a, .closeParen :: r')) :
    disjunction g (fuel + 1) r = some (a, .closeParen :: r') := by
  rw [disjunction, h]; rfl

theorem disjunction_or (ha : conjunction g fuel r = some (a, .word "OR" :: r'))
    (hb : disjunction g fuel r' = some (b, r'')) :
    disjunction g (fuel + 1) r = some (.either a b, r'') := by
  simp [disjunction, ha, hb]

end Levels

/-- Every condition is read back, whatever comes after it. -/
theorem condition_tokens {k m : Nat} {c : Condition} (h : c.InOrder g k m) (fuel : Nat)
    (hf : c.tokens.length ≤ fuel) (rest : List Token) :
    condition g fuel (c.tokens ++ rest) = some (c, rest) := by
  induction h generalizing fuel rest with
  | above | equal | present =>
    obtain ⟨fuel, rfl⟩ : ∃ f, fuel = f + 1 := ⟨fuel - 1, by simp [Condition.tokens] at hf; omega⟩
    simp [Condition.tokens, condition, simple]
  | @among c k m ns hc hempty _ =>
    obtain ⟨fuel, rfl⟩ : ∃ f, fuel = f + 1 := ⟨fuel - 1, by simp [Condition.tokens] at hf; omega⟩
    simp [Condition.tokens, condition, simple, members_tokens hempty]
  | @both k l m a b _ _ iha ihb =>
    have hla := a.three_le_length_tokens
    have hlb := b.three_le_length_tokens
    simp only [Condition.tokens, List.length_append, List.length_cons, List.length_nil] at hf
    -- a condition in parentheses lies four levels above its parts
    obtain ⟨fuel, rfl⟩ : ∃ f, fuel = f + 4 := ⟨fuel - 4, by omega⟩
    have ha := iha (fuel + 1) (by omega) (.word "AND" :: (b.tokens ++ .closeParen :: rest))
    have hb := ihb fuel (by omega) (.closeParen :: rest)
    have hall := condition_parentheses (disjunction_last (conjunction_and ha (conjunction_last hb)))
    simpa [Condition.tokens] using hall
  | @either k l m a b _ _ iha ihb =>
    have hla := a.three_le_length_tokens
    have hlb := b.three_le_length_tokens
    simp only [Condition.tokens, List.length_append, List.length_cons, List.length_nil] at hf
    obtain ⟨fuel, rfl⟩ : ∃ f, fuel = f + 4 := ⟨fuel - 4, by omega⟩
    have ha := iha (fuel + 1) (by omega) (.word "OR" :: (b.tokens ++ .closeParen :: rest))
    have hb := ihb fuel (by omega) (.closeParen :: rest)
    have hall := condition_parentheses
      (disjunction_or (conjunction_or ha) (disjunction_last (conjunction_last hb)))
    simpa [Condition.tokens] using hall

/-- Conditions that must all hold are read back up to where no further one is joined. -/
theorem allOf_tokens {k m : Nat} {cs : List Condition} (h : Chain (Condition.InOrder g) k cs m)
    (hne : cs ≠ []) (hrest : rest.head? ≠ some (.word "AND")) (fuel : Nat)
    (hf : (List.intercalate [.word "AND"] (cs.map Condition.tokens)).length < fuel) :
    allOf g fuel (List.intercalate [.word "AND"] (cs.map Condition.tokens) ++ rest) =
      some (cs, rest) := by
  induction h generalizing fuel with
  | nil => exact absurd rfl hne
  | @cons k l m c cs hc hcs ih =>
    obtain ⟨fuel, rfl⟩ : ∃ f, fuel = f + 1 := ⟨fuel - 1, by omega⟩
    cases hcs with
    | nil =>
      simp only [List.map_cons, List.map_nil, List.intercalate_singleton] at hf ⊢
      rw [allOf, condition_tokens hc fuel (by omega)]
      cases rest with
      | nil => rfl
      | cons t r =>
        have ht : t ≠ .word "AND" := fun he => hrest (by rw [he]; rfl)
        simp [ht]
    | @cons _ _ _ c' cs hc' hcs' =>
      simp only [List.map_cons, List.intercalate_cons_cons, List.length_append,
        List.length_cons, List.length_nil] at hf ih ⊢
      have htail := ih (by simp) fuel (by omega)
      simp only [List.append_assoc, List.cons_append, List.nil_append] at htail ⊢
      rw [allOf, condition_tokens hc fuel (by omega)]
      simp [htail]

/-! ## Clauses -/

theorem whereClause_tokens {k m : Nat} {cs : List Condition}
    (h : Chain (Condition.InOrder g) k cs m) (hand : rest.head? ≠ some (.word "AND"))
    (hwhere : rest.head? ≠ some (.word "WHERE")) :
    whereClause g (whereTokens cs ++ rest) = some (cs, rest) := by
  cases cs with
  | nil =>
    cases rest with
    | nil => rfl
    | cons t r =>
      have ht : t ≠ .word "WHERE" := fun he => hwhere (by rw [he]; rfl)
      simp [whereTokens, whereClause, ht]
  | cons c cs =>
    have hfuel : ∀ ts : List Token, ts.length < 3 * (ts ++ rest).length + 3 := fun ts => by
      rw [List.length_append]
      omega
    exact allOf_tokens h (by simp) hand _ (hfuel _)

theorem orderClause_tokens (cs : List String) (hcomma : rest.head? ≠ some .comma)
    (horder : rest.head? ≠ some (.word "ORDER")) :
    orderClause (orderTokens cs ++ rest) = some (cs, rest) := by
  cases cs with
  | nil =>
    cases rest with
    | nil => rfl
    | cons t r =>
      have ht : t ≠ .word "ORDER" := fun he => horder (by rw [he]; rfl)
      simp [orderTokens, orderClause, ht]
  | cons c cs => exact names_tokens (by simp) hcomma

theorem limitClause_tokens (n : Option Nat) : limitClause (limitTokens n) = some (n, []) := by
  cases n with
  | none => rfl
  | some n => simp [limitTokens, limitClause]

theorem projection_tokens {cs : Option (List String)} (h : ∀ ns, cs = some ns → ns ≠ [])
    (hrest : rest.head? ≠ some .comma) :
    projection (projectionTokens cs ++ rest) = some (cs, rest) := by
  cases cs with
  | none => rfl
  | some ns =>
    have hnames := names_tokens (h ns rfl) hrest
    cases ns with
    | nil => exact absurd rfl (h [] rfl)
    | cons c ns =>
      obtain ⟨ts, hts⟩ : ∃ ts, nameTokens (c :: ns) = .word c :: ts := by
        cases ns <;> simp [nameTokens]
      rw [hts] at hnames
      rw [projectionTokens, hts, List.cons_append, projection]
      · rw [← List.cons_append, hnames]
        rfl
      · simp

theorem conflict_tokens {d : Dialect} (hg : g.Takes d) {c : Conflict}
    (hkeep : ∀ key, c = .keep key → ∃ k, key = some k)
    (hover : ∀ key cs, c = .overwrite key cs → cs ≠ [] ∧ ∃ k, key = some k) :
    conflict g (c.tokens d) = some (c.asRead d) := by
  cases c with
  | refuse => cases d <;> rfl
  | keep key =>
    obtain ⟨name, rfl⟩ := hkeep key rfl
    cases d with
    | postgres | sqlite => simp [Conflict.tokens, conflict, Conflict.asRead, hg.2]
    | mysql => simp [Conflict.tokens, conflict, Conflict.asRead, hg.2]
  | overwrite key cs =>
    obtain ⟨hne, name, rfl⟩ := hover key cs rfl
    cases d with
    | postgres | sqlite =>
      simp [Conflict.tokens, conflict, Conflict.asRead, excludedAssignments_tokens hne, hg.2]
    | mysql =>
      have hduplicate : g.onDuplicateKey = true := hg.2
      have hvalues := valuesAssignments_tokens hne
      cases cs with
      | nil => exact absurd rfl hne
      | cons c cs =>
        cases cs <;>
          simp_all [Conflict.tokens, conflict, Conflict.asRead]

/-! ## Commands -/

theorem select_tokens {s : Select} (h : s.Readable g) :
    select g (projectionTokens s.columns ++ .word "FROM" :: .word s.table ::
      (whereTokens s.conditions ++ (orderTokens s.order ++ limitTokens s.limit))) =
        some (.select s) := by
  obtain ⟨m, hm⟩ := h.conditions
  -- a clause ends before the first word of a later clause or with the text
  have hlimit : limitTokens s.limit = [] ∨ ∃ r, limitTokens s.limit = .word "LIMIT" :: r := by
    cases s.limit with
    | none => exact .inl rfl
    | some n => exact .inr ⟨_, rfl⟩
  have horder : orderTokens s.order = [] ∨ ∃ r, orderTokens s.order = .word "ORDER" :: r := by
    cases s.order with
    | nil => exact .inl rfl
    | cons c cs => exact .inr ⟨_, rfl⟩
  have hheadLimit : ∀ t, t ≠ .word "LIMIT" → (limitTokens s.limit).head? ≠ some t := by
    rintro t ht he
    rcases hlimit with hl | ⟨r, hl⟩
    · rw [hl] at he; cases he
    · rw [hl] at he; exact ht (Option.some.inj he).symm
  have hheadOrder : ∀ t, t ≠ .word "LIMIT" → t ≠ .word "ORDER" →
      (orderTokens s.order ++ limitTokens s.limit).head? ≠ some t := by
    rintro t hl ho he
    rcases horder with hr | ⟨r, hr⟩
    · rw [hr] at he; exact hheadLimit t hl he
    · rw [hr] at he; exact ho (Option.some.inj he).symm
  have hprojection : projection (projectionTokens s.columns ++ .word "FROM" :: .word s.table ::
      (whereTokens s.conditions ++ (orderTokens s.order ++ limitTokens s.limit))) = _ :=
    projection_tokens (fun ns hns => (h.columns ns hns).1) (by simp)
  have hwhere := whereClause_tokens hm (hheadOrder (.word "AND") (by decide) (by decide))
    (hheadOrder (.word "WHERE") (by decide) (by decide))
  have horderClause := orderClause_tokens s.order (hheadLimit .comma (by decide))
    (hheadLimit (.word "ORDER") (by decide))
  simp [select, hprojection, hwhere, horderClause, limitClause_tokens]

theorem insert_tokens {d : Dialect} (hg : g.Takes d) {i : Insert} (h : i.Readable) :
    insert g (.word i.table :: .openParen :: (nameTokens i.columns ++ .closeParen ::
      .word "VALUES" :: .openParen :: (markTokens i.arguments ++ .closeParen ::
        i.conflict.tokens d))) = some (Command.asRead d (.insert i)) := by
  have hnames : names (nameTokens i.columns ++ .closeParen :: .word "VALUES" :: .openParen ::
      (markTokens i.arguments ++ .closeParen :: i.conflict.tokens d)) = _ :=
    names_tokens h.columns_ne (by simp)
  have harguments : arguments (markTokens i.arguments ++ .closeParen :: i.conflict.tokens d) = _ :=
    arguments_tokens h.arguments_ne (by simp)
  have hconflict := conflict_tokens hg (c := i.conflict)
    (fun key he =>
      let ⟨k, hk, _⟩ := h.keep key he
      ⟨k, hk⟩)
    (fun key cs he =>
      let ⟨hne, _, k, hk, _⟩ := h.overwrite key cs he
      ⟨hne, k, hk⟩)
  simp [insert, hnames, harguments, hconflict, Command.asRead]

theorem delete_tokens {table : String} {cs : List Condition} {m : Nat}
    (h : Chain (Condition.InOrder g) 0 cs m) :
    delete g (.word table :: whereTokens cs) = some (.delete table cs) := by
  have hwhere : whereClause g (whereTokens cs ++ []) = _ :=
    whereClause_tokens h (by simp) (by simp)
  rw [List.append_nil] at hwhere
  simp [delete, hwhere]

/-- **The text of a readable command is read as this command**, in every dialect that the grammar
takes. -/
theorem command?_render {d : Dialect} (hg : g.Takes d) {c : Command} (h : c.Readable g) :
    command? g (c.render d) = some (c.asRead d) := by
  obtain ⟨m, hspells⟩ := Spells.command hg h
  rw [command?, hspells.tokensIn?]
  cases c with
  | select s =>
    have hselect := select_tokens h
    simpa [Command.tokens, Command.asRead] using hselect
  | insert i =>
    have hinsert := insert_tokens hg h
    simpa [Command.tokens] using hinsert
  | delete table cs =>
    obtain ⟨-, m, hm⟩ := h
    simpa [Command.tokens, Command.asRead] using delete_tokens hm

end Parser
end Cutover.Sql
