import Cutover.Proofs.Sql.Token
import Cutover.Sql.Command

/-! # The text of a command spells its tokens

Commands that can be read back (`Command.Readable`), the tokens they consist of (`Command.tokens`),
and that the text of a command is cut into these in each of the dialects (`Spells.command`).

The names of a readable command are identifiers, its lists are not empty where the grammar has no
word for an empty list, and its arguments are numbered in the order in which they stand in the text
(`Condition.InOrder`): a dialect whose marks carry no number takes them in that order.  Every
statement of the cutover is of this kind, but for a search among no identities, which only some
grammars have a word for.
-/

namespace Cutover.Sql

/-- A name that may stand in a statement. -/
abbrev IsName (s : String) : Prop := Identifier.isValid s = true

/-! ## What can be read -/

section Chain
variable {α : Type}

/-- Parts that take up the arguments one after the other: `R k a m` tells that the part `a` takes
those behind the first `k` and up to the first `m`. -/
inductive Chain (R : Nat → α → Nat → Prop) : Nat → List α → Nat → Prop where
  | nil (k : Nat) : Chain R k [] k
  | cons {k l m : Nat} {a : α} {as : List α} : R k a l → Chain R l as m → Chain R k (a :: as) m

variable {R : Nat → α → Nat → Prop}

theorem Chain.append {k l m : Nat} {as bs : List α} (ha : Chain R k as l) (hb : Chain R l bs m) :
    Chain R k (as ++ bs) m := by
  induction ha with
  | nil => exact hb
  | cons h _ ih => exact .cons h (ih hb)

theorem Chain.imp {S : Nat → α → Nat → Prop} (himp : ∀ k a m, R k a m → S k a m) {k m : Nat}
    {as : List α} (h : Chain R k as m) : Chain S k as m := by
  induction h with
  | nil k => exact .nil k
  | cons ha _ ih => exact .cons (himp _ _ _ ha) ih

theorem Chain.singleton {k m : Nat} {a : α} (h : R k a m) : Chain R k [a] m := .cons h (.nil m)

/-- Parts that take no argument are a chain. -/
theorem chain_of_forall {P : α → Prop} (k : Nat) {as : List α} (h : ∀ a ∈ as, P a) :
    Chain (fun k a m => P a ∧ m = k) k as k := by
  induction as with
  | nil => exact .nil k
  | cons a as ih =>
    exact .cons ⟨h a List.mem_cons_self, rfl⟩ (ih fun b hb => h b (List.mem_cons_of_mem _ hb))

end Chain

/-- The mark of the next argument. -/
def NextMark (k n m : Nat) : Prop := n = k + 1 ∧ m = k + 1

theorem chain_range' (k n : Nat) : Chain NextMark k (List.range' (k + 1) n) (k + n) := by
  induction n generalizing k with
  | zero => exact .nil k
  | succ n ih =>
    rw [List.range'_succ, show k + (n + 1) = k + 1 + n by omega]
    exact .cons ⟨rfl, rfl⟩ (ih (k + 1))

/-- Conditions on named columns, written under a grammar, whose arguments are numbered in order. -/
inductive Condition.InOrder (g : Grammar) : Nat → Condition → Nat → Prop where
  | above {c : String} (k : Nat) : IsName c → InOrder g k (.above c (k + 1)) (k + 1)
  | equal {c : String} (k : Nat) : IsName c → InOrder g k (.equal c (k + 1)) (k + 1)
  | present {c : String} (k : Nat) : IsName c → InOrder g k (.present c) k
  | among {c : String} {k m : Nat} {ns : List Nat} : IsName c →
      (ns = [] → g.emptyLists = true) → Chain NextMark k ns m →
      InOrder g k (.among c ns) m
  | both {k l m : Nat} {a b : Condition} : InOrder g k a l → InOrder g l b m →
      InOrder g k (.both a b) m
  | either {k l m : Nat} {a b : Condition} :
      InOrder g k a l → InOrder g l b m → InOrder g k (.either a b) m

/-- A reading whose text is understood. -/
structure Select.Readable (g : Grammar) (s : Select) : Prop where
  columns : ∀ cs, s.columns = some cs → cs ≠ [] ∧ ∀ c ∈ cs, IsName c
  table : IsName s.table
  conditions : ∃ m, Chain (Condition.InOrder g) 0 s.conditions m
  order : ∀ c ∈ s.order, IsName c

/-- An insertion whose text is understood. -/
structure Insert.Readable (i : Insert) : Prop where
  table : IsName i.table
  columns_ne : i.columns ≠ []
  columns : ∀ c ∈ i.columns, IsName c
  arguments_ne : i.arguments ≠ []
  arguments : ∃ m, Chain NextMark 0 i.arguments m
  keep : ∀ key, i.conflict = .keep key → ∃ k, key = some k ∧ IsName k
  overwrite : ∀ key cs, i.conflict = .overwrite key cs →
    cs ≠ [] ∧ (∀ c ∈ cs, IsName c) ∧ ∃ k, key = some k ∧ IsName k

/-- A command whose text is understood. -/
def Command.Readable (g : Grammar) : Command → Prop
  | .select s => s.Readable g
  | .insert i => i.Readable
  | .delete table cs => IsName table ∧ ∃ m, Chain (Condition.InOrder g) 0 cs m

/-- What is readable under a grammar is readable under the one that takes everything. -/
theorem Condition.InOrder.tolerant {g : Grammar} {k m : Nat} {c : Condition} (h : c.InOrder g k m) :
    c.InOrder .tolerant k m := by
  induction h with
  | above k hc => exact .above k hc
  | equal k hc => exact .equal k hc
  | present k hc => exact .present k hc
  | among hc _ hns => exact .among hc (fun _ => rfl) hns
  | both _ _ iha ihb => exact .both iha ihb
  | either _ _ iha ihb => exact .either iha ihb

theorem Command.Readable.tolerant {g : Grammar} {c : Command} (h : c.Readable g) :
    c.Readable .tolerant := by
  cases c with
  | select s =>
    obtain ⟨hcolumns, htable, ⟨m, hm⟩, horder⟩ := h
    exact ⟨hcolumns, htable, ⟨m, hm.imp fun _ _ _ => Condition.InOrder.tolerant⟩, horder⟩
  | insert i => exact h
  | delete table cs =>
    obtain ⟨htable, m, hm⟩ := h
    exact ⟨htable, m, hm.imp fun _ _ _ => Condition.InOrder.tolerant⟩

/-! ## Tokens of commands -/

/-- The tokens of the parts, with a comma between them. -/
def commas (ts : List (List Token)) : List Token := List.intercalate [.comma] ts

/-- The tokens of names, with commas. -/
def nameTokens (cs : List String) : List Token := commas (cs.map fun c => [.word c])

/-- The tokens of marks, with commas. -/
def markTokens (ns : List Nat) : List Token := commas (ns.map fun n => [.argument n])

/-- The tokens of a condition. -/
def Condition.tokens : Condition → List Token
  | .above c n => [.word c, .greater, .argument n]
  | .equal c n => [.word c, .equals, .argument n]
  | .present c => [.word c, .word "IS", .word "NOT", .word "NULL"]
  | .among c ns => .word c :: .word "IN" :: .openParen :: markTokens ns ++ [.closeParen]
  | .both a b => .openParen :: a.tokens ++ .word "AND" :: b.tokens ++ [.closeParen]
  | .either a b => .openParen :: a.tokens ++ .word "OR" :: b.tokens ++ [.closeParen]

/-- The tokens of conditions that must all hold. -/
def whereTokens (cs : List Condition) : List Token :=
  if cs.isEmpty then []
  else .word "WHERE" :: List.intercalate [.word "AND"] (cs.map Condition.tokens)

/-- The tokens of an order. -/
def orderTokens (cs : List String) : List Token :=
  if cs.isEmpty then [] else .word "ORDER" :: .word "BY" :: nameTokens cs

/-- The tokens of a limit. -/
def limitTokens : Option Nat → List Token
  | none => []
  | some n => [.word "LIMIT", .word (Text.ofNat n)]

/-- The tokens of the columns of a reading. -/
def projectionTokens : Option (List String) → List Token
  | none => [.star]
  | some cs => nameTokens cs

/-- The tokens of what an insertion does on a conflict. -/
def Conflict.tokens (d : Dialect) (c : Conflict) : List Token :=
  match c, d with
  | .refuse, _ => []
  | .keep key, .mysql => [.word "ON", .word "DUPLICATE", .word "KEY", .word "UPDATE",
      .word (key.getD ""), .equals, .word (key.getD "")]
  | .keep key, _ => [.word "ON", .word "CONFLICT", .openParen, .word (key.getD ""), .closeParen,
      .word "DO", .word "NOTHING"]
  | .overwrite _ cs, .mysql => .word "ON" :: .word "DUPLICATE" :: .word "KEY" :: .word "UPDATE" ::
      commas (cs.map fun c => [.word c, .equals, .word "VALUES", .openParen, .word c, .closeParen])
  | .overwrite key cs, _ => .word "ON" :: .word "CONFLICT" :: .openParen :: .word (key.getD "") ::
      .closeParen :: .word "DO" :: .word "UPDATE" :: .word "SET" ::
      commas (cs.map fun c => [.word c, .equals, .word ("excluded." ++ c)])

/-- The tokens of a command. -/
def Command.tokens (d : Dialect) : Command → List Token
  | .select s => .word "SELECT" :: projectionTokens s.columns ++ .word "FROM" :: .word s.table ::
      whereTokens s.conditions ++ orderTokens s.order ++ limitTokens s.limit
  | .insert i => .word "INSERT" :: .word "INTO" :: .word i.table :: .openParen ::
      nameTokens i.columns ++ .closeParen :: .word "VALUES" :: .openParen ::
      markTokens i.arguments ++ .closeParen :: i.conflict.tokens d
  | .delete table cs => .word "DELETE" :: .word "FROM" :: .word table :: whereTokens cs

/-! ## The text spells the tokens -/

namespace Spells

variable {g : Grammar} {d : Dialect} {k m : Nat}

/-- Parts joined by a fixed text spell their tokens joined by the tokens of that text. -/
theorem intercalate {α : Type} {R : Nat → α → Nat → Prop} {f : α → String} {ts : α → List Token}
    {sep : String} {us : List Token} (hsep : ∀ k, Firm g k sep us k) (hopen : Opens sep)
    (hpart : ∀ k a m, R k a m → Spells g (plainMarks d k) (f a) (ts a) (plainMarks d m))
    {as : List α} (h : Chain R k as m) :
    Spells g (plainMarks d k) (sep.intercalate (as.map f)) (us.intercalate (as.map ts))
      (plainMarks d m) := by
  induction h with
  | nil k => exact fixed _ "" []
  | @cons k l m a as ha has ih =>
    cases as with
    | nil =>
      cases has
      simpa using hpart k a _ ha
    | cons b bs =>
      simp only [List.map_cons, String.intercalate_cons_cons, List.intercalate_cons_cons] at ih ⊢
      exact ((hpart k a l ha).append_firm (hsep _) hopen).append ih

/-- Parts with commas between them. -/
theorem commaSeparated {α : Type} {R : Nat → α → Nat → Prop} {f : α → String}
    {ts : α → List Token}
    (hpart : ∀ k a m, R k a m → Spells g (plainMarks d k) (f a) (ts a) (plainMarks d m))
    {as : List α} (h : Chain R k as m) :
    Spells g (plainMarks d k) (Sql.commaSeparated (as.map f)) (commas (as.map ts))
      (plainMarks d m) :=
  intercalate (fun k => Firm.fixed k ", " [.comma]) (by decide) hpart h

/-- Parts that take no argument, with commas between them. -/
theorem commaSeparated_of_forall {α : Type} {P : α → Prop} {f : α → String} {ts : α → List Token}
    (hpart : ∀ k a, P a → Spells g k (f a) (ts a) k) {as : List α} (h : ∀ a ∈ as, P a) :
    Spells g k (Sql.commaSeparated (as.map f)) (commas (as.map ts)) k := by
  -- among the dialects, one counts every mark, so `k` of them is a count that a chain can have
  refine commaSeparated (d := .mysql) (R := fun k a m => P a ∧ m = k) ?_ (chain_of_forall k h)
  rintro k a m ⟨ha, rfl⟩
  exact hpart _ a ha

/-- The name of a column among the values that an insertion brings. -/
theorem isName_excluded {c : String} (h : IsName c) : IsName ("excluded." ++ c) := by
  have hlist : ("excluded." ++ c).toList =
      'e' :: 'x' :: 'c' :: 'l' :: 'u' :: 'd' :: 'e' :: 'd' :: '.' :: c.toList := by
    rw [String.toList_append]; rfl
  have hc : Identifier.wellFormedFrom true c.toList = true := h
  have hhead : Identifier.isHead 'e' = true := by decide
  have htail : ['x', 'c', 'l', 'u', 'd', 'e'].all Identifier.isTail = true := by decide
  rw [List.all_eq_true] at htail
  simp [IsName, Identifier.isValid, hlist, Identifier.wellFormedFrom, hc, hhead, htail]

theorem names (k : Nat) {cs : List String} (h : ∀ c ∈ cs, IsName c) :
    Spells g k (Sql.commaSeparated cs) (nameTokens cs) k := by
  simpa [nameTokens] using commaSeparated_of_forall (f := id) (fun k _ hc => word k hc) h

theorem marks (hg : g.Takes d) {ns : List Nat} (h : Chain NextMark k ns m) :
    Spells g (plainMarks d k) (Sql.commaSeparated (ns.map d.placeholder)) (markTokens ns)
      (plainMarks d m) := by
  refine commaSeparated ?_ h
  rintro k n m ⟨rfl, rfl⟩
  exact placeholder hg k

theorem condition (hg : g.Takes d) {c : Condition} (h : c.InOrder g k m) :
    Spells g (plainMarks d k) (c.render d) c.tokens (plainMarks d m) := by
  induction h with
  | above k hc =>
    exact ((word _ hc).append_firm (.fixed _ " > " [.greater])).append (placeholder hg k)
  | equal k hc =>
    exact ((word _ hc).append_firm (.fixed _ " = " [.equals])).append (placeholder hg k)
  | present k hc =>
    exact (word _ hc).append (fixed _ " IS NOT NULL" [.word "IS", .word "NOT", .word "NULL"])
  | @among c k m ns hc _ hns =>
    have hhead :=
      (word (g := g) (plainMarks d k) hc).append_firm (.fixed _ " IN (" [.word "IN", .openParen])
    have hlist := (hhead.append (marks hg hns)).append (fixed _ ")" [.closeParen])
    simpa [Condition.render, Condition.tokens] using hlist
  | @both k l m a b _ _ iha ihb =>
    have hleft := (Firm.fixed _ "(" [.openParen]).append iha
    have hboth := (hleft.append_firm (.fixed _ " AND " [.word "AND"])).append ihb
    simpa [Condition.render, Condition.tokens] using hboth.append (fixed _ ")" [.closeParen])
  | @either k l m a b _ _ iha ihb =>
    have hleft := (Firm.fixed _ "(" [.openParen]).append iha
    have hboth := (hleft.append_firm (.fixed _ " OR " [.word "OR"])).append ihb
    simpa [Condition.render, Condition.tokens] using hboth.append (fixed _ ")" [.closeParen])

theorem whereClause (hg : g.Takes d) {cs : List Condition}
    (h : Chain (Condition.InOrder g) k cs m) :
    Spells g (plainMarks d k) (renderWhere d cs) (whereTokens cs) (plainMarks d m) := by
  cases cs with
  | nil =>
    cases h
    exact fixed _ "" []
  | cons c cs =>
    have hcs := intercalate (d := d) (R := fun k c m => Condition.InOrder g k c m)
      (fun k => Firm.fixed k " AND " [.word "AND"]) (by decide)
      (fun _ _ _ h => condition hg h) h
    exact (Firm.fixed _ " WHERE " [.word "WHERE"]).append hcs

theorem breaks_renderWhere (d : Dialect) (cs : List Condition) :
    Breaks (renderWhere d cs).toList := by
  cases cs with
  | nil => rfl
  | cons c cs =>
    rw [renderWhere, if_neg (by simp)]
    exact (Opens.append (by decide) _).breaks

theorem projection (k : Nat) (cs : Option (List String)) :
    (∀ ns, cs = some ns → ∀ c ∈ ns, IsName c) →
    Spells g k (match cs with
      | none => "*"
      | some ns => Sql.commaSeparated ns) (projectionTokens cs) k := by
  intro h
  cases cs with
  | none => exact fixed k "*" [.star]
  | some ns => exact names k (h ns rfl)

theorem orderClause {cs : List String} (h : ∀ c ∈ cs, IsName c) :
    Spells g k (if cs.isEmpty then "" else " ORDER BY " ++ Sql.commaSeparated cs) (orderTokens cs)
      k := by
  unfold orderTokens
  split
  · exact fixed k "" []
  · exact (Firm.fixed k " ORDER BY " [.word "ORDER", .word "BY"]).append (names k h)

theorem limitClause (k : Nat) (n : Option Nat) :
    Spells g k (match n with
      | none => ""
      | some n => " LIMIT " ++ Text.ofNat n) (limitTokens n) k := by
  cases n with
  | none => exact fixed k "" []
  | some n => exact (Firm.fixed k " LIMIT " [.word "LIMIT"]).append (numeral k n)

theorem select (hg : g.Takes d) {s : Select} (h : s.Readable g) :
    ∃ m, Spells g 0 (s.render d) (Command.tokens d (.select s)) m := by
  obtain ⟨m, hm⟩ := h.conditions
  have hzero : plainMarks d 0 = 0 := by cases d <;> rfl
  have hwhere := whereClause hg hm
  rw [hzero] at hwhere
  have hcolumns := (Firm.fixed (g := g) 0 "SELECT " [.word "SELECT"]).append
    (projection 0 s.columns fun ns hns => (h.columns ns hns).2)
  have htable := (hcolumns.append_firm (.fixed 0 " FROM " [.word "FROM"])).append (word 0 h.table)
  have hconditions := htable.append hwhere (breaks_renderWhere d _)
  have horder := hconditions.append (orderClause h.order) (by
    split
    · decide
    · exact (Opens.append (by decide) _).breaks)
  have hlimit := horder.append (limitClause _ s.limit) (by
    split
    · decide
    · exact (Opens.append (by decide) _).breaks)
  exact ⟨_, hlimit.congr rfl (by simp [Command.tokens])⟩

theorem delete (hg : g.Takes d) {table : String} {cs : List Condition}
    (h : Command.Readable g (.delete table cs)) :
    ∃ m,
      Spells g 0 (Command.render d (.delete table cs)) (Command.tokens d (.delete table cs)) m := by
  obtain ⟨htable, m, hm⟩ := h
  have hzero : plainMarks d 0 = 0 := by cases d <;> rfl
  have hwhere := whereClause hg hm
  rw [hzero] at hwhere
  have hhead := (Firm.fixed (g := g) 0 "DELETE FROM " [.word "DELETE", .word "FROM"]).append
    (word 0 htable)
  have hall := hhead.append hwhere (breaks_renderWhere d _)
  exact ⟨_, hall.congr rfl (by simp [Command.tokens])⟩

theorem breaks_conflict (d : Dialect) (c : Conflict) : Breaks (c.render d).toList := by
  have hconflict : Opens " ON CONFLICT (" := by decide
  have hduplicate : Opens " ON DUPLICATE KEY UPDATE " := by decide
  cases c with
  | refuse =>
    have hempty : Breaks "".toList := by decide
    cases d <;> exact hempty
  | keep key =>
    cases d with
    | mysql => exact (((hduplicate.append _).append " = ").append _).breaks
    | postgres | sqlite => exact ((hconflict.append _).append ") DO NOTHING").breaks
  | overwrite key cs =>
    cases d with
    | mysql => exact (hduplicate.append _).breaks
    | postgres | sqlite =>
      exact (((hconflict.append (key.getD "")).append ") DO UPDATE SET ").append _).breaks

/-- What an insertion does on a conflict. -/
theorem conflict {c : Conflict} (hkeep : ∀ key, c = .keep key → ∃ k, key = some k ∧ IsName k)
    (hover : ∀ key cs, c = .overwrite key cs →
      cs ≠ [] ∧ (∀ c ∈ cs, IsName c) ∧ ∃ k, key = some k ∧ IsName k) :
    Spells g k (c.render d) (c.tokens d) k := by
  cases c with
  | refuse => cases d <;> exact fixed k "" []
  | keep key =>
    obtain ⟨name, rfl, hname⟩ := hkeep key rfl
    have hkey := word (g := g) k hname
    have hnumbered := ((Firm.fixed k " ON CONFLICT ("
      [.word "ON", .word "CONFLICT", .openParen]).append hkey).append
        (fixed k ") DO NOTHING" [.closeParen, .word "DO", .word "NOTHING"])
    have hplain := (((Firm.fixed (g := g) k " ON DUPLICATE KEY UPDATE "
      [.word "ON", .word "DUPLICATE", .word "KEY", .word "UPDATE"]).append hkey).append_firm
        (.fixed k " = " [.equals])).append hkey
    cases d with
    | mysql => exact hplain
    | postgres | sqlite => exact hnumbered
  | overwrite key cs =>
    obtain ⟨-, hcs, name, rfl, hname⟩ := hover key cs rfl
    have hexcluded : Spells g k (Sql.commaSeparated (cs.map fun c => c ++ " = excluded." ++ c))
        (commas (cs.map fun c => [.word c, .equals, .word ("excluded." ++ c)])) k := by
      refine commaSeparated_of_forall (fun k c hc => ?_) hcs
      have hassign := ((word (g := g) k hc).append_firm (.fixed k " = " [.equals])).append
        (word k (isName_excluded hc))
      have htext : c ++ " = excluded." ++ c = c ++ " = " ++ ("excluded." ++ c) := by
        rw [show " = excluded." = " = " ++ "excluded." from rfl]
        simp only [String.append_assoc]
      rw [htext]
      exact hassign
    have hvalues : Spells g k (Sql.commaSeparated (cs.map fun c => c ++ " = VALUES(" ++ c ++ ")"))
        (commas (cs.map fun c => [.word c, .equals, .word "VALUES", .openParen, .word c,
          .closeParen])) k := by
      refine commaSeparated_of_forall (fun k c hc => ?_) hcs
      exact (((word k hc).append_firm
        (.fixed k " = VALUES(" [.equals, .word "VALUES", .openParen])).append
          (word k hc)).append (fixed k ")" [.closeParen])
    have hnumbered := (((Firm.fixed k " ON CONFLICT ("
      [.word "ON", .word "CONFLICT", .openParen]).append (word k hname)).append_firm
        (.fixed k ") DO UPDATE SET "
          [.closeParen, .word "DO", .word "UPDATE", .word "SET"])).append hexcluded
    have hplain := (Firm.fixed (g := g) k " ON DUPLICATE KEY UPDATE "
      [.word "ON", .word "DUPLICATE", .word "KEY", .word "UPDATE"]).append hvalues
    -- only one dialect leaves the key out
    cases d with
    | mysql => exact hplain
    | postgres | sqlite => exact hnumbered

theorem insert (hg : g.Takes d) {i : Insert} (h : i.Readable) :
    ∃ m, Spells g 0 (i.render d) (Command.tokens d (.insert i)) m := by
  obtain ⟨m, hm⟩ := h.arguments
  have hzero : plainMarks d 0 = 0 := by cases d <;> rfl
  have hmarks := marks hg hm
  rw [hzero] at hmarks
  have hconflict := conflict (g := g) (d := d) (k := plainMarks d m) h.keep h.overwrite
  have htable := (Firm.fixed (g := g) 0 "INSERT INTO " [.word "INSERT", .word "INTO"]).append
    (word 0 h.table)
  have hcolumns := (htable.append_firm (.fixed 0 " (" [.openParen])).append (names 0 h.columns)
  have harguments := (hcolumns.append_firm
    (.fixed 0 ") VALUES (" [.closeParen, .word "VALUES", .openParen])).append hmarks
  have hclose := harguments.append (fixed _ ")" [.closeParen])
  have hall := hclose.append hconflict (breaks_conflict d _)
  exact ⟨_, hall.congr rfl (by simp [Command.tokens])⟩

/-- **The text of a command spells the tokens of the command.** -/
theorem command (hg : g.Takes d) {c : Command} (h : c.Readable g) :
    ∃ m, Spells g 0 (c.render d) (c.tokens d) m := by
  cases c with
  | select s => exact select hg h
  | insert i => exact insert hg h
  | delete table cs => exact delete hg h

end Spells
end Cutover.Sql
