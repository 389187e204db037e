import Cutover.Proofs.Sql.Spelling

/-! # Templates of statements

A template is the text of a statement in pieces: the fixed texts that were written down for it, and
between them the names, the marks of the arguments and the numbers that are put in (`Piece`).  Its
text is put together from the texts of the pieces (`Template.render`).  If the fixed texts keep the
words apart, the text is cut into the tokens of the pieces (`Template.Spelled`): each name is one
word, and nothing that is put in ends a token of the template or begins another.
-/

namespace Cutover.Sql

/-- A piece of a text. -/
inductive Piece where
  /-- A fixed text. -/
  | text (s : String)
  | name (n : String)
  /-- A name among the values that an insertion brings. -/
  | excluded (n : String)
  /-- The mark of an argument. -/
  | mark (n : Nat)
  | number (n : Nat)
  deriving DecidableEq

namespace Piece

/-- The text of a piece. -/
def render (d : Dialect) : Piece → String
  | .text s => s
  | .name n => n
  | .excluded n => "excluded." ++ n
  | .mark n => d.placeholder n
  | .number n => Text.ofNat n

/-- The tokens of a piece; all but a fixed text are one token. -/
def tokens : Piece → List Token
  | .text s => (tokens? s).getD []
  | .name n => [.word n]
  | .excluded n => [.word ("excluded." ++ n)]
  | .mark n => [.argument n]
  | .number n => [.word (Text.ofNat n)]

/-- The name that is put in. -/
@[simp]
def name? : Piece → Option String
  | .name n | .excluded n => some n
  | .text _ | .mark _ | .number _ => none

/-- The argument whose mark is put in. -/
@[simp]
def argument? : Piece → Option Nat
  | .mark n => some n
  | .text _ | .name _ | .excluded _ | .number _ => none

end Piece

/-- A text in pieces. -/
abbrev Template := List Piece

namespace Template

/-- The text of a template. -/
def render (d : Dialect) (ps : Template) : String := String.join (ps.map (Piece.render d))

/-- The tokens of a template. -/
def tokens (ps : Template) : List Token := ps.flatMap Piece.tokens

/-- The names that are put in. -/
def names (ps : Template) : List String := ps.filterMap Piece.name?

/-- The arguments whose marks are put in. -/
def arguments (ps : Template) : List Nat := ps.filterMap Piece.argument?

/-- Templates with a fixed text between them. -/
def joined (s : String) (pss : List Template) : Template := [Piece.text s].intercalate pss

section
variable {d : Dialect} {ps qs : Template} {s : String}

@[simp]
theorem render_nil : render d [] = "" := String.join_nil

@[simp]
theorem render_cons (p : Piece) : render d (p :: ps) = p.render d ++ render d ps := String.join_cons

@[simp]
theorem render_append : render d (ps ++ qs) = render d ps ++ render d qs := by
  rw [render, List.map_append, String.join_append, render, render]

@[simp]
theorem render_joined (pss : List Template) :
    render d (joined s pss) = s.intercalate (pss.map (render d)) := by
  induction pss with
  | nil => rfl
  | cons ps pss ih =>
    cases pss with
    | nil => simp [joined]
    | cons qs pss =>
      rw [joined, List.intercalate_cons_cons, render_append, render_append, ← joined, ih]
      simp [Piece.render]

theorem tokens_cons (p : Piece) : tokens (p :: ps) = p.tokens ++ tokens ps := List.flatMap_cons

theorem tokens_append : tokens (ps ++ qs) = tokens ps ++ tokens qs := List.flatMap_append

@[simp]
theorem names_nil : names [] = [] := rfl

@[simp]
theorem names_cons (p : Piece) : names (p :: ps) = p.name?.toList ++ names ps := by
  cases p <;> rfl

@[simp]
theorem names_append : names (ps ++ qs) = names ps ++ names qs := List.filterMap_append

@[simp]
theorem arguments_nil : arguments [] = [] := rfl

@[simp]
theorem arguments_cons (p : Piece) : arguments (p :: ps) = p.argument?.toList ++ arguments ps := by
  cases p <;> rfl

@[simp]
theorem arguments_append : arguments (ps ++ qs) = arguments ps ++ arguments qs :=
  List.filterMap_append

/-- What the pieces put in, all in all, is what they put in one after the other. -/
theorem filterMap_joined {α : Type} {f : Piece → Option α} (hf : f (.text s) = none)
    (pss : List Template) : (joined s pss).filterMap f = pss.flatMap (List.filterMap f) := by
  induction pss with
  | nil => rfl
  | cons ps pss ih =>
    cases pss with
    | nil => simp [joined]
    | cons qs pss =>
      rw [joined, List.intercalate_cons_cons, List.filterMap_append, List.filterMap_append,
        ← joined, ih]
      simp [hf]

@[simp]
theorem names_joined (pss : List Template) : names (joined s pss) = pss.flatMap names :=
  filterMap_joined rfl pss

@[simp]
theorem arguments_joined (pss : List Template) : arguments (joined s pss) = pss.flatMap arguments :=
  filterMap_joined rfl pss

end

/-! ## Spelling -/

/-- The text of the template is cut into its tokens; it takes up the arguments behind the first `k`
and up to the first `m`. -/
def Spelled (d : Dialect) (k : Nat) (ps : Template) (m : Nat) : Prop :=
  Spells .tolerant (plainMarks d k) (ps.render d) ps.tokens (plainMarks d m)

/-- Whether a fixed text has tokens and no mark. -/
def IsFixed (s : String) : Prop := (tokens? s).isSome = true ∧ '?' ∉ s.toList

instance (s : String) : Decidable (IsFixed s) := inferInstanceAs (Decidable (_ ∧ _))

/-- The template begins where a word may end. -/
def Open (d : Dialect) (ps : Template) : Prop := Breaks (ps.render d).toList

namespace Open

variable {d : Dialect} {s : String} {ps : Template}

theorem nil : Open d [] := by
  rw [Open, render_nil]
  rfl

theorem text (ps : Template) (h : Opens s := by decide) : Open d (.text s :: ps) := by
  rw [Open, render_cons]
  exact (h.append _).breaks

end Open

namespace Spelled

variable {d : Dialect} {k l m : Nat} {s n : String} {ps qs : Template}

theorem nil (k : Nat) : Spelled d k [] k := by
  rw [Spelled, render_nil]
  exact Spells.fixed _ "" []

theorem append (hs : Spelled d k ps l) (ht : Spelled d l qs m) (ho : Open d qs) :
    Spelled d k (ps ++ qs) m := by
  rw [Spelled, render_append, tokens_append]
  exact Spells.append hs ht ho

/-- A word, and what begins where it may end. -/
theorem cons {p : Piece}
    (hp : Spells .tolerant (plainMarks d k) (p.render d) p.tokens (plainMarks d l))
    (ht : Spelled d l ps m) (ho : Open d ps) : Spelled d k (p :: ps) m := by
  rw [Spelled, render_cons, tokens_cons]
  exact Spells.append hp ht ho

theorem name (hn : IsName n) (ht : Spelled d k ps m) (ho : Open d ps) :
    Spelled d k (.name n :: ps) m :=
  cons (Spells.word _ hn) ht ho

theorem excluded (hn : IsName n) (ht : Spelled d k ps m) (ho : Open d ps) :
    Spelled d k (.excluded n :: ps) m :=
  cons (Spells.word _ (Spells.isName_excluded hn)) ht ho

theorem mark (ht : Spelled d (k + 1) ps m) (ho : Open d ps) : Spelled d k (.mark (k + 1) :: ps) m :=
  cons (Spells.placeholder (Grammar.takes_tolerant d) k) ht ho

theorem number (i : Nat) (ht : Spelled d k ps m) (ho : Open d ps) :
    Spelled d k (.number i :: ps) m :=
  cons (Spells.numeral _ i) ht ho

/-- The tokens of a fixed text are its tokens, wherever it stands. -/
theorem tokens?_text (h : IsFixed s) : tokens? s = some (Piece.text s).tokens := by
  obtain ⟨ts, hts⟩ := Option.isSome_iff_exists.mp h.1
  rw [Piece.tokens, hts, Option.getD_some]

/-- A fixed text at whose end nothing is left to gather, and whatever comes next. -/
theorem text (ht : Spelled d k ps m) (h : IsFixed s := by decide)
    (hs : settles false s.toList = true := by decide) : Spelled d k (.text s :: ps) m := by
  rw [Spelled, render_cons, tokens_cons]
  exact (Spells.Firm.fixed _ s _ (tokens?_text h) h.2 hs).append ht

/-- A fixed text at the end. -/
theorem last (k : Nat) (s : String) (h : IsFixed s := by decide) : Spelled d k [.text s] k :=
  cons (Spells.fixed _ s _ (tokens?_text h) h.2) (.nil k) .nil

/-- Templates with a fixed text between them that keeps them apart. -/
theorem separated {α : Type} {R : Nat → α → Nat → Prop} {f : α → Template}
    (hpart : ∀ k a m, R k a m → Spelled d k (f a) m) {as : List α} (h : Chain R k as m)
    (hfixed : IsFixed s := by decide) (hs : settles false s.toList = true := by decide)
    (ho : Opens s := by decide) : Spelled d k (joined s (as.map f)) m := by
  induction h with
  | nil k => exact nil k
  | @cons k l m a as ha has ih =>
    cases as with
    | nil =>
      cases has
      simpa [Template.joined] using hpart k a _ ha
    | cons b bs =>
      rw [Template.joined, List.map_cons, List.map_cons, List.intercalate_cons_cons,
        List.append_assoc]
      exact (hpart k a l ha).append (text ih hfixed hs) (.text _ ho)

/-- Templates without arguments, with a fixed text between them. -/
theorem separated_of_forall {α : Type} {P : α → Prop} {f : α → Template}
    (hpart : ∀ k a, P a → Spelled d k (f a) k) {as : List α} (h : ∀ a ∈ as, P a)
    (hfixed : IsFixed s := by decide) (hs : settles false s.toList = true := by decide)
    (ho : Opens s := by decide) : Spelled d k (joined s (as.map f)) k := by
  refine separated (R := fun k a m => P a ∧ m = k) ?_ (chain_of_forall k h) hfixed hs ho
  rintro k a m ⟨ha, rfl⟩
  exact hpart _ a ha

/-- The text of a template is cut into the tokens of its pieces. -/
theorem tokens? (h : Spelled d 0 ps m) : tokens? (ps.render d) = some ps.tokens := by
  have hzero : plainMarks d 0 = 0 := by cases d <;> rfl
  rw [Spelled, hzero] at h
  exact Spells.tokensIn? h

end Spelled
end Template
end Cutover.Sql
