import Cutover.Identifier
import Cutover.Proofs.Text.Numeral
import Cutover.Sql.Token

/-! # The tokens of a text that is put together from names

A statement is written by concatenating names, marks and fixed pieces of text, and read by cutting
the whole into tokens.  That nothing of one piece runs into the next is what this module is about: a
text *spells* a list of tokens (`Spells`) when it is cut into them wherever a word may end, and
spells them *firmly* (`Spells.Firm`) when this holds whatever comes next.  Both compose, so the
tokens of a statement are read off the way it was put together.

Marks without a number are counted along: `plain` such marks stand before the text and `plain'` up
to its end.  For the dialects that number their marks both are zero.

All of this holds under any grammar; it matters only for the marks, which the grammar has to take
(`Spells.placeholder`).
-/

namespace Cutover

/-! ## Names and numerals consist of word characters -/

namespace Identifier

theorem wellFormedFrom_mem {fresh : Bool} {l : List Char} (h : wellFormedFrom fresh l = true) :
    ∀ c ∈ l, isTail c = true ∨ c = '.' := by
  induction l generalizing fresh with
  | nil => intro c hc; cases hc
  | cons d r ih =>
    cases fresh with
    | true =>
      rw [wellFormedFrom, Bool.and_eq_true] at h
      intro c hc
      rcases List.mem_cons.mp hc with rfl | hc
      · left
        simp only [isHead, Bool.or_eq_true] at h
        simp only [isTail, Char.isAlphanum, Bool.or_eq_true]
        exact h.1.imp Or.inl id
      · exact ih h.2 c hc
    | false =>
      rw [wellFormedFrom] at h
      intro c hc
      split at h
      · rename_i hd
        rcases List.mem_cons.mp hc with rfl | hc
        · exact Or.inr (eq_of_beq hd)
        · exact ih h c hc
      · rw [Bool.and_eq_true] at h
        rcases List.mem_cons.mp hc with rfl | hc
        · exact Or.inl h.1
        · exact ih h.2 c hc

/-- A name begins with a letter or an underscore. -/
theorem exists_head {s : String} (h : isValid s = true) :
    ∃ c r, s.toList = c :: r ∧ isHead c = true := by
  unfold isValid at h
  cases hs : s.toList with
  | nil => rw [hs] at h; exact absurd h (by decide)
  | cons c r =>
    rw [hs, wellFormedFrom, Bool.and_eq_true] at h
    exact ⟨c, r, rfl, h.1⟩

end Identifier

namespace Sql

theorem isWordChar_of_isAlphanum {c : Char} (h : c.isAlphanum = true) : isWordChar c = true := by
  have hne : ∀ d : Char, d.isAlphanum = false → c ≠ d := fun d hd he => by
    rw [he, hd] at h; exact Bool.noConfusion h
  have hblank : c.isWhitespace = false := by
    simp [Char.isWhitespace, hne ' ' rfl, hne '\t' rfl, hne '\r' rfl, hne '\n' rfl]
  have hpunct : punctuation? c = none := by
    unfold punctuation?
    split <;> first | rfl | exact absurd rfl (hne _ rfl)
  simp [isWordChar, isSeparator, hblank, hpunct]

theorem isWordChar_of_mem_identifier {s : String} (h : Identifier.isValid s = true) :
    ∀ c ∈ s.toList, isWordChar c = true := by
  intro c hc
  rcases Identifier.wellFormedFrom_mem h c hc with ht | rfl
  · simp only [Identifier.isTail, Bool.or_eq_true, beq_iff_eq] at ht
    rcases ht with ha | rfl
    · exact isWordChar_of_isAlphanum ha
    · decide
  · decide

theorem isWordChar_of_mem_toDigits {n : Nat} {c : Char} (h : c ∈ Nat.toDigits 10 n) :
    isWordChar c = true := by
  have hd : c.isDigit = true := Nat.isDigit_of_mem_toDigits (by decide) (by decide) h
  exact isWordChar_of_isAlphanum (by simp [Char.isAlphanum, hd])

/-! ## Words -/

/-- Where a word may end: at the end of the text or before a character that belongs to no word. -/
def Breaks (s : List Char) : Prop := s.head?.any isWordChar = false

instance (s : List Char) : Decidable (Breaks s) := inferInstanceAs (Decidable (_ = _))

theorem Breaks.append {s t : List Char} (hs : Breaks s) (ht : Breaks t) : Breaks (s ++ t) := by
  cases s with
  | nil => exact ht
  | cons c r => exact hs

/-- A text at whose beginning a word in front of it ends. -/
def Opens (s : String) : Prop := s.toList ≠ [] ∧ Breaks s.toList

instance (s : String) : Decidable (Opens s) := inferInstanceAs (Decidable (_ ∧ _))

theorem Opens.breaks {s : String} (h : Opens s) : Breaks s.toList := h.2

theorem Opens.append {s : String} (h : Opens s) (t : String) : Opens (s ++ t) := by
  obtain ⟨hne, hb⟩ := h
  unfold Opens
  rw [String.toList_append]
  cases hl : s.toList with
  | nil => exact absurd hl hne
  | cons c r =>
    rw [hl] at hb
    exact ⟨by simp, hb⟩

variable {g : Grammar}

/-- Word characters are gathered. -/
theorem tokensFrom_append {plain : Nat} {w : List Char} (hw : ∀ c ∈ w, isWordChar c = true)
    (pending rest : List Char) :
    tokensFrom g plain pending (w ++ rest) = tokensFrom g plain (w.reverse ++ pending) rest := by
  induction w generalizing pending with
  | nil => rfl
  | cons c w ih =>
    have hc : isWordChar c = true := hw c List.mem_cons_self
    rw [List.cons_append, tokensFrom, if_pos hc, ih (fun d hd => hw d (List.mem_cons_of_mem _ hd))]
    simp

/-- Where a word may end, what was gathered becomes its token. -/
theorem tokensFrom_pending {plain : Nat} {pending rest : List Char} (hp : pending ≠ [])
    (hb : Breaks rest) :
    tokensFrom g plain pending rest =
      (wordToken? g plain pending.reverse).bind fun (t, plain) =>
        (tokensFrom g plain [] rest).map (t :: ·) := by
  cases rest with
  | nil =>
    have he : pending.isEmpty = false := by simpa using hp
    rw [tokensFrom, he]
    cases wordToken? g plain pending.reverse <;> simp [tokensFrom]
  | cons c r =>
    have hc : isWordChar c = false := hb
    have he : pending.isEmpty = false := by simpa using hp
    rw [tokensFrom, if_neg (by simp [hc]), if_neg (by simp [hp])]
    -- behind the word the rest is cut as if nothing had been gathered
    simp only [tokensFrom, hc, List.isEmpty_nil, if_true]
    cases wordToken? g plain pending.reverse with
    | none => rfl
    | some p =>
      cases punctuation? c with
      | none => cases htail : tokensFrom g p.2 [] r <;> simp [htail]
      | some u => cases htail : tokensFrom g p.2 [] r <;> simp [htail]

/-- A word that is no mark becomes the same token after any number of marks. -/
theorem wordToken?_of_not_mem {w : List Char} (h : '?' ∉ w) (j k : Nat) :
    wordToken? g k w = (wordToken? g j w).map fun p => (p.1, k) := by
  unfold wordToken?
  split
  · exact absurd List.mem_cons_self h
  · exact absurd List.mem_cons_self h
  · split
    · cases Text.natural? _ <;> rfl
    · rfl
  · rfl

/-! ## Spelling -/

/-- Wherever a word may end behind it, the text is cut into these tokens. -/
def Spells (g : Grammar) (plain : Nat) (s : String) (ts : List Token) (plain' : Nat) : Prop :=
  ∀ rest, Breaks rest →
    tokensFrom g plain [] (s.toList ++ rest) = (tokensFrom g plain' [] rest).map (ts ++ ·)

/-- Whatever stands behind it, the text is cut into these tokens. -/
def Spells.Firm (g : Grammar) (plain : Nat) (s : String) (ts : List Token) (plain' : Nat) : Prop :=
  ∀ rest, tokensFrom g plain [] (s.toList ++ rest) = (tokensFrom g plain' [] rest).map (ts ++ ·)

/-- Whether nothing is left to gather at the end of a text, `pending` telling that something is at
its beginning. -/
def settles : (pending : Bool) → List Char → Bool
  | pending, [] => !pending
  | _, c :: r => settles (isWordChar c) r

/-- The tokens of a fixed text stay what they are when more is appended, provided that nothing is
left to gather or a word may end there. -/
theorem tokensFrom_fixed {j k : Nat} {s pending rest : List Char} {ts : List Token}
    (hq : '?' ∉ s) (hp : '?' ∉ pending) (h : tokensFrom g j pending s = some ts)
    (hrest : settles (!pending.isEmpty) s = true ∨ Breaks rest) :
    tokensFrom g k pending (s ++ rest) = (tokensFrom g k [] rest).map (ts ++ ·) := by
  have hpr : '?' ∉ pending.reverse := fun hm => hp (List.mem_reverse.mp hm)
  induction s generalizing pending ts with
  | nil =>
    cases pending with
    | nil =>
      obtain rfl : [] = ts := Option.some.inj h
      simp
    | cons d p =>
      have hb : Breaks rest := hrest.resolve_left (by simp [settles])
      rw [List.nil_append, tokensFrom_pending (by simp) hb, wordToken?_of_not_mem hpr j k]
      simp only [tokensFrom, List.isEmpty_cons, Bool.false_eq_true, if_false] at h
      obtain ⟨u, hu, rfl⟩ := Option.map_eq_some_iff.mp h
      rw [hu]
      rfl
  | cons c r ih =>
    have hqr : '?' ∉ r := fun hm => hq (List.mem_cons_of_mem _ hm)
    have hqc : '?' ≠ c := fun he => hq (he ▸ List.mem_cons_self)
    -- a word character is gathered, any other one ends the word in front of it
    by_cases hc : isWordChar c = true
    · rw [tokensFrom, if_pos hc] at h
      rw [List.cons_append, tokensFrom, if_pos hc]
      have hcp : '?' ∉ c :: pending := by simp [hqc, hp]
      have hcpr : '?' ∉ (c :: pending).reverse := fun hm => hcp (List.mem_reverse.mp hm)
      refine ih hqr hcp h (hrest.imp_left fun hs => ?_) hcpr
      simpa [settles, hc] using hs
    · have hcf : isWordChar c = false := by simpa using hc
      have hs : settles false r = true ∨ Breaks rest := by simpa [settles, hcf] using hrest
      have hfresh : ∀ {us}, tokensFrom g j [] (c :: r) = some us →
          tokensFrom g k [] (c :: r ++ rest) = (tokensFrom g k [] rest).map (us ++ ·) := by
        intro us hus
        simp only [tokensFrom, List.cons_append, hcf, Bool.false_eq_true, if_false,
          List.isEmpty_nil, if_true] at hus ⊢
        cases hpc : punctuation? c with
        | none =>
          rw [hpc] at hus
          exact ih hqr (by simp) hus hs (by simp)
        | some u =>
          rw [hpc] at hus
          obtain ⟨vs, hvs, rfl⟩ := Option.map_eq_some_iff.mp hus
          simp only [ih hqr (by simp) hvs hs (by simp), Option.map_map]
          rfl
      cases pending with
      | nil => exact hfresh h
      | cons d p =>
        have hbr : Breaks (c :: r) := hcf
        rw [tokensFrom_pending (by simp) hbr] at h
        rw [tokensFrom_pending (by simp) (show Breaks (c :: r ++ rest) from hcf),
          wordToken?_of_not_mem hpr j k]
        obtain ⟨⟨u, j'⟩, hu, hmap⟩ := Option.bind_eq_some_iff.mp h
        obtain ⟨vs, hvs, rfl⟩ := Option.map_eq_some_iff.mp hmap
        obtain rfl : j' = j := by
          have hsame := wordToken?_of_not_mem (g := g) hpr j j
          rw [hu] at hsame
          exact congrArg Prod.snd (Option.some.inj hsame)
        simp only [hu, Option.map_some, Option.bind_some]
        rw [hfresh hvs, Option.map_map]
        rfl

namespace Spells

variable {k l m : Nat} {s t : String} {ts us : List Token}

theorem congr (h : Spells g k s ts l) (hs : s = t) (hts : ts = us) : Spells g k t us l := by
  rwa [← hs, ← hts]

/-- The whole text is cut into the tokens it spells. -/
theorem tokensIn? (h : Spells g 0 s ts l) : Sql.tokensIn? g s = some ts := by
  have := h [] rfl
  rw [List.append_nil] at this
  rw [Sql.tokensIn?, this]
  simp [tokensFrom]

theorem append (hs : Spells g k s ts l) (ht : Spells g l t us m)
    (hb : Breaks t.toList := by decide) : Spells g k (s ++ t) (ts ++ us) m := by
  intro rest hr
  rw [String.toList_append, List.append_assoc, hs _ (hb.append hr), ht rest hr, Option.map_map]
  simp [Function.comp_def]

theorem append_firm (hs : Spells g k s ts l) (ht : Firm g l t us m) (ho : Opens t := by decide) :
    Firm g k (s ++ t) (ts ++ us) m := by
  intro rest
  have hbr : Breaks (t.toList ++ rest) := by
    have happend := (ho.append (String.ofList rest)).breaks
    rwa [String.toList_append, String.toList_ofList] at happend
  rw [String.toList_append, List.append_assoc, hs _ hbr, ht rest, Option.map_map]
  simp [Function.comp_def]

theorem Firm.append (hs : Firm g k s ts l) (ht : Spells g l t us m) :
    Spells g k (s ++ t) (ts ++ us) m := by
  intro rest hr
  rw [String.toList_append, List.append_assoc, hs _, ht rest hr, Option.map_map]
  simp [Function.comp_def]

theorem Firm.append_firm (hs : Firm g k s ts l) (ht : Firm g l t us m) :
    Firm g k (s ++ t) (ts ++ us) m := by
  intro rest
  rw [String.toList_append, List.append_assoc, hs _, ht rest, Option.map_map]
  simp [Function.comp_def]

/-- A fixed text without marks spells its tokens. -/
theorem fixed (k : Nat) (s : String) (ts : List Token) (h : Sql.tokensIn? g s = some ts := by rfl)
    (hq : '?' ∉ s.toList := by decide) : Spells g k s ts k :=
  fun _ hr => tokensFrom_fixed hq (by simp) h (.inr hr)

/-- A fixed text without marks at whose end nothing is left to gather spells its tokens firmly. -/
theorem Firm.fixed (k : Nat) (s : String) (ts : List Token) (h : Sql.tokensIn? g s = some ts := by
      rfl)
    (hq : '?' ∉ s.toList := by decide) (hs : settles false s.toList = true := by decide) :
    Firm g k s ts k :=
  fun _ => tokensFrom_fixed hq (by simp) h (.inl hs)

/-- A run of word characters spells the token it stands for. -/
theorem ofWordToken {u : Token} (hne : s.toList ≠ []) (hw : ∀ c ∈ s.toList, isWordChar c = true)
    (h : wordToken? g k s.toList = some (u, l)) : Spells g k s [u] l := by
  intro rest hr
  rw [tokensFrom_append hw, List.append_nil, tokensFrom_pending (by simpa using hne) hr,
    List.reverse_reverse, h]
  rfl

/-- A name spells itself. -/
theorem word (k : Nat) (h : Identifier.isValid s = true) : Spells g k s [.word s] k := by
  obtain ⟨c, r, hs, hc⟩ := Identifier.exists_head h
  refine ofWordToken (by simp [hs]) (isWordChar_of_mem_identifier h) ?_
  have hq : c ≠ '?' := fun he => by rw [he] at hc; exact absurd hc (by decide)
  have hd : c ≠ '$' := fun he => by rw [he] at hc; exact absurd hc (by decide)
  rw [show Token.word s = Token.word (String.ofList s.toList) by rw [String.ofList_toList], hs]
  simp [wordToken?, hq, hd]

/-- A numeral spells itself. -/
theorem numeral (k n : Nat) : Spells g k (Text.ofNat n) [.word (Text.ofNat n)] k := by
  have hne : Nat.toDigits 10 n ≠ [] := Nat.toDigits_ne_nil
  have hdigit : ∀ c ∈ Nat.toDigits 10 n, c.isDigit = true := fun c hc =>
    Nat.isDigit_of_mem_toDigits (by decide) (by decide) hc
  refine ofWordToken (by rwa [Text.toList_ofNat]) ?_ ?_
  · intro c hc
    exact isWordChar_of_mem_toDigits (n := n) (by rwa [Text.toList_ofNat] at hc)
  · rw [Text.toList_ofNat, Text.ofNat]
    cases hn : Nat.toDigits 10 n with
    | nil => exact absurd hn hne
    | cons c r =>
      rw [hn] at hdigit
      have hq : c ≠ '?' := fun he => absurd (hdigit c List.mem_cons_self) (by rw [he]; decide)
      have hd : c ≠ '$' := fun he => absurd (hdigit c List.mem_cons_self) (by rw [he]; decide)
      simp [wordToken?, hq, hd]

end Spells

/-! ## Marks -/

/-- How many marks without number stand for the first `n` arguments. -/
def plainMarks (d : Dialect) (n : Nat) : Nat :=
  match d with
  | .mysql => n
  | .postgres | .sqlite => 0

/-- The mark of an argument spells it, all arguments before it having been marked in order. -/
theorem Spells.placeholder {d : Dialect} (hg : g.Takes d) (n : Nat) :
    Spells g (plainMarks d n) (d.placeholder (n + 1)) [.argument (n + 1)]
    (plainMarks d (n + 1)) := by
  have hmark : ∀ c, isWordChar c = true →
      ∀ x ∈ c :: Nat.toDigits 10 (n + 1), isWordChar x = true := fun c hc x hx =>
    (List.mem_cons.mp hx).elim (fun he => he ▸ hc) isWordChar_of_mem_toDigits
  cases d with
  | mysql =>
    obtain ⟨hplain, -⟩ := hg
    have hs : (Dialect.mysql.placeholder (n + 1)).toList = ['?'] := by
      simp [Dialect.placeholder]
    refine ofWordToken (by simp [hs]) ?_ ?_
    · intro c hc
      rw [hs, List.mem_singleton] at hc
      rw [hc]
      decide
    · rw [hs]
      simp [wordToken?, hplain, plainMarks]
  | postgres =>
    obtain ⟨hdollar, -⟩ := hg
    have hs : (Dialect.postgres.placeholder (n + 1)).toList = '$' :: Nat.toDigits 10 (n + 1) := by
      simp [Dialect.placeholder]
    refine ofWordToken (by simp [hs]) (hs ▸ hmark '$' (by decide)) ?_
    rw [hs]
    simp [wordToken?, hdollar, plainMarks]
  | sqlite =>
    obtain ⟨hnumbered, -⟩ := hg
    have hs : (Dialect.sqlite.placeholder (n + 1)).toList = '?' :: Nat.toDigits 10 (n + 1) := by
      simp [Dialect.placeholder]
    refine ofWordToken (by simp [hs]) (hs ▸ hmark '?' (by decide)) ?_
    rw [hs]
    simp [wordToken?, hnumbered, plainMarks]

end Sql
end Cutover
