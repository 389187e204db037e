import Cutover.Json.Record
import Cutover.Proofs.Json.Reading

/-! # The grammar of documents

What a document is, told without a reader: which pieces stand at the front of a text, what they
mean, and what is left (`Phrase`).  A value that nobody wants is told by its form alone (`Takes`),
of a record the members are told with the places of their values (`Members`), and a field of a
record is a member whose name occurs once (`Once`).
-/

namespace Cutover.Json

/-- Pieces at the front of a text: `L s a rest` tells that `s` begins with a piece that means `a`,
and that `rest` is left. -/
abbrev Phrase (α : Type) := List UInt8 → α → List UInt8 → Prop

/-- Blanks, any number of them. -/
inductive Blanks : List UInt8 → List UInt8 → Prop where
  | nil (s : List UInt8) : Blanks s s
  | cons {b : UInt8} {s rest : List UInt8} : isBlankByte b = true → Blanks s rest →
      Blanks (b :: s) rest

/-- A byte, blanks before it. -/
def Mark (b : UInt8) (s rest : List UInt8) : Prop := Blanks s (b :: rest)

/-! ## Scalars -/

/-- A byte that stands for itself in a string. -/
def Reader.isPlainByte (b : UInt8) : Bool := b ≠ 0x22 && b ≠ 0x5C && !(b < 0x20)

/-- The characters of a string up to its closing quotation mark, and the bytes they stand for. -/
inductive Characters : Phrase (List UInt8) where
  | close (s : List UInt8) : Characters (0x22 :: s) [] s
  | plain {x : UInt8} {s t rest : List UInt8} : Reader.isPlainByte x = true → Characters s t rest →
      Characters (x :: s) (x :: t) rest
  | short {x y : UInt8} {s t rest : List UInt8} : shortEscape? x = some y → Characters s t rest →
      Characters (0x5C :: x :: s) (y :: t) rest
  /-- A character of the basic plane, by its number. -/
  | unicode {a b c d : UInt8} {n : Nat} {s t rest : List UInt8} : hex4? a b c d = some n →
      n < 0xD800 ∨ 0xE000 ≤ n → Characters s t rest →
      Characters (0x5C :: 0x75 :: a :: b :: c :: d :: s) (utf8Bytes n ++ t) rest
  /-- A character beyond the basic plane, by a pair of surrogates. -/
  | pair {a b c d e f g h : UInt8} {n m : Nat} {s t rest : List UInt8} :
      hex4? a b c d = some n → 0xD800 ≤ n → n < 0xDC00 →
      hex4? e f g h = some m → 0xDC00 ≤ m → m < 0xE000 → Characters s t rest →
      Characters (0x5C :: 0x75 :: a :: b :: c :: d :: 0x5C :: 0x75 :: e :: f :: g :: h :: s)
        (utf8Bytes (0x10000 + (n - 0xD800) * 0x400 + (m - 0xDC00)) ++ t) rest

/-- A string. -/
def StringText : Phrase String := fun s t rest =>
  ∃ inner, Mark 0x22 s inner ∧ Characters inner (textBytes t) rest

/-- An integer of 64 bits: its decimal digits, a minus sign before them if it is negative. -/
def IntegerText : Phrase Int64 := fun s i rest => Blanks s (textBytes (Text.ofInt64 i) ++ rest)

/-- One of finitely many names: the name as a string, or an object whose only member has this name
and no value. -/
def VariantText {α : Type} (ofName? : String → Option α) : Phrase α := fun s a rest =>
  ∃ name, ofName? name = some a ∧
    (StringText s name rest ∨
      ∃ inner colon value close, Mark 0x7B s inner ∧ StringText inner name colon ∧
        Mark 0x3A colon value ∧ Blanks value (ascii "null" ++ close) ∧ Mark 0x7D close rest)

/-! ## Values by their form -/

/-- The characters of a string whose content nobody wants: of an escape only the form counts. -/
inductive Undecoded : List UInt8 → List UInt8 → Prop where
  | close (s : List UInt8) : Undecoded (0x22 :: s) s
  | plain {x : UInt8} {s rest : List UInt8} : Reader.isPlainByte x = true → Undecoded s rest →
      Undecoded (x :: s) rest
  | short {x : UInt8} {s rest : List UInt8} : afterString.isShortEscape x = true →
      Undecoded s rest → Undecoded (0x5C :: x :: s) rest
  | unicode {a b c d : UInt8} {s rest : List UInt8} :
      (∀ x ∈ [a, b, c, d], afterString.hexByte x = true) → Undecoded s rest →
      Undecoded (0x5C :: 0x75 :: a :: b :: c :: d :: s) rest

/-- One or more digits. -/
def DigitRun (s rest : List UInt8) : Prop :=
  ∃ ds, ds ≠ [] ∧ (∀ d ∈ ds, isDigitByte d = true) ∧ s = ds ++ rest

/-- The integer part of a number: digits, of which the first is a zero only if it stands alone. -/
def IntegerPart (s rest : List UInt8) : Prop :=
  ∃ ds, ds ≠ [] ∧ (∀ d ∈ ds, isDigitByte d = true) ∧ (ds.head? = some 0x30 → ds = [0x30]) ∧
    s = ds ++ rest

/-- The fraction of a number, if it has one. -/
def FractionPart (s rest : List UInt8) : Prop := s = rest ∨ ∃ m, s = 0x2E :: m ∧ DigitRun m rest

/-- The exponent of a number, if it has one. -/
def ExponentPart (s rest : List UInt8) : Prop :=
  s = rest ∨ ∃ e m ds, (e = 0x65 ∨ e = 0x45) ∧ s = e :: m ∧
    (m = ds ∨ m = 0x2B :: ds ∨ m = 0x2D :: ds) ∧ DigitRun ds rest

/-- A number. -/
def NumberText (s rest : List UInt8) : Prop :=
  ∃ whole fraction exponent, (s = whole ∨ s = 0x2D :: whole) ∧ IntegerPart whole fraction ∧
    FractionPart fraction exponent ∧ ExponentPart exponent rest

/-- The byte that opens a bracket. -/
def Bracket.opening : Bracket → UInt8
  | .array => 0x5B
  | .object => 0x7B

/-- A member's name with its colon. -/
def NameText (s rest : List UInt8) : Prop :=
  ∃ inner colon, Mark 0x22 s inner ∧ Undecoded inner colon ∧ Mark 0x3A colon rest

/-- What is told by its form alone: a value, or what follows the first element of a bracket up to
its end. -/
inductive Category where
  | value
  | others (b : Bracket)

/-- A well-formed piece of a category at the front of a text. -/
inductive Takes : Category → List UInt8 → List UInt8 → Prop where
  | blank {b : UInt8} {s rest : List UInt8} : isBlankByte b = true → Takes .value s rest →
      Takes .value (b :: s) rest
  | word {w : String} {rest : List UInt8} : w ∈ ["null", "true", "false"] →
      Takes .value (ascii w ++ rest) rest
  | number {s rest : List UInt8} : NumberText s rest → Takes .value s rest
  | string {s rest : List UInt8} : Undecoded s rest → Takes .value (0x22 :: s) rest
  | empty {s rest : List UInt8} (b : Bracket) : Mark b.close s rest →
      Takes .value (b.opening :: s) rest
  | array {s m rest : List UInt8} : Takes .value s m → Takes (.others .array) m rest →
      Takes .value (0x5B :: s) rest
  | object {s v m rest : List UInt8} : NameText s v → Takes .value v m →
      Takes (.others .object) m rest → Takes .value (0x7B :: s) rest
  | close {s rest : List UInt8} (b : Bracket) : Mark b.close s rest → Takes (.others b) s rest
  | element {s v m rest : List UInt8} : Mark 0x2C s v → Takes .value v m →
      Takes (.others .array) m rest → Takes (.others .array) s rest
  | member {s n v m rest : List UInt8} : Mark 0x2C s n → NameText n v → Takes .value v m →
      Takes (.others .object) m rest → Takes (.others .object) s rest

/-! ## Records -/

/-- A member of an object: its name, the text from its value on, and what is left behind the
value. -/
structure Entry where
  name : String
  value : List UInt8
  behind : List UInt8

/-- The members of an object up to its closing brace, which is taken too; a comma stands before each
but the first. -/
inductive Members : (first : Bool) → Phrase (List Entry) where
  | close {first : Bool} {s rest : List UInt8} : Mark 0x7D s rest → Members first s [] rest
  | first {s colon value behind rest : List UInt8} {name : String} {es : List Entry} :
      StringText s name colon → Mark 0x3A colon value → Members false behind es rest →
      Members true s (⟨name, value, behind⟩ :: es) rest
  | next {s n colon value behind rest : List UInt8} {name : String} {es : List Entry} :
      Mark 0x2C s n → StringText n name colon → Mark 0x3A colon value →
      Members false behind es rest → Members false s (⟨name, value, behind⟩ :: es) rest

/-- An object of these members. -/
def ObjectText : Phrase (List Entry) := fun s es rest =>
  ∃ inner, Mark 0x7B s inner ∧ Members true inner es rest

/-- The one member of this name has a value of the language. -/
def Once {α : Type} (es : List Entry) (name : String) (L : Phrase α) (a : α) : Prop :=
  ∃ e, es.filter (·.name = name) = [e] ∧ L e.value a e.behind

/-- The members of other names have values of any kind. -/
def Others (es : List Entry) (known : List String) : Prop :=
  ∀ e ∈ es, e.name ∉ known → Takes .value e.value e.behind

/-! ## Places -/

theorem Blanks.length_le {s rest : List UInt8} (h : Blanks s rest) : rest.length ≤ s.length := by
  induction h with
  | nil s => exact Nat.le_refl _
  | cons _ _ ih => exact Nat.le_succ_of_le ih

theorem Blanks.trans {s m rest : List UInt8} (h : Blanks s m) (h' : Blanks m rest) :
    Blanks s rest := by
  induction h with
  | nil s => exact h'
  | cons hb _ ih => exact .cons hb (ih h')

theorem StringText.of_blanks {s m rest : List UInt8} {t : String} (h : StringText m t rest)
    (hs : Blanks s m) : StringText s t rest := by
  obtain ⟨inner, hmark, hinner⟩ := h
  exact ⟨inner, hs.trans hmark, hinner⟩

theorem Mark.length_lt {b : UInt8} {s rest : List UInt8} (h : Mark b s rest) :
    rest.length < s.length :=
  Blanks.length_le h

theorem Blanks.dropWhile_congr {s rest : List UInt8} (h : Blanks s rest) :
    s.dropWhile isBlankByte = rest.dropWhile isBlankByte := by
  induction h with
  | nil s => rfl
  | cons hc _ ih => rw [List.dropWhile_cons, if_pos hc, ih]

/-- Behind the blanks the text is what it is without them. -/
theorem Blanks.dropWhile_eq {b : UInt8} {s rest : List UInt8} (h : Blanks s (b :: rest))
    (hb : isBlankByte b = false) : s.dropWhile isBlankByte = b :: rest := by
  rw [h.dropWhile_congr, List.dropWhile_cons, hb]
  rfl

theorem blanks_dropWhile (s : List UInt8) : Blanks s (s.dropWhile isBlankByte) := by
  induction s with
  | nil => exact .nil _
  | cons b s ih =>
    rw [List.dropWhile_cons]
    split
    · rename_i hb
      exact .cons hb ih
    · exact .nil _

/-- Two bytes that are no blanks do not stand at one place. -/
theorem Blanks.unique {b c : UInt8} {s rest rest' : List UInt8} (h : Blanks s (b :: rest))
    (h' : Blanks s (c :: rest')) (hb : isBlankByte b = false) (hc : isBlankByte c = false) :
    b = c ∧ rest = rest' :=
  List.cons.inj ((h.dropWhile_eq hb).symm.trans (h'.dropWhile_eq hc))

theorem Characters.length_lt {s t rest : List UInt8} (h : Characters s t rest) :
    rest.length < s.length := by
  induction h with
  | close s => simp
  | plain _ _ ih | short _ _ ih | unicode _ _ _ ih | pair _ _ _ _ _ _ _ ih =>
    simp only [List.length_cons]
    omega

theorem StringText.length_lt {s rest : List UInt8} {t : String} (h : StringText s t rest) :
    rest.length < s.length := by
  obtain ⟨inner, hmark, hinner⟩ := h
  exact Nat.lt_trans hinner.length_lt hmark.length_lt

theorem VariantText.length_le {α : Type} {ofName? : String → Option α} {s rest : List UInt8} {a : α}
    (h : VariantText ofName? s a rest) : rest.length ≤ s.length := by
  obtain ⟨name, -, hstring | ⟨inner, colon, value, close, hmark, hstring, hcolon, hnull, hclose⟩⟩ :=
    h
  · exact Nat.le_of_lt hstring.length_lt
  · have hle := hnull.length_le
    rw [List.length_append] at hle
    have := hmark.length_lt
    have := hstring.length_lt
    have := hcolon.length_lt
    have := hclose.length_lt
    omega

/-- A piece begins with a byte that is no blank and closes no array. -/
def Begins (s : List UInt8) : Prop := ∃ b t, Mark b s t ∧ isBlankByte b = false ∧ b ≠ 0x5D

theorem StringText.begins {s rest : List UInt8} {t : String} (h : StringText s t rest) :
    Begins s := by
  obtain ⟨inner, hmark, -⟩ := h
  exact ⟨_, inner, hmark, by decide, by decide⟩

theorem VariantText.begins {α : Type} {ofName? : String → Option α} {s rest : List UInt8} {a : α}
    (h : VariantText ofName? s a rest) : Begins s := by
  obtain ⟨name, -, hstring | ⟨inner, colon, value, close, hmark, -⟩⟩ := h
  · exact hstring.begins
  · exact ⟨_, inner, hmark, by decide, by decide⟩

theorem IntegerText.begins {s rest : List UInt8} {i : Int64} (h : IntegerText s i rest) :
    Begins s := by
  rw [IntegerText] at h
  by_cases hneg : i.toInt < 0
  · rw [Reader.textBytes_ofInt64_of_neg hneg] at h
    exact ⟨_, _, h, by decide, by decide⟩
  · obtain ⟨d, ds, hds, hd⟩ := Reader.exists_decimalBytes_cons i.toInt.natAbs
    rw [Reader.textBytes_ofInt64_of_nonneg hneg, hds] at h
    refine ⟨d, _, h, Reader.isBlankByte_of_isDigitByte hd, ?_⟩
    rintro rfl
    exact absurd hd (by decide)

theorem Mark.stops {b : UInt8} {s rest : List UInt8} (h : Mark b s rest)
    (hb : Reader.EndsNumber b) : Reader.Stops s := by
  cases h with
  | nil _ => exact Reader.stops_cons hb rest
  | @cons c s _ hc _ =>
    refine Reader.stops_cons ?_ s
    have hcases : c = 0x20 ∨ c = 0x0A ∨ c = 0x0D ∨ c = 0x09 := by
      simpa [isBlankByte, or_assoc] using hc
    rcases hcases with rfl | rfl | rfl | rfl <;> decide

theorem Members.stops {s rest : List UInt8} {es : List Entry} (h : Members false s es rest) :
    Reader.Stops s := by
  cases h with
  | close hmark => exact hmark.stops (by decide)
  | next hmark => exact hmark.stops (by decide)

theorem Members.length_lt {s rest : List UInt8} {first : Bool} {es : List Entry}
    (h : Members first s es rest) (hvalue : ∀ e ∈ es, e.behind.length ≤ e.value.length) :
    es.length < s.length := by
  induction h with
  | close hmark => exact Nat.zero_lt_of_lt hmark.length_lt
  | first hname hcolon _ ih =>
    obtain ⟨hle, hvalue⟩ := List.forall_mem_cons.mp hvalue
    have := ih hvalue
    dsimp only at hle
    have := hname.length_lt
    have := hcolon.length_lt
    simp only [List.length_cons]
    omega
  | next hcomma hname hcolon _ ih =>
    obtain ⟨hle, hvalue⟩ := List.forall_mem_cons.mp hvalue
    have := ih hvalue
    dsimp only at hle
    have := hcomma.length_lt
    have := hname.length_lt
    have := hcolon.length_lt
    simp only [List.length_cons]
    omega

end Cutover.Json
