import Cutover.Binary64.Layout
import Cutover.Proofs.Binary64.Shortest
import Cutover.Proofs.Json.Scalar
import Cutover.Proofs.Json.Writing

/-! # Numerals

A number token is taken apart first and computed then: its parts are a numeral (`Reader.numeral`),
and the number is made of the numeral alone (`Reader.number_eq`).  A numeral is read back from its
text (`reads_numeral`), and the text of a finite double is that of a numeral with a fraction or an
exponent that spells the shortest decimal of the double (`exists_numeral`).

What a numeral spells is a rational, and of it there is a nearest double (`Numeral.nearest`), but
the reader does not always make that one: it rounds the digits first and scales them by a power of
ten then (`Numeral.double?`).  It is therefore said of a double apart whether the reader is exact on
its text (`Binary64.IsReadExactly`).
-/

namespace Cutover
namespace Json

open Text (spelled spelled_append spelled_zeros IsDecimal exists_digits isDigit_digitChar)

/-! ## Numerals -/

/-- The parts of a number token: its sign, its digits before and behind the point, and the digits of
its exponent with whether it is negative. -/
structure Numeral where
  negative : Bool
  whole : List ℕ
  fraction : List ℕ
  exponent : Option (Bool × List ℕ)

namespace Numeral

variable (n : Numeral)

/-- All digits as one number. -/
def significand : ℕ := spelled (n.whole ++ n.fraction)

/-- The exponent that is spelled. -/
def exponentValue : Option (Bool × List ℕ) → ℤ
  | none => 0
  | some (down, ds) => if down then -(spelled ds : ℤ) else spelled ds

/-- The power of ten that the significand is multiplied by. -/
def power : ℤ := exponentValue n.exponent - n.fraction.length

/-- The number that is spelled, its sign apart. -/
def value : ℚ := n.significand * 10 ^ n.power

/-- The double nearest to the number that is spelled. -/
def nearest : Binary64 :=
  Binary64.nearest n.negative (n.significand * 10 ^ n.power.toNat) (10 ^ (-n.power).toNat)

/-- The double that a reader makes of the parts. -/
def double? : Option Binary64 :=
  let (whole, dropped) := gather 0 n.whole
  let (significand, left) := gather whole n.fraction
  Reader.floatParts n.negative significand ((dropped : ℤ) - (n.fraction.length - left : ℕ))
    n.exponent

/-- The number that a reader makes of the parts. -/
def number? : Option Number :=
  let (whole, dropped) := gather 0 n.whole
  if dropped = 0 ∧ n.fraction = [] ∧ n.exponent = none then
    if !n.negative then some (.natural whole)
    else if whole = 0 ∨ 1 <<< 63 < whole then some (.float (-(Binary64.ofNat whole)))
    else some (.negative whole)
  else n.double?.map .float

/-- A numeral with a fraction or an exponent. -/
def IsBroken : Prop := n.fraction ≠ [] ∨ n.exponent ≠ none

/-- A numeral with a fraction or an exponent is no integer. -/
theorem number?_of_isBroken {n : Numeral} (h : n.IsBroken) : n.number? = n.double?.map .float := by
  unfold number?
  dsimp only
  rw [if_neg]
  rintro ⟨-, hfraction, hexponent⟩
  rcases h with h | h
  · exact h hfraction
  · exact h hexponent

/-! ## The text of a numeral -/

def fractionText : List ℕ → List Char
  | [] => []
  | ds => '.' :: ds.map Nat.digitChar

theorem fractionText_of_ne_nil {ds : List ℕ} (h : ds ≠ []) :
    fractionText ds = '.' :: ds.map Nat.digitChar := by
  obtain ⟨d, l, rfl⟩ := List.exists_cons_of_ne_nil h
  rfl

def exponentText : Option (Bool × List ℕ) → List Char
  | none => []
  | some (down, ds) => 'e' :: (if down then '-' else '+') :: ds.map Nat.digitChar

def signText (negative : Bool) : List Char := if negative then ['-'] else []

/-- The characters of a numeral. -/
def text : List Char :=
  signText n.negative ++
    (n.whole.map Nat.digitChar ++ (fractionText n.fraction ++ exponentText n.exponent))

/-- The parts are digits, where digits must stand. -/
structure IsProper : Prop where
  whole : IsDecimal n.whole
  fraction : ∀ d ∈ n.fraction, d < 10
  exponent : ∀ e ∈ n.exponent, e.2 ≠ [] ∧ ∀ d ∈ e.2, d < 10

end Numeral

/-! ## Reading numerals -/

namespace Reader

variable {s rest : List UInt8}

/-- Takes a number apart. -/
def numeral : Reader Numeral := do
  let negative := (← peek) = some 0x2D
  if negative then drop
  return ⟨negative, ← integerDigits, ← fractionDigits, ← exponentPart⟩

/-- A number begins with a minus sign or a digit. -/
theorem Reads.numeral_head {n : Numeral} (h : Reads numeral s n rest) :
    ∃ b t, s = b :: t ∧ (b = 0x2D ∨ isDigitByte b = true) := by
  obtain ⟨o, m, hpeek, hif⟩ := reads_bind_iff.mp h
  obtain ⟨rfl, rfl⟩ := reads_peek_iff.mp hpeek
  dsimp only at hif
  split at hif
  · rename_i hminus
    obtain ⟨t, rfl⟩ := List.head?_eq_some_iff.mp hminus
    exact ⟨_, t, rfl, .inl rfl⟩
  · obtain ⟨ds, m, hwhole, -⟩ := reads_bind_iff.mp hif
    obtain ⟨bytes, hne, hbytes, -, -, rfl⟩ := integerDigits_sound hwhole
    obtain ⟨d, l, rfl⟩ := List.exists_cons_of_ne_nil hne
    exact ⟨d, _, rfl, .inr (hbytes d List.mem_cons_self)⟩

/-- What the reader makes of the parts of a number. -/
theorem made_eq (n : Numeral) :
    (if (gather 0 n.whole).2 = 0 ∧ n.fraction = [] ∧ n.exponent = none then
        if !n.negative then pure (Number.natural (gather 0 n.whole).1)
        else if (gather 0 n.whole).1 = 0 ∨ 1 <<< 63 < (gather 0 n.whole).1 then
          pure (Number.float (-(Binary64.ofNat (gather 0 n.whole).1)))
        else pure (Number.negative (gather 0 n.whole).1)
      else match n.double? with
        | none => (refuse .malformed : Reader Number)
        | some x => pure (Number.float x)) =
      match n.number? with
      | none => refuse .malformed
      | some a => pure a := by
  unfold Numeral.number?
  dsimp only
  split_ifs
  · rfl
  · rfl
  · rfl
  · cases n.double? <;> rfl

/-- **A number is made of its parts alone.** -/
theorem number_eq : number = numeral >>= fun n =>
    match n.number? with
    | none => refuse .malformed
    | some a => pure a := by
  unfold number numeral
  rw [bind_assoc]
  refine bind_congr fun o => ?_
  dsimp only
  -- behind either sign the same parts are read, and only then anything is made of them
  split
  · simp only [bind_assoc, pure_bind]
    refine bind_congr fun _ => bind_congr fun ds => bind_congr fun fraction =>
      bind_congr fun exponent => ?_
    exact made_eq ⟨_, ds, fraction, exponent⟩
  · simp only [bind_assoc, pure_bind]
    refine bind_congr fun ds => bind_congr fun fraction => bind_congr fun exponent => ?_
    exact made_eq ⟨_, ds, fraction, exponent⟩

theorem reads_number_iff {a : Number} :
    Reads number s a rest ↔ ∃ n, Reads numeral s n rest ∧ n.number? = some a := by
  rw [number_eq, reads_bind_iff]
  constructor
  · rintro ⟨n, m, hn, hmatch⟩
    split at hmatch
    · exact absurd hmatch not_reads_refuse
    · rename_i hsome
      obtain ⟨rfl, rfl⟩ := reads_pure_iff.mp hmatch
      exact ⟨n, hn, hsome⟩
  · rintro ⟨n, hn, hsome⟩
    refine ⟨n, rest, hn, ?_⟩
    rw [hsome]
    exact reads_pure a rest

/-- A number with a fraction or an exponent is a double, or it is refused. -/
theorem Reads.number_iff {n : Numeral} {a : Number} {m : List UInt8} (hn : Reads numeral s n m)
    (h : n.IsBroken) : Reads number s a rest ↔ m = rest ∧ n.double?.map .float = some a := by
  rw [reads_number_iff]
  constructor
  · rintro ⟨n', hn', ha⟩
    obtain ⟨rfl, rfl⟩ := hn.unique hn'
    exact ⟨rfl, (Numeral.number?_of_isBroken h).symm.trans ha⟩
  · rintro ⟨rfl, ha⟩
    exact ⟨n, hn, (Numeral.number?_of_isBroken h).trans ha⟩

/-- The bytes of digits. -/
def digitBytes (ds : List ℕ) : List UInt8 := (ds.map Nat.digitChar).map Char.toUInt8

theorem digitBytes_ne_nil {ds : List ℕ} (h : ds ≠ []) : digitBytes ds ≠ [] := by
  simpa [digitBytes] using h

section
variable {ds : List ℕ} (hds : ∀ d ∈ ds, d < 10)
include hds

theorem isDigitByte_of_mem_digitBytes : ∀ b ∈ digitBytes ds, isDigitByte b = true := by
  intro b hb
  obtain ⟨c, hc, rfl⟩ := List.mem_map.mp hb
  obtain ⟨d, hd, rfl⟩ := List.mem_map.mp hc
  exact (digit_toUInt8 (isDigit_digitChar (hds d hd)).1).1

theorem map_digitOf_digitBytes : (digitBytes ds).map digitOf = ds := by
  unfold digitBytes
  rw [List.map_map, List.map_map]
  refine (List.map_congr_left fun d hd => ?_).trans (List.map_id ds)
  obtain ⟨hdigit, hvalue⟩ := isDigit_digitChar (hds d hd)
  exact (digit_toUInt8 hdigit).2.trans hvalue

theorem reads_integerDigits_digitBytes (hne : ds ≠ []) (hhead : ds.head? = some 0 → ds = [0])
    (hrest : NoDigit rest) : Reads integerDigits (digitBytes ds ++ rest) ds rest := by
  have hvalue := map_digitOf_digitBytes hds
  have hzero : (digitBytes ds).head? = some 0x30 → digitBytes ds = [0x30] := by
    intro hzero
    obtain ⟨d, l, rfl⟩ := List.exists_cons_of_ne_nil hne
    have hd : d = 0 := by
      have hfirst : d = digitOf (Nat.digitChar d).toUInt8 := (List.cons.inj hvalue).1.symm
      rw [hfirst, Option.some.inj hzero]
      rfl
    rw [hhead (congrArg some hd)]
    rfl
  have hreads := reads_integerDigits_of (digitBytes_ne_nil hne) (isDigitByte_of_mem_digitBytes hds)
    hzero hrest
  rwa [hvalue] at hreads

end

/-- **A numeral is read back from its text.** -/
theorem reads_numeral {n : Numeral} (hn : n.IsProper) (hrest : Stops rest) :
    Reads numeral (n.text.map Char.toUInt8 ++ rest) n rest := by
  obtain ⟨negative, whole, fraction, exponent⟩ := n
  have hexponent : Reads exponentPart ((Numeral.exponentText exponent).map Char.toUInt8 ++ rest)
      exponent rest := by
    cases exponent with
    | none => exact reads_exponentPart hrest
    | some e =>
      obtain ⟨down, ds⟩ := e
      obtain ⟨hne, hds⟩ := hn.exponent _ rfl
      have hletter : ∀ t, t = digitBytes ds ++ rest ∨ t = 0x2B :: (digitBytes ds ++ rest) ∨
          t = 0x2D :: (digitBytes ds ++ rest) →
            Reads exponentPart (0x65 :: t)
              (some (decide (t.head? = some 0x2D), (digitBytes ds).map digitOf)) rest :=
        fun t ht => reads_exponentPart_letter (.inl rfl) ht (digitBytes_ne_nil hne)
          (isDigitByte_of_mem_digitBytes hds) hrest.noDigit
      rw [map_digitOf_digitBytes hds] at hletter
      cases down with
      | false => exact hletter _ (.inr (.inl rfl))
      | true => exact hletter _ (.inr (.inr rfl))
  obtain ⟨hdigit, hpoint⟩ := NoDigit.of_exponentPart (exponentPart_sound hexponent).1 hrest
  have hfraction : Reads fractionDigits ((Numeral.fractionText fraction).map Char.toUInt8 ++
      ((Numeral.exponentText exponent).map Char.toUInt8 ++ rest)) fraction
      ((Numeral.exponentText exponent).map Char.toUInt8 ++ rest) := by
    cases fraction with
    | nil => exact reads_fractionDigits hpoint
    | cons d ds =>
      have hreads := reads_fractionDigits_point (digitBytes_ne_nil (List.cons_ne_nil d ds))
        (isDigitByte_of_mem_digitBytes hn.fraction) hdigit
      rwa [map_digitOf_digitBytes hn.fraction] at hreads
  have hwhole := reads_integerDigits_digitBytes hn.whole.lt hn.whole.ne_nil hn.whole.head
    (NoDigit.of_fractionPart (fractionDigits_sound hfraction).1 hdigit)
  have hparts : ∀ b : Bool,
    Reads (do return (⟨b, ← integerDigits, ← fractionDigits, ← exponentPart⟩ : Numeral))
      _ ⟨b, whole, fraction, exponent⟩ rest :=
        fun b => hwhole.bind (hfraction.bind (hexponent.map _))
  have htext : (Numeral.mk negative whole fraction exponent).text.map Char.toUInt8 ++ rest =
      (Numeral.signText negative).map Char.toUInt8 ++ (digitBytes whole ++
        ((Numeral.fractionText fraction).map Char.toUInt8 ++
          ((Numeral.exponentText exponent).map Char.toUInt8 ++ rest))) := by
    simp only [Numeral.text, List.map_append, List.append_assoc, digitBytes]
  rw [htext]
  cases negative with
  | true =>
    refine (reads_peek 0x2D _).bind ?_
    dsimp only
    rw [if_pos rfl]
    exact (reads_drop _ _).bind (hparts true)
  | false =>
    -- a digit is no sign
    obtain ⟨d, l, rfl⟩ := List.exists_cons_of_ne_nil hn.whole.ne_nil
    have hd := isDigitByte_of_mem_digitBytes hn.whole.lt _ List.mem_cons_self
    have hsign : ¬ some (Nat.digitChar d).toUInt8 = some (0x2D : UInt8) := by
      intro h
      rw [Option.some.inj h] at hd
      exact absurd hd (by decide)
    refine Reads.bind (a := some (Nat.digitChar d).toUInt8) (reads_peek_iff.mpr ⟨rfl, rfl⟩) ?_
    simp only [hsign, decide_false, if_false]
    exact hparts false

end Reader

/-! ## Doubles as they are written -/

/-- A numeral with a fraction or an exponent is written so behind its sign, and its parts are those
of a decimal: its digits and its power of ten, or a whole number with a zero behind the point. -/
structure Numeral.Writes (n : Numeral) (negative : Bool) (body : List Char) (d : Binary64.Decimal) :
    Prop where
  proper : n.IsProper
  isBroken : n.IsBroken
  negative_eq : n.negative = negative
  text_eq : n.text = signText negative ++ body
  parts_eq : n.significand = d.digits ∧ n.power = d.exponent ∨
    ∃ k : ℕ, d.exponent = k ∧ n.significand = d.digits * 10 ^ (k + 1) ∧ n.power = -1
  exponent_le : ∀ e ∈ n.exponent,
    spelled e.2 ≤ (Nat.toDigits 10 d.digits).length + d.exponent.natAbs

theorem Numeral.Writes.value_eq {n : Numeral} {negative : Bool} {body : List Char}
    {d : Binary64.Decimal} (h : n.Writes negative body d) : n.value = d.value := by
  unfold Numeral.value Binary64.Decimal.value
  rcases h.parts_eq with ⟨hdigits, hpower⟩ | ⟨k, hk, hdigits, hpower⟩
  · rw [hdigits, hpower]
  · rw [hdigits, hpower, hk, zpow_natCast, zpow_neg_one]
    push_cast
    rw [pow_succ]
    field_simp

section
variable (negative : Bool) {d : Binary64.Decimal} {ds : List ℕ} (hds : IsDecimal ds)
    (hspelled : spelled ds = d.digits)
variable {point : ℤ} (hpoint : point = ds.length + d.exponent)
include hds hspelled hpoint

/-- All digits stand behind the point. -/
theorem exists_positional_behind (h : point ≤ 0) :
    ∃ n : Numeral, n.Writes negative (Binary64.positional true (ds.map Nat.digitChar) point) d := by
  have hne : List.replicate (-point).toNat 0 ++ ds ≠ [] := by simp [hds.ne_nil]
  refine ⟨⟨negative, [0], List.replicate (-point).toNat 0 ++ ds, none⟩,
    ⟨⟨⟨?_, ?_, fun _ => rfl⟩, ?_, nofun⟩, .inl hne, rfl, ?_, .inl ⟨?_, ?_⟩, nofun⟩⟩
  · exact List.cons_ne_nil _ _
  · simp
  · exact fun d hd => hds.lt_of_mem_or_zero (List.mem_append.mp hd)
  · rw [Binary64.positional, if_pos h, Numeral.text]
    dsimp only
    rw [Numeral.fractionText_of_ne_nil hne, List.map_append, List.map_replicate]
    simp [Numeral.exponentText]
    rfl
  · show spelled ([0] ++ (List.replicate (-point).toNat 0 ++ ds)) = _
    rw [spelled_append, spelled_append, spelled_zeros, hspelled]
    simp [spelled]
  · show (0 : ℤ) - (List.replicate (-point).toNat 0 ++ ds).length = d.exponent
    rw [List.length_append, List.length_replicate]
    omega

/-- All digits stand before the point. -/
theorem exists_positional_before (h : ds.length ≤ point) (hzero : ds = [0] → point = 1) :
    ∃ n : Numeral, n.Writes negative (Binary64.positional true (ds.map Nat.digitChar) point) d := by
  have hlength : 0 < ds.length := List.length_pos_iff.mpr hds.ne_nil
  obtain ⟨k, hk⟩ := Int.eq_ofNat_of_zero_le (sub_nonneg.mpr h)
  refine ⟨⟨negative, ds ++ List.replicate k 0, [0], none⟩,
    ⟨⟨⟨?_, ?_, ?_⟩, by simp, nofun⟩, .inl (by simp), rfl, ?_, .inr ⟨k, by omega, ?_, rfl⟩, nofun⟩⟩
  · simp [hds.ne_nil]
  · exact fun d hd => hds.lt_of_mem_or_zero (List.mem_append.mp hd).symm
  · intro hhead
    rw [List.head?_append_of_ne_nil _ hds.ne_nil] at hhead
    obtain rfl := hds.head hhead
    obtain rfl : k = 0 := by
      have hone := hzero rfl
      have hlength : (([0] : List ℕ).length : ℤ) = 1 := rfl
      omega
    rfl
  · rw [Binary64.positional, if_neg (by omega), List.length_map, if_pos h, hk]
    simp [Numeral.text, Numeral.fractionText, Numeral.exponentText]
    rfl
  · show spelled (ds ++ List.replicate k 0 ++ [0]) = _
    rw [spelled_append, spelled_append, spelled_zeros, List.length_replicate, hspelled, pow_succ,
      ← mul_assoc]
    rfl

/-- The point stands between the digits. -/
theorem exists_positional_between (hlow : 0 < point) (hhigh : point < ds.length) :
    ∃ n : Numeral, n.Writes negative (Binary64.positional true (ds.map Nat.digitChar) point) d := by
  obtain ⟨k, rfl⟩ := Int.eq_ofNat_of_zero_le hlow.le
  have hpos : 0 < k := by omega
  have hlt : k < ds.length := by omega
  have hne : ds.drop k ≠ [] := by simpa using hlt
  refine ⟨⟨negative, ds.take k, ds.drop k, none⟩, ⟨⟨hds.take hpos, ?_, nofun⟩, .inl hne, rfl, ?_,
    .inl ⟨?_, ?_⟩, nofun⟩⟩
  · exact fun d hd => hds.lt d (List.mem_of_mem_drop hd)
  · rw [Binary64.positional, if_neg (by omega), List.length_map, if_neg (by omega), Numeral.text]
    dsimp only
    rw [Numeral.fractionText_of_ne_nil hne]
    simp [Numeral.exponentText]
  · show spelled (ds.take k ++ ds.drop k) = _
    rw [List.take_append_drop, hspelled]
  · show (0 : ℤ) - (ds.drop k).length = d.exponent
    rw [List.length_drop]
    omega

/-- **Positional notation** is that of a numeral with a fraction. -/
theorem exists_positional (hzero : ds = [0] → point = 1) :
    ∃ n : Numeral, n.Writes negative (Binary64.positional true (ds.map Nat.digitChar) point) d := by
  rcases le_or_gt point 0 with hlow | hlow
  · exact exists_positional_behind negative hds hspelled hpoint hlow
  · rcases le_or_gt (ds.length : ℤ) point with hhigh | hhigh
    · exact exists_positional_before negative hds hspelled hpoint hhigh hzero
    · exact exists_positional_between negative hds hspelled hpoint hlow hhigh

/-- **Scientific notation** is that of a numeral with an exponent. -/
theorem exists_scientific (hlength : (Nat.toDigits 10 d.digits).length = ds.length) :
    ∃ n : Numeral, n.Writes negative (Binary64.scientific (ds.map Nat.digitChar) point) d := by
  have hpos : 0 < ds.length := List.length_pos_iff.mpr hds.ne_nil
  obtain ⟨es, hes, hvalue, htext⟩ := exists_digits (point - 1).natAbs
  refine ⟨⟨negative, ds.take 1, ds.drop 1, some (decide (point - 1 < 0), es)⟩,
    ⟨⟨hds.take one_pos, ?_, ?_⟩, .inr nofun, rfl, ?_, .inl ⟨?_, ?_⟩, ?_⟩⟩
  · exact fun d hd => hds.lt d (List.mem_of_mem_drop hd)
  · intro e he
    obtain rfl := Option.some.inj he
    exact ⟨hes.ne_nil, hes.lt⟩
  · have hscientific : Binary64.scientific (ds.map Nat.digitChar) point =
        (ds.take 1).map Nat.digitChar ++ Numeral.fractionText (ds.drop 1) ++
          'e' :: (if point - 1 < 0 then '-' else '+') :: Nat.toDigits 10 (point - 1).natAbs := by
      unfold Binary64.scientific
      rw [← List.map_take, ← List.map_drop]
      cases ds.drop 1 <;> rfl
    rw [hscientific, htext]
    simp [Numeral.text, Numeral.exponentText]
  · show spelled (ds.take 1 ++ ds.drop 1) = _
    rw [List.take_append_drop, hspelled]
  · show (if decide (point - 1 < 0) = true then -(spelled es : ℤ) else spelled es) -
      (ds.drop 1).length = d.exponent
    rw [hvalue, List.length_drop]
    split
    · rename_i hdown
      have := of_decide_eq_true hdown
      omega
    · rename_i hup
      have := of_decide_eq_false (Bool.eq_false_of_not_eq_true hup)
      omega
  · intro e he
    obtain rfl := Option.some.inj he
    show spelled es ≤ _
    omega

end

/-- A numeral is written with ASCII characters. -/
theorem Numeral.IsProper.ascii_text {n : Numeral} (hn : n.IsProper) :
    ∀ c ∈ n.text, c.toNat < 128 := by
  obtain ⟨negative, whole, fraction, exponent⟩ := n
  have hdigits : ∀ {ds : List ℕ}, (∀ d ∈ ds, d < 10) → ∀ c ∈ ds.map Nat.digitChar,
      c.toNat < 128 := by
    intro ds hds c hc
    obtain ⟨d, hd, rfl⟩ := List.mem_map.mp hc
    exact ascii_digitChar (Nat.lt_trans (hds d hd) (by decide))
  have hsign : ∀ c ∈ signText negative, c.toNat < 128 := by
    cases negative
    · exact nofun
    · exact List.forall_mem_singleton.mpr (by decide)
  have hfraction : ∀ c ∈ fractionText fraction, c.toNat < 128 := by
    cases fraction with
    | nil => exact nofun
    | cons d ds => exact List.forall_mem_cons.mpr ⟨by decide, hdigits hn.fraction⟩
  have hexponent : ∀ c ∈ exponentText exponent, c.toNat < 128 := by
    cases exponent with
    | none => exact nofun
    | some e =>
      obtain ⟨down, ds⟩ := e
      refine List.forall_mem_cons.mpr ⟨by decide,
        List.forall_mem_cons.mpr ⟨?_, hdigits (hn.exponent _ rfl).2⟩⟩
      cases down <;> decide
  intro c hc
  simp only [Numeral.text, List.mem_append] at hc
  rcases hc with hc | hc | hc | hc
  · exact hsign c hc
  · exact hdigits hn.whole.lt c hc
  · exact hfraction c hc
  · exact hexponent c hc

/-- The nearest double is told by the value. -/
theorem Numeral.nearest_eq_of_value (n : Numeral) {x : Binary64} (hx : x.isFinite = true)
    {tie : Binary64.Tie} (hnegative : n.negative = x.isNegative)
    (hvalue : n.value = (x.shortest tie).value) : n.nearest = x := by
  rw [Numeral.nearest, hnegative]
  have hratio : ((n.significand * 10 ^ n.power.toNat : ℕ) : ℚ) / (10 ^ (-n.power).toNat : ℕ) =
      n.value := by
    rw [Nat.cast_mul, mul_div_assoc, Binary64.Interval.pow_toNat_ratio]
    rfl
  exact x.nearest_shortest hx (Nat.pow_pos (by decide)) (hratio.trans hvalue)

/-- A finite double is written in one of two notations. -/
theorem write_document {x : Binary64} (hx : x.isFinite = true) {ds : List ℕ} {point : ℤ}
    (hds : Nat.toDigits 10 (x.shortest .toEven).digits = ds.map Nat.digitChar)
    (hpoint : point = ds.length + (x.shortest .toEven).exponent) :
    x.write .document = String.ofList (Numeral.signText x.isNegative ++
      if x.isZero || (decide (-4 ≤ point) && decide (point ≤ 16)) then Binary64.positional true
        (ds.map Nat.digitChar) point
      else Binary64.scientific (ds.map Nat.digitChar) point) := by
  have hfield : (x.exponentField == 2047) = false := by simpa [Binary64.isFinite] using hx
  have hnan : x.isNaN = false := by rw [Binary64.isNaN, hfield, Bool.false_and]
  have hinfinite : x.isInfinite = false := by rw [Binary64.isInfinite, hfield, Bool.false_and]
  unfold Binary64.write
  rw [hnan, hinfinite, if_neg Bool.false_ne_true, if_neg Bool.false_ne_true]
  dsimp only [Binary64.Layout.document]
  rw [hds, List.length_map, ← hpoint]
  cases x.isNegative <;> rfl

/-- **A finite double is written as a numeral with a fraction or an exponent**, and this one tells
the shortest decimal of the double. -/
theorem exists_numeral {x : Binary64} (hx : x.isFinite = true) :
    ∃ (n : Numeral) (body : List Char), n.Writes x.isNegative body (x.shortest .toEven) ∧
      textBytes (x.write .document) = n.text.map Char.toUInt8 := by
  obtain ⟨ds, hds, hspelled, htext⟩ := exists_digits (x.shortest .toEven).digits
  obtain ⟨point, hpoint⟩ : ∃ point : ℤ, point = ds.length + (x.shortest .toEven).exponent :=
    ⟨_, rfl⟩
  -- the digit zero stands alone only for a zero
  have hzero : ds = [0] → point = 1 := by
    rintro rfl
    have hnone : (x.shortest .toEven).digits = 0 := hspelled.symm
    rw [hpoint, x.shortest_of_isZero (x.isZero_of_shortest hnone)]
    rfl
  have hwritten : ∃ n : Numeral, n.Writes x.isNegative
      (if x.isZero || (decide (-4 ≤ point) && decide (point ≤ 16)) then Binary64.positional true
        (ds.map Nat.digitChar) point else Binary64.scientific (ds.map Nat.digitChar) point)
          (x.shortest .toEven) := by
    split
    · exact exists_positional x.isNegative hds hspelled hpoint hzero
    · exact exists_scientific x.isNegative hds hspelled hpoint (by rw [htext, List.length_map])
  obtain ⟨n, hn⟩ := hwritten
  refine ⟨n, _, hn, ?_⟩
  rw [write_document hx htext hpoint, ← hn.text_eq, textBytes_ofList hn.proper.ascii_text]

/-- **The text of a finite double is taken apart into this numeral.** -/
theorem reads_numeral_write {x : Binary64} {n : Numeral} {body : List Char}
    (hn : n.Writes x.isNegative body (x.shortest .toEven))
    (htext : textBytes (x.write .document) = n.text.map Char.toUInt8) :
    Reader.numeral.Reads (textBytes (x.write .document)) n [] := by
  have hreads := Reader.reads_numeral hn.proper Reader.stops_nil
  rwa [List.append_nil, ← htext] at hreads

/-- **The text of a finite double has a fraction or an exponent**, and the double is nearest to what
it spells. -/
theorem exists_reads_numeral {x : Binary64} (hx : x.isFinite = true) :
    ∃ n : Numeral, Reader.numeral.Reads (textBytes (x.write .document)) n [] ∧ n.IsBroken ∧
    n.nearest = x := by
  obtain ⟨n, body, hn, htext⟩ := exists_numeral hx
  exact ⟨n, reads_numeral_write hn htext, hn.isBroken,
    n.nearest_eq_of_value hx hn.negative_eq hn.value_eq⟩

end Json

/-- The reader of numbers is exact on the text of a double: it makes the double that is nearest to
what the text spells. -/
def Binary64.IsReadExactly (x : Binary64) : Prop :=
  ∀ n : Json.Numeral, Json.Reader.numeral.Reads (Json.textBytes (x.write .document)) n [] →
    Json.Reader.number.Reads (Json.textBytes (x.write .document)) (.float n.nearest) []

end Cutover
