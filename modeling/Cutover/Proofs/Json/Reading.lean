import Cutover.Json.Record
import Cutover.Proofs.Text.Numeral

/-! # Pieces of documents read back

What a reader makes of the front of a document and what it leaves (`Reads`).  A reader that is put
together from others takes their pieces one after the other (`Reads.bind`), and a number is read
back from its digits, whatever follows, as long as what follows does not prolong it (`reads_int64`).
-/

namespace Cutover.Json

/-- The bytes of a text. -/
def textBytes (s : String) : List UInt8 := s.toUTF8.toList

/-- Listing the bytes from a place on, by induction on how many there are. -/
theorem toList_loop {bytes : ByteArray} {n : Nat} (i : Nat) (front : List UInt8)
    (hn : bytes.size = i + n) :
    ByteArray.toList.loop bytes i front = front.reverse ++ bytes.data.toList.drop i := by
  induction n generalizing i front with
  | zero =>
    have hend : ¬ i < bytes.size := by omega
    have hdrop : bytes.data.toList.length ≤ i := by
      rw [Array.length_toList]
      exact Nat.not_lt.mp hend
    rw [ByteArray.toList.loop, if_neg hend, List.drop_of_length_le hdrop, List.append_nil]
  | succ n ih =>
    have hi : i < bytes.size := by omega
    have hlist : i < bytes.data.toList.length := by
      rw [Array.length_toList]
      exact hi
    have hbyte : bytes.get! i = bytes.data.toList[i] := by
      cases bytes
      exact getElem!_pos _ i hi
    rw [ByteArray.toList.loop, if_pos hi, ih (i + 1) _ (by omega), hbyte, List.reverse_cons,
      List.append_assoc, List.singleton_append, ← List.drop_eq_getElem_cons]

theorem textBytes_eq (s : String) : textBytes s = s.toByteArray.data.toList := by
  rw [textBytes, String.toUTF8_eq_toByteArray, ByteArray.toList,
    toList_loop 0 [] (Nat.zero_add _).symm]
  rfl

@[simp]
theorem textBytes_append (s t : String) : textBytes (s ++ t) = textBytes s ++ textBytes t := by
  simp [textBytes_eq]

/-- The bytes of a text spell the text. -/
theorem fromUTF8?_textBytes (s : String) : String.fromUTF8? ⟨(textBytes s).toArray⟩ = some s := by
  have hbytes : (⟨(textBytes s).toArray⟩ : ByteArray) = s.toByteArray := by
    rw [textBytes_eq]
  rw [hbytes, String.fromUTF8?, dif_pos s.isValidUTF8]
  rfl

/-- A text of ASCII characters has a byte for each of them. -/
theorem textBytes_ofList {l : List Char} (h : ∀ c ∈ l, c.toNat < 128) :
    textBytes (String.ofList l) = l.map Char.toUInt8 := by
  rw [textBytes_eq, String.toByteArray_ofList]
  induction l with
  | nil => rfl
  | cons c l ih =>
    have hascii : c.toNat ≤ 127 := Nat.le_of_lt_succ (h c List.mem_cons_self)
    have hc : c.utf8Size = 1 := Char.utf8Size_eq_one_iff.mpr (UInt32.le_iff_toNat_le.mpr hascii)
    have htail := ih fun d hd => h d (List.mem_cons_of_mem _ hd)
    rw [List.utf8Encode_cons, List.utf8Encode_singleton, String.utf8EncodeChar_eq_singleton hc]
    simp [htail]

/-! ## What a reader takes -/

namespace Reader

variable {α β : Type} {s rest : List UInt8} {b : UInt8}

/-- The reader makes a value of the front of a document and leaves the rest. -/
def Reads (r : Reader α) (s : List UInt8) (a : α) (rest : List UInt8) : Prop :=
  r.run s = .ok (a, rest)

/-- One reader after the other takes one piece after the other. -/
theorem Reads.bind {r : Reader α} {f : α → Reader β} {a : α} {x : β} {middle : List UInt8}
    (h : Reads r s a middle) (hf : Reads (f a) middle x rest) : Reads (r >>= f) s x rest := by
  unfold Reads at *
  rw [StateT.run_bind, h]
  exact hf

theorem reads_pure (a : α) (s : List UInt8) : Reads (pure a) s a s := rfl

theorem reads_get (s : List UInt8) : Reads get s s s := rfl

theorem reads_set (s rest : List UInt8) : Reads (set rest) s () rest := rfl

theorem Reads.map {r : Reader α} {a : α} (h : Reads r s a rest) (f : α → β) :
    Reads (r >>= fun a => pure (f a)) s (f a) rest :=
  h.bind (reads_pure _ _)

theorem reads_peek (b : UInt8) (s : List UInt8) : Reads peek (b :: s) (some b) (b :: s) := rfl

theorem reads_drop (b : UInt8) (s : List UInt8) : Reads drop (b :: s) () s := rfl

theorem reads_peekToken (hb : isBlankByte b = false) (s : List UInt8) :
    Reads peekToken (b :: s) (some b) (b :: s) := by
  have hskip : Reads skipBlanks (b :: s) () (b :: s) := by
    show Except.ok ((), (b :: s).dropWhile isBlankByte) = _
    rw [List.dropWhile_cons, hb]
    rfl
  exact hskip.bind (reads_peek b s)

/-! ## Numbers -/

/-- The bytes of a natural number in decimal digits. -/
def decimalBytes (n : Nat) : List UInt8 := (Nat.toDigits 10 n).map Char.toUInt8

theorem digit_toUInt8 {c : Char} (h : c.isDigit = true) :
    isDigitByte c.toUInt8 = true ∧ digitOf c.toUInt8 = Text.digitValue c := by
  obtain ⟨hlow, hhigh⟩ : 48 ≤ c.toNat ∧ c.toNat ≤ 57 := by
    simpa [Char.isDigit, UInt32.le_iff_toNat_le] using h
  have hbyte : c.toUInt8.toNat = c.toNat := by
    show c.val.toUInt8.toNat = c.val.toNat
    rw [UInt32.toNat_toUInt8]
    exact Nat.mod_eq_of_lt (Nat.lt_of_le_of_lt hhigh (by decide))
  constructor
  · simp [isDigitByte, UInt8.le_iff_toNat_le, hbyte, hlow, hhigh]
  · simp [digitOf, Text.digitValue, hbyte]

theorem isBlankByte_of_isDigitByte (h : isDigitByte b = true) : isBlankByte b = false := by
  simp only [isBlankByte, Bool.or_eq_false_iff, beq_eq_false_iff_ne]
  refine ⟨⟨⟨?_, ?_⟩, ?_⟩, ?_⟩ <;>
  · rintro rfl
    exact absurd h (by decide)

theorem isDigitByte_of_mem_decimalBytes {n : Nat} (h : b ∈ decimalBytes n) :
    isDigitByte b = true := by
  obtain ⟨c, hc, rfl⟩ := List.mem_map.mp h
  exact (digit_toUInt8 (Nat.isDigit_of_mem_toDigits (by decide) (by decide) hc)).1

theorem map_digitOf_decimalBytes (n : Nat) :
    (decimalBytes n).map digitOf = (Nat.toDigits 10 n).map Text.digitValue := by
  rw [decimalBytes, List.map_map]
  refine List.map_congr_left fun c hc => ?_
  exact (digit_toUInt8 (Nat.isDigit_of_mem_toDigits (by decide) (by decide) hc)).2

theorem ascii_toDigits (n : Nat) : ∀ c ∈ Nat.toDigits 10 n, c.toNat < 128 := by
  intro c hc
  have hdigit := Nat.isDigit_of_mem_toDigits (by decide) (by decide) hc
  have hle : c.toNat ≤ 57 := by
    simp only [Char.isDigit, Bool.and_eq_true, decide_eq_true_eq] at hdigit
    exact UInt32.le_iff_toNat_le.mp hdigit.2
  exact Nat.lt_of_le_of_lt hle (by decide)

/-- The decimal digits of a positive number do not begin with a zero. -/
theorem toDigits_head {n : Nat} (h : 0 < n) :
    ∃ c l, Nat.toDigits 10 n = c :: l ∧ Text.digitValue c ≠ 0 := by
  obtain ⟨ds, hds, hspelled, htext⟩ := Text.exists_digits n
  obtain ⟨d, l, rfl⟩ := List.exists_cons_of_ne_nil hds.ne_nil
  refine ⟨d.digitChar, l.map Nat.digitChar, htext, ?_⟩
  rw [(Text.isDigit_digitChar (hds.lt d List.mem_cons_self)).2]
  intro hzero
  rw [hds.head (congrArg some hzero)] at hspelled
  exact Nat.ne_of_lt h hspelled

/-- Digits are gathered completely as long as their number stays below the limit. -/
theorem gather_eq {ds : List Nat} {s : Nat}
    (h : ds.foldl (fun n d => 10 * n + d) s < UInt64.size) :
    gather s ds = (ds.foldl (fun n d => 10 * n + d) s, 0) := by
  induction ds generalizing s with
  | nil => rfl
  | cons d ds ih =>
    -- what is gathered only grows, so no step on the way goes over the limit
    have hgrows : ∀ (l : List Nat) (m : Nat), m ≤ l.foldl (fun n d => 10 * n + d) m := by
      intro l
      induction l with
      | nil => exact fun m => Nat.le_refl m
      | cons e l ihl =>
        intro m
        exact Nat.le_trans (by omega) (ihl (10 * m + e))
    rw [List.foldl_cons] at h ⊢
    rw [gather, if_pos (Nat.lt_of_le_of_lt (hgrows ds _) h), ih h]

theorem gather_toDigits {n : Nat} (h : n < UInt64.size) :
    gather 0 ((Nat.toDigits 10 n).map Text.digitValue) = (n, 0) := by
  have hvalue : ((Nat.toDigits 10 n).map Text.digitValue).foldl (fun n d => 10 * n + d) 0 = n := by
    rw [List.foldl_map]
    exact Text.digitsValue_toDigits n
  rw [gather_eq (by rwa [hvalue]), hvalue]

/-- A byte that ends a whole number. -/
def EndsNumber (b : UInt8) : Prop :=
  isDigitByte b = false ∧ b ≠ 0x2E ∧ b ≠ 0x65 ∧ b ≠ 0x45

instance (b : UInt8) : Decidable (EndsNumber b) :=
  inferInstanceAs (Decidable (_ ∧ _))

/-- A text that does not prolong a number in front of it. -/
def Stops (s : List UInt8) : Prop := ∀ b ∈ s.head?, EndsNumber b

theorem stops_nil : Stops [] := nofun

theorem stops_cons (hb : EndsNumber b) (s : List UInt8) : Stops (b :: s) := by
  intro c hc
  obtain rfl := Option.some.inj hc
  exact hb

/-- A text that does not prolong digits in front of it. -/
def NoDigit (s : List UInt8) : Prop := ∀ b ∈ s.head?, isDigitByte b = false

theorem noDigit_cons (hb : isDigitByte b = false) (s : List UInt8) : NoDigit (b :: s) := by
  intro c hc
  obtain rfl := Option.some.inj hc
  exact hb

theorem Stops.noDigit (h : Stops s) : NoDigit s := fun b hb => (h b hb).1

theorem reads_digits {ds : List UInt8} (hds : ∀ d ∈ ds, isDigitByte d = true)
    (hrest : NoDigit rest) :
    Reads digits (ds ++ rest) (ds.map digitOf) rest := by
  have hstop : rest.takeWhile isDigitByte = [] ∧ rest.dropWhile isDigitByte = rest := by
    cases rest with
    | nil => exact ⟨rfl, rfl⟩
    | cons b s =>
      have hb := hrest b rfl
      simp [hb]
  show Except.ok (((ds ++ rest).takeWhile isDigitByte).map digitOf,
    (ds ++ rest).dropWhile isDigitByte) = _
  rw [List.takeWhile_append_of_pos hds, List.dropWhile_append_of_pos hds, hstop.1, hstop.2,
    List.append_nil]

theorem reads_integerDigits (n : Nat) (hrest : NoDigit rest) :
    Reads integerDigits (decimalBytes n ++ rest) ((Nat.toDigits 10 n).map Text.digitValue)
      rest := by
  have hdigits : Reads digits (decimalBytes n ++ rest) _ rest :=
    reads_digits (fun d hd => isDigitByte_of_mem_decimalBytes hd) hrest
  rw [map_digitOf_decimalBytes] at hdigits
  refine hdigits.bind ?_
  -- a zero stands alone, and no other number begins with one
  rcases Nat.eq_zero_or_pos n with rfl | hn
  · exact reads_pure _ _
  · obtain ⟨c, l, hl, hc⟩ := toDigits_head hn
    rw [hl, List.map_cons]
    split
    · rename_i h
      cases h
    · rename_i h
      exact absurd (List.cons.inj h).1 hc
    · exact reads_pure _ _

/-- Behind a whole number there is neither a fraction nor an exponent. -/
theorem reads_fractionDigits (hs : ∀ b ∈ s.head?, b ≠ 0x2E) : Reads fractionDigits s [] s := by
  have hpeek : Reads peek s s.head? s := rfl
  refine hpeek.bind ?_
  rw [if_neg]
  · exact reads_pure _ _
  · exact fun h => hs _ h rfl

theorem reads_exponentPart (hs : Stops s) : Reads exponentPart s none s := by
  have hpeek : Reads peek s s.head? s := rfl
  refine hpeek.bind ?_
  rw [if_neg]
  · exact reads_pure _ _
  · rintro (h | h)
    · exact (hs _ h).2.2.1 rfl
    · exact (hs _ h).2.2.2 rfl

theorem exists_decimalBytes_cons (n : Nat) :
    ∃ d ds, decimalBytes n = d :: ds ∧ isDigitByte d = true := by
  have hne : decimalBytes n ≠ [] := by simp [decimalBytes]
  obtain ⟨d, ds, hds⟩ := List.exists_cons_of_ne_nil hne
  refine ⟨d, ds, hds, isDigitByte_of_mem_decimalBytes (n := n) ?_⟩
  rw [hds]
  exact List.mem_cons_self

theorem reads_natural {n : Nat} (hn : n < UInt64.size) (hs : Stops s) :
    Reads number (decimalBytes n ++ s) (.natural n) s := by
  obtain ⟨d, ds, hds, hd⟩ := exists_decimalBytes_cons n
  have hsign : d ≠ 0x2D := by
    rintro rfl
    cases hd
  have hpeek : Reads peek (decimalBytes n ++ s) (some d) (decimalBytes n ++ s) := by
    rw [hds]
    exact reads_peek d _
  have hneg : some d ≠ some (0x2D : UInt8) := fun h => hsign (Option.some.inj h)
  refine hpeek.bind ?_
  simp only [hneg, decide_false, if_false]
  refine (reads_integerDigits n hs.noDigit).bind ?_
  rw [gather_toDigits hn]
  exact (reads_fractionDigits fun b hb => (hs b hb).2.1).bind
    ((reads_exponentPart hs).bind (reads_pure _ _))

theorem reads_negative {n : Nat} (hpos : 0 < n) (hn : n ≤ 1 <<< 63) (hs : Stops s) :
    Reads number (0x2D :: (decimalBytes n ++ s)) (.negative n) s := by
  have hbound : ¬ (n = 0 ∨ 1 <<< 63 < n) := by omega
  have hlimit : n < UInt64.size := Nat.lt_of_le_of_lt hn (by decide)
  have hdigits := reads_integerDigits n hs.noDigit
  refine (reads_peek _ _).bind ((reads_drop _ _).bind (hdigits.bind ?_))
  rw [gather_toDigits hlimit]
  refine (reads_fractionDigits fun b hb => (hs b hb).2.1).bind ((reads_exponentPart hs).bind ?_)
  show Reads (if n = 0 ∨ 1 <<< 63 < n then _ else pure (Number.negative n)) _ _ _
  rw [if_neg hbound]
  exact reads_pure _ _

theorem textBytes_ofNat (n : Nat) : textBytes (Text.ofNat n) = decimalBytes n :=
  textBytes_ofList (ascii_toDigits n)

/-- A whole number below zero is written with a minus sign before the digits of its magnitude. -/
theorem textBytes_ofInt64_of_neg {i : Int64} (h : i.toInt < 0) :
    textBytes (Text.ofInt64 i) = 0x2D :: decimalBytes i.toInt.natAbs := by
  have hminus : textBytes "-" = [0x2D] := by
    rw [textBytes_eq]
    rfl
  rw [Text.ofInt64, if_pos h, textBytes_append, hminus, textBytes_ofList (ascii_toDigits _)]
  rfl

/-- Any other is written with its digits. -/
theorem textBytes_ofInt64_of_nonneg {i : Int64} (h : ¬ i.toInt < 0) :
    textBytes (Text.ofInt64 i) = decimalBytes i.toInt.natAbs := by
  rw [Text.ofInt64, if_neg h, textBytes_ofList (ascii_toDigits _)]
  rfl

/-- The token of a whole number stands for the number. -/
theorem reads_number_ofInt64 (i : Int64) (hs : Stops s) :
    ∃ n, Reads number (textBytes (Text.ofInt64 i) ++ s) n s ∧ n.toInt64? = some i := by
  have hlow := i.le_toInt
  have hhigh := i.toInt_lt
  -- the sign is read apart from the digits, which have one more value below zero
  by_cases hneg : i.toInt < 0
  · rw [textBytes_ofInt64_of_neg hneg, List.cons_append]
    refine ⟨_, reads_negative (by omega) (by omega) hs, ?_⟩
    rw [Number.toInt64?, show -(i.toInt.natAbs : Int) = i.toInt by omega, Int64.ofInt_toInt]
  · have hsmall : i.toInt.natAbs < 1 <<< 63 := by omega
    rw [textBytes_ofInt64_of_nonneg hneg]
    refine ⟨_, reads_natural (Nat.lt_trans hsmall (by decide)) hs, ?_⟩
    rw [Number.toInt64?, if_pos hsmall, show (i.toInt.natAbs : Int) = i.toInt by omega,
      Int64.ofInt_toInt]

/-- A number begins with a minus sign or a digit, which are no blanks. -/
theorem reads_peekToken_number (hb : b = 0x2D ∨ isDigitByte b = true) (s : List UInt8) :
    Reads peekToken (b :: s) (some b) (b :: s) := by
  rcases hb with rfl | hdigit
  · exact reads_peekToken (by decide) s
  · exact reads_peekToken (isBlankByte_of_isDigitByte hdigit) s

theorem exists_ofInt64_cons (i : Int64) :
    ∃ d t, textBytes (Text.ofInt64 i) = d :: t ∧ (d = 0x2D ∨ isDigitByte d = true) := by
  by_cases hneg : i.toInt < 0
  · exact ⟨_, _, textBytes_ofInt64_of_neg hneg, .inl rfl⟩
  · obtain ⟨d, t, ht, hd⟩ := exists_decimalBytes_cons i.toInt.natAbs
    exact ⟨d, t, (textBytes_ofInt64_of_nonneg hneg).trans ht, .inr hd⟩

/-- **A whole number of 64 bits is read back from its text.** -/
theorem reads_int64 (i : Int64) (hs : Stops s) :
    Reads int64 (textBytes (Text.ofInt64 i) ++ s) i s := by
  obtain ⟨n, hn, hvalue⟩ := reads_number_ofInt64 i hs
  obtain ⟨d, t, ht, hd⟩ := exists_ofInt64_cons i
  rw [ht, List.cons_append] at hn ⊢
  have hnumber : (decide (d = 0x2D) || isDigitByte d) = true := by simpa using hd
  refine (reads_peekToken_number hd _).bind ?_
  simp only [hnumber, if_true]
  refine hn.bind ?_
  rw [hvalue]
  exact reads_pure _ _

end Reader
end Cutover.Json
