import Cutover.Proofs.Json.Grammar

/-! # What is written is a document

The texts that are written for a string and for a number are such by the grammar, whatever follows
(`stringText_quote`, `integerText_ofInt64`).  Of a string each character is written for itself or as
an escape that stands for its bytes (`characters_escapeChar`).
-/

namespace Cutover.Json

open Reader

variable {s t rest : List UInt8}

/-! ## Bytes of characters -/

theorem textBytes_ofList_cons (c : Char) (l : List Char) :
    textBytes (String.ofList (c :: l)) = textBytes (String.singleton c) ++ textBytes
    (String.ofList l) := by
  rw [← textBytes_append, String.singleton_eq_ofList, ← String.ofList_append]
  rfl

theorem textBytes_singleton (c : Char) :
    textBytes (String.singleton c) = String.utf8EncodeChar c := by
  rw [textBytes_eq, String.singleton_eq_ofList, String.toByteArray_ofList,
    List.utf8Encode_singleton, List.data_toByteArray]

theorem ne_of_toNat_ne {c d : Char} (h : c ≠ d) : c.toNat ≠ d.toNat := fun heq =>
  h (by rw [← Char.ofNat_toNat c, heq, Char.ofNat_toNat])

theorem isPlainByte_ofNat {n : Nat} (hcontrol : 0x20 ≤ n) (hn : n < 256) (hquote : n ≠ 0x22)
    (hslash : n ≠ 0x5C) : isPlainByte (UInt8.ofNat n) = true := by
  have htoNat : (UInt8.ofNat n).toNat = n := UInt8.toNat_ofNat_of_lt' hn
  simp [isPlainByte, ← UInt8.toNat_inj, UInt8.lt_iff_toNat_lt, htoNat]
  omega

/-- The bytes of a character that needs no escape are plain. -/
theorem plain_utf8EncodeChar {c : Char} (hcontrol : 0x20 ≤ c.toNat) (hquote : c ≠ '"')
    (hslash : c ≠ '\\') : ∀ x ∈ String.utf8EncodeChar c, isPlainByte x = true := by
  have hquote : c.toNat ≠ 0x22 := ne_of_toNat_ne hquote
  have hslash : c.toNat ≠ 0x5C := ne_of_toNat_ne hslash
  have hval : c.val.toNat = c.toNat := rfl
  rw [String.utf8EncodeChar, hval]
  -- of a character beyond ASCII no byte is below 128
  have hhigh : ∀ n, 128 ≤ n → n < 256 → isPlainByte (UInt8.ofNat n) = true := fun n hle hlt =>
    isPlainByte_ofNat (by omega) hlt (by omega) (by omega)
  split
  · intro x hx
    obtain rfl := List.mem_singleton.mp hx
    exact isPlainByte_ofNat hcontrol (by omega) hquote hslash
  split
  · simp only [List.forall_mem_cons]
    exact ⟨hhigh _ (by omega) (by omega), hhigh _ (by omega) (by omega), List.forall_mem_nil _⟩
  split
  · simp only [List.forall_mem_cons]
    exact ⟨hhigh _ (by omega) (by omega), hhigh _ (by omega) (by omega),
      hhigh _ (by omega) (by omega), List.forall_mem_nil _⟩
  · simp only [List.forall_mem_cons]
    exact ⟨hhigh _ (by omega) (by omega), hhigh _ (by omega) (by omega),
      hhigh _ (by omega) (by omega), hhigh _ (by omega) (by omega), List.forall_mem_nil _⟩

/-! ## Strings -/

theorem characters_plain {bytes : List UInt8} (hplain : ∀ x ∈ bytes, isPlainByte x = true)
    (h : Characters s t rest) : Characters (bytes ++ s) (bytes ++ t) rest := by
  induction bytes with
  | nil => exact h
  | cons x bytes ih =>
    obtain ⟨hx, hbytes⟩ := List.forall_mem_cons.mp hplain
    exact .plain hx (ih hbytes)

theorem hexValue?_digitChar {k : Nat} (hk : k < 16) :
    hexValue? (Nat.digitChar k).toUInt8 = some k := by
  revert k
  decide

theorem ascii_digitChar {k : Nat} (hk : k < 16) : (Nat.digitChar k).toNat < 128 := by
  revert k
  decide

/-- A short escape stands for the byte of its character. -/
theorem characters_short {e d : Char} (he : e.toNat < 128) (hd : d.toNat < 128)
    (hescape : shortEscape? e.toUInt8 = some d.toUInt8) (h : Characters s t rest) :
    Characters (textBytes (String.ofList ['\\', e]) ++ s)
      (textBytes (String.singleton d) ++ t) rest := by
  have hwritten : textBytes (String.ofList ['\\', e]) = [0x5C, e.toUInt8] :=
    textBytes_ofList (by simp [he])
  have hbyte : textBytes (String.singleton d) = [d.toUInt8] := by
    rw [String.singleton_eq_ofList, textBytes_ofList (by simp [hd])]
    rfl
  rw [hwritten, hbyte]
  exact .short hescape h

/-- A control character is written by its number. -/
theorem characters_control {c : Char} (hc : c.toNat < 0x20) (h : Characters s t rest) :
    Characters (textBytes (String.ofList
      ['\\', 'u', '0', '0', Nat.digitChar (c.toNat / 16), Nat.digitChar (c.toNat % 16)]) ++ s)
      (textBytes (String.singleton c) ++ t) rest := by
  have hhigh : c.toNat / 16 < 16 := by omega
  have hlow : c.toNat % 16 < 16 := Nat.mod_lt _ (by decide)
  have hnumber : hex4? 0x30 0x30 (Nat.digitChar (c.toNat / 16)).toUInt8
    (Nat.digitChar (c.toNat % 16)).toUInt8 =
      some c.toNat := by
    have hzero : hexValue? 0x30 = some 0 := by decide
    simp only [hex4?, hzero, hexValue?_digitChar hhigh, hexValue?_digitChar hlow, bind,
      Option.bind, pure, Option.some.injEq]
    omega
  have hbytes : textBytes (String.singleton c) = utf8Bytes c.toNat := by
    rw [utf8Bytes, Char.ofNat_toNat]
    rfl
  rw [textBytes_ofList (by simp [ascii_digitChar hhigh, ascii_digitChar hlow]), hbytes]
  exact .unicode hnumber (.inl (by omega)) h

/-- **What is written for a character stands for its bytes.** -/
theorem characters_escapeChar (c : Char) (h : Characters s t rest) :
    Characters (textBytes (String.ofList (escapeChar c)) ++ s)
      (textBytes (String.singleton c) ++ t) rest := by
  rw [escapeChar.eq_def]
  split
  case h_8 hquote hslash _ _ _ _ _ =>
    split
    · exact characters_control ‹_› h
    · rename_i hcontrol
      rw [← String.singleton_eq_ofList, textBytes_singleton]
      exact characters_plain (plain_utf8EncodeChar (Nat.not_lt.mp hcontrol) hquote hslash) h
  all_goals exact characters_short (by decide) (by decide) (by decide) h

/-- What is written for the characters of a text stands for its bytes, up to the closing quotation
mark. -/
theorem characters_escaped (l : List Char) (rest : List UInt8) :
    Characters (textBytes (String.ofList (l.flatMap escapeChar)) ++ 0x22 :: rest)
      (textBytes (String.ofList l)) rest := by
  induction l with
  | nil =>
    rw [List.flatMap_nil, textBytes_ofList (l := []) (by simp)]
    exact .close rest
  | cons c l ih =>
    rw [List.flatMap_cons, String.ofList_append, textBytes_append, List.append_assoc,
      textBytes_ofList_cons]
    exact characters_escapeChar c ih

/-- **A quoted text is a string that means the text.** -/
theorem stringText_quote (text : String) (rest : List UInt8) :
    StringText (textBytes (quote text) ++ rest) text rest := by
  have hquote : textBytes (String.ofList ['"']) = [0x22] := textBytes_ofList (by simp)
  have hwritten : textBytes (quote text) ++ rest =
      0x22 :: (textBytes (String.ofList (text.toList.flatMap escapeChar)) ++ 0x22 :: rest) := by
    rw [quote, ← List.singleton_append, String.ofList_append, String.ofList_append,
      textBytes_append, textBytes_append, hquote]
    simp
  rw [hwritten]
  refine ⟨_, .nil _, ?_⟩
  have hinner := characters_escaped text.toList rest
  rwa [String.ofList_toList] at hinner

/-! ## Marks -/

theorem textBytes_openBrace : textBytes "\x7b" = [0x7B] := (textBytes_eq _).trans rfl

theorem textBytes_closeBrace : textBytes "\x7d" = [0x7D] := (textBytes_eq _).trans rfl

theorem textBytes_colon : textBytes ":" = [0x3A] := (textBytes_eq _).trans rfl

theorem textBytes_comma : textBytes "," = [0x2C] := (textBytes_eq _).trans rfl

/-! ## Numbers -/

theorem integerText_ofInt64 (i : Int64) (rest : List UInt8) :
    IntegerText (textBytes (Text.ofInt64 i) ++ rest) i rest := .nil _

end Cutover.Json
