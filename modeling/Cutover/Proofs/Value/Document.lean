import Cutover.Proofs.Json.Exactness
import Cutover.Proofs.Json.Record
import Cutover.Value.Document

/-! # Values read back from documents

A value stands in a document without a tag, and its first byte tells its kind: no text of one kind
is taken for another (`reads_toJson`).  What is read of it is the value itself, a finite double as
far as the reader is exact on its text (`ofJson_toJson`).  That no two values have one text needs no
such exactness (`toJson_injective`).
-/

namespace Cutover.Value

open Json Reader

variable {s rest : List UInt8}

/-! ## Numbers -/

/-- What begins like a number is read as one. -/
theorem reads_reader_number_iff {n : Numeral} {m : List UInt8} (hn : Reads numeral s n m)
    {w : Value} : Reads reader s w rest ↔ ∃ a, Reads number s a rest ∧ ofNumber a = w := by
  obtain ⟨b, t, rfl, hb⟩ := hn.numeral_head
  have hnumber : (decide (b = 0x2D) || isDigitByte b) = true := by simpa using hb
  have hquote : b ≠ 0x22 := by
    rintro rfl
    cases hnumber
  unfold reader
  rw [(reads_peekToken_number hb t).bind_iff]
  dsimp only
  rw [if_neg hquote, if_pos hnumber, reads_bind_iff]
  constructor
  · rintro ⟨a, m, ha, hpure⟩
    obtain ⟨rfl, rfl⟩ := reads_pure_iff.mp hpure
    exact ⟨a, ha, rfl⟩
  · rintro ⟨a, ha, rfl⟩
    exact ⟨a, rest, ha, reads_pure _ _⟩

theorem reads_int (i : Int64) : Reads reader (textBytes (Text.ofInt64 i)) (.int i) [] := by
  obtain ⟨n, hn, hvalue⟩ := reads_number_ofInt64 i stops_nil
  rw [List.append_nil] at hn
  obtain ⟨parts, hparts, -⟩ := reads_number_iff.mp hn
  refine (reads_reader_number_iff hparts).mpr ⟨n, hn, ?_⟩
  unfold ofNumber
  rw [hvalue]

/-- **A finite double is read back from its text** if the reader of numbers is exact on it. -/
theorem reads_float {x : Binary64} (hx : x.isFinite = true) (hexact : x.IsReadExactly) :
    Reads reader (textBytes (x.write .document)) (.float x) [] := by
  obtain ⟨n, hn, -, hnearest⟩ := exists_reads_numeral hx
  have hnumber := hexact n hn
  rw [hnearest] at hnumber
  exact (reads_reader_number_iff hn).mpr ⟨.float x, hnumber, rfl⟩

/-- Exact or not, the text of a finite double is read as a double or refused. -/
theorem float_of_reads {x : Binary64} (hx : x.isFinite = true) {w : Value}
    (h : Reads reader (textBytes (x.write .document)) w rest) : ∃ y, w = .float y := by
  obtain ⟨n, hn, hbroken, -⟩ := exists_reads_numeral hx
  obtain ⟨a, ha, rfl⟩ := (reads_reader_number_iff hn).mp h
  obtain ⟨-, hsome⟩ := (hn.number_iff hbroken).mp ha
  obtain ⟨y, -, rfl⟩ := Option.map_eq_some_iff.mp hsome
  exact ⟨y, rfl⟩

/-! ## Texts -/

theorem reads_text (t : String) : Reads reader (textBytes (quote t)) (.text t) [] := by
  have htext := stringText_quote t []
  rw [List.append_nil] at htext
  obtain ⟨inner, hmark, hinner⟩ := htext
  refine (Mark.peekToken hmark (by decide)).bind ?_
  dsimp only
  rw [if_pos rfl]
  exact (reads_string_iff.mpr ⟨inner, .nil _, hinner⟩).bind (reads_pure _ _)

/-! ## Byte strings -/

/-- The bytes of an array behind the first one. -/
def elements (b : List UInt8) : List UInt8 := b.flatMap fun x => 0x2C :: decimalBytes x.toNat

theorem textBytes_intercalate (x : UInt8) (b : List UInt8) :
    textBytes (",".intercalate ((x :: b).map fun x => Text.ofNat x.toNat)) =
      decimalBytes x.toNat ++ elements b := by
  induction b generalizing x with
  | nil =>
    rw [List.map_singleton, String.intercalate_singleton, textBytes_ofNat]
    simp [elements]
  | cons y b ih =>
    have htail := ih y
    rw [List.map_cons] at htail
    rw [List.map_cons, List.map_cons, String.intercalate_cons_cons, textBytes_append,
      textBytes_append, htail, textBytes_ofNat, textBytes_comma]
    simp [elements]

theorem stops_elements (b : List UInt8) (rest : List UInt8) :
    Stops (elements b ++ 0x5D :: rest) := by
  cases b with
  | nil => exact stops_cons (by decide) _
  | cons y b => exact stops_cons (by decide) _

theorem reads_bytesFrom_nil (fuel : ℕ) (first : Bool) (rest : List UInt8) :
    Reads (bytesFrom (fuel + 1) first) (0x5D :: rest) [] rest := by
  rw [bytesFrom]
  refine (reads_peekToken (by decide) rest).bind ?_
  rw [if_pos rfl]
  exact (reads_drop _ _).bind (reads_pure _ _)

/-- A byte is read, behind a comma if it is not the first one. -/
theorem reads_bytesFrom_cons {fuel : ℕ} (first : Bool) {m l : List UInt8} (x : UInt8) (hm : Stops m)
    (h : Reads (bytesFrom fuel false) m l rest) :
    Reads (bytesFrom (fuel + 1) first)
    ((if first then [] else [0x2C]) ++ (decimalBytes x.toNat ++ m)) (x :: l) rest := by
  have hx := x.toNat_lt
  obtain ⟨d, ds, hds, hd⟩ := exists_decimalBytes_cons x.toNat
  have hbracket : ¬ some d = some (0x5D : UInt8) := by
    intro h
    rw [Option.some.inj h] at hd
    cases hd
  have hnumber : (decide (d = 0x2D) || isDigitByte d) = true := by simp [hd]
  have hreads := reads_natural (n := x.toNat) (Nat.lt_trans hx (by decide)) hm
  have hbyte : byteOf? (.natural x.toNat) = some x := by
    rw [byteOf?, if_pos hx, UInt8.ofNat_toNat]
  rw [hds, List.cons_append] at hreads ⊢
  have hpeek := reads_peekToken_number (.inr hd) (ds ++ m)
  rw [bytesFrom]
  cases first with
  | true =>
    refine hpeek.bind ?_
    rw [if_neg hbracket]
    simp only [Bool.not_true, Bool.false_eq_true, if_false]
    refine hpeek.bind ?_
    simp only [hnumber, if_true]
    refine hreads.bind ?_
    rw [hbyte]
    exact h.bind (reads_pure _ _)
  | false =>
    refine (reads_peekToken (b := 0x2C) (by decide) _).bind ?_
    rw [if_neg (by decide)]
    simp only [Bool.not_false, if_true]
    refine ((reads_token_iff rfl).mpr (.nil _)).bind (hpeek.bind ?_)
    simp only [hnumber, if_true]
    refine hreads.bind ?_
    rw [hbyte]
    exact h.bind (reads_pure _ _)

theorem reads_elements {fuel : ℕ} {b : List UInt8} (hfuel : b.length < fuel) (rest : List UInt8) :
    Reads (bytesFrom fuel false) (elements b ++ 0x5D :: rest) b rest := by
  induction b generalizing fuel with
  | nil =>
    obtain ⟨fuel, rfl⟩ := Nat.exists_eq_add_one_of_ne_zero (Nat.ne_zero_of_lt hfuel)
    exact reads_bytesFrom_nil fuel false rest
  | cons x b ih =>
    obtain ⟨fuel, rfl⟩ := Nat.exists_eq_add_one_of_ne_zero (Nat.ne_zero_of_lt hfuel)
    have htail :=
      reads_bytesFrom_cons false x (stops_elements b rest) (ih (Nat.lt_of_succ_lt_succ hfuel))
    simpa [elements] using htail

theorem length_le_elements (b : List UInt8) : b.length ≤ (elements b).length := by
  induction b with
  | nil => exact Nat.le_refl _
  | cons x b ih =>
    simp only [elements, List.flatMap_cons, List.length_append, List.length_cons] at ih ⊢
    omega

theorem reads_bytes (b : List UInt8) :
    Reads reader (textBytes (toJson (.bytes b))) (.bytes b) [] := by
  have hbrackets : textBytes "[" = [0x5B] ∧ textBytes "]" = [0x5D] := by
    constructor <;> exact (textBytes_eq _).trans rfl
  -- every byte takes one of the text at least, so the fuel is enough
  have hbody : ∀ body, Reads (bytesFrom (body.length + 1) true) body b [] →
      Reads reader (0x5B :: body) (.bytes b) [] := fun body h =>
    (reads_peekToken (by decide) _).bind
      ((reads_drop _ _).bind ((reads_get _).bind (h.bind (reads_pure _ _))))
  rw [toJson, textBytes_append, textBytes_append, hbrackets.1, hbrackets.2, List.append_assoc]
  refine hbody _ ?_
  cases b with
  | nil =>
    rw [List.map_nil, String.intercalate_nil, textBytes_eq]
    exact reads_bytesFrom_nil _ true []
  | cons x b =>
    have hlength := length_le_elements b
    rw [textBytes_intercalate, List.append_assoc]
    refine reads_bytesFrom_cons true x (stops_elements b []) (reads_elements ?_ [])
    show b.length < (decimalBytes x.toNat ++ (elements b ++ [0x5D])).length
    simp only [List.length_append, List.length_singleton]
    omega

/-! ## Values -/

/-- **A value that is no double is read back from its text.** -/
theorem reads_toJson {v : Value} (hv : ∀ x, v ≠ .float x) :
    Reads reader (textBytes v.toJson) v [] := by
  have hword : ∀ {w : String}, textBytes w = ascii w → Reads reader (ascii w) v [] →
      Reads reader (textBytes w) v [] := by
    intro w hw h
    rw [hw]
    exact h
  cases v with
  | null =>
    exact hword ((textBytes_eq _).trans rfl)
      ((reads_peekToken (b := 0x6E) (by decide) _).bind
        ((reads_exactly_iff.mpr rfl).bind (reads_pure _ _)))
  | bool b =>
    cases b with
    | true =>
      exact hword ((textBytes_eq _).trans rfl)
        ((reads_peekToken (b := 0x74) (by decide) _).bind
          ((reads_exactly_iff.mpr rfl).bind (reads_pure _ _)))
    | false =>
      exact hword ((textBytes_eq _).trans rfl)
        ((reads_peekToken (b := 0x66) (by decide) _).bind
          ((reads_exactly_iff.mpr rfl).bind (reads_pure _ _)))
  | int i => exact reads_int i
  | float x => exact absurd rfl (hv x)
  | text t => exact reads_text t
  | bytes b => exact reads_bytes b

/-- The double in the value, if there is one, is finite. -/
def IsFinite (v : Value) : Prop := ∀ x, v = .float x → x.isFinite = true

/-- The reader is exact on the double in the value, if there is one. -/
def IsReadExactly (v : Value) : Prop := ∀ x, v = .float x → x.IsReadExactly

/-- **A value is read back from its document**, a finite double as far as the reader is exact on
it. -/
theorem ofJson_toJson {v : Value} (hv : v.IsFinite) (hexact : v.IsReadExactly) :
    ofJson (textBytes v.toJson) = .ok v := by
  refine runOn_eq_ok_iff.mpr ⟨[], ?_, .nil _⟩
  by_cases hfloat : ∃ x, v = .float x
  · obtain ⟨x, rfl⟩ := hfloat
    exact reads_float (hv x rfl) (hexact x rfl)
  · exact reads_toJson (not_exists.mp hfloat)

/-- **No two values have one text.** -/
theorem toJson_injective {v w : Value} (hv : v.IsFinite) (hw : w.IsFinite)
    (h : v.toJson = w.toJson) : v = w := by
  by_cases hfloat : ∃ x, v = .float x <;> by_cases hfloat' : ∃ y, w = .float y
  · obtain ⟨x, rfl⟩ := hfloat
    obtain ⟨y, rfl⟩ := hfloat'
    -- one text has one numeral, and this has one nearest double
    obtain ⟨n, hn, -, hnearest⟩ := exists_reads_numeral (hv x rfl)
    obtain ⟨n', hn', -, hnearest'⟩ := exists_reads_numeral (hw y rfl)
    have htext : x.write .document = y.write .document := h
    rw [htext] at hn
    obtain ⟨rfl, -⟩ := hn.unique hn'
    rw [← hnearest, hnearest']
  · obtain ⟨x, rfl⟩ := hfloat
    have hreads := reads_toJson (not_exists.mp hfloat')
    rw [← h] at hreads
    exact absurd (float_of_reads (hv x rfl) hreads) hfloat'
  · obtain ⟨y, rfl⟩ := hfloat'
    have hreads := reads_toJson (not_exists.mp hfloat)
    rw [h] at hreads
    exact absurd (float_of_reads (hw y rfl) hreads) hfloat
  · have hreads := reads_toJson (not_exists.mp hfloat)
    rw [h] at hreads
    exact (hreads.unique (reads_toJson (not_exists.mp hfloat'))).1

/-- **Values are kept by their documents**: a value whose double is finite has a text that no other
such value has, and it is read back from it as far as the reader is exact on its double. -/
theorem kept_by_document (v : Value) (hv : v.IsFinite) :
    (v.IsReadExactly → ofJson (textBytes v.toJson) = .ok v) ∧
      ∀ w : Value, w.IsFinite → w.toJson = v.toJson → w = v :=
  ⟨fun hexact => ofJson_toJson hv hexact, fun _ hw h => toJson_injective hw hv h⟩

/-- The double nearest to a tenth. -/
theorem kept_by_document_tenth :
    ofJson (textBytes (toJson (.float ⟨0x3FB999999999999A⟩))) =
      .ok (.float ⟨0x3FB999999999999A⟩) := by
  refine (kept_by_document (.float ⟨0x3FB999999999999A⟩) ?_).1 ?_
  · rintro x ⟨⟩
    decide
  · rintro x ⟨⟩
    apply Binary64.isReadExactly_of_short
    · decide
    · decide +kernel
    · decide +kernel

end Cutover.Value
