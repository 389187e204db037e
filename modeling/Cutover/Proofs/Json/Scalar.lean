import Mathlib.Data.List.Induction
import Cutover.Proofs.Json.Grammar

/-! # Scalars are read by their grammar

Each reader of a scalar takes exactly the pieces of its language: what it takes is such a piece, and
it takes every such piece that what follows does not prolong (`Accepts`).
-/

namespace Cutover.Json.Reader

variable {α β : Type} {s rest : List UInt8} {b : UInt8}

/-- The reader takes the pieces of the language, and nothing else; blanks in front of a piece belong
to it. -/
structure Accepts (r : Reader α) (L : Phrase α) : Prop where
  begins {s : List UInt8} {a : α} {rest : List UInt8} : L s a rest → Begins s
  blanks {s m : List UInt8} {a : α} {rest : List UInt8} : Blanks s m →
    (Reads r s a rest ↔ Reads r m a rest)
  length_le {s : List UInt8} {a : α} {rest : List UInt8} : L s a rest → rest.length ≤ s.length
  sound {s : List UInt8} {a : α} {rest : List UInt8} : Reads r s a rest → L s a rest
  complete {s : List UInt8} {a : α} {rest : List UInt8} : L s a rest → Stops rest → Reads r s a rest

/-! ## What the primitive readers take -/

theorem reads_bind_iff {r : Reader α} {f : α → Reader β} {x : β} :
    Reads (r >>= f) s x rest ↔ ∃ a m, Reads r s a m ∧ Reads (f a) m x rest := by
  constructor
  · intro h
    unfold Reads at h ⊢
    rw [StateT.run_bind] at h
    cases hr : r.run s with
    | error e =>
      rw [hr] at h
      cases h
    | ok p =>
      rw [hr] at h
      exact ⟨p.1, p.2, rfl, h⟩
  · rintro ⟨a, m, hr, hf⟩
    exact hr.bind hf

/-- A reader makes one thing of a text. -/
theorem Reads.unique {r : Reader α} {a a' : α} {rest' : List UInt8} (h : Reads r s a rest)
    (h' : Reads r s a' rest') : a = a' ∧ rest = rest' :=
  Prod.mk.inj (Except.ok.inj (h.symm.trans h'))

/-- Behind what one reader is known to take, the next one decides. -/
theorem Reads.bind_iff {r : Reader α} {f : α → Reader β} {a : α} {x : β} {middle : List UInt8}
    (h : Reads r s a middle) : Reads (r >>= f) s x rest ↔ Reads (f a) middle x rest := by
  rw [reads_bind_iff]
  constructor
  · rintro ⟨a', m, hr, hf⟩
    obtain ⟨rfl, rfl⟩ := h.unique hr
    exact hf
  · exact fun hf => ⟨a, middle, h, hf⟩

theorem reads_pure_iff {a x : α} : Reads (pure a) s x rest ↔ a = x ∧ s = rest := by
  unfold Reads
  rw [StateT.run_pure]
  constructor
  · intro h
    obtain ⟨rfl, rfl⟩ := Prod.mk.inj (Except.ok.inj h)
    exact ⟨rfl, rfl⟩
  · rintro ⟨rfl, rfl⟩
    rfl

theorem not_reads_refuse {f : Fault} {x : α} : ¬ Reads (refuse f) s x rest := nofun

theorem not_reads_bind {r : Reader α} {f : α → Reader β} {x : β}
    (h : ∀ a s x rest, ¬ Reads (f a) s x rest) : ¬ Reads (r >>= f) s x rest := fun hr => by
  obtain ⟨a, m, -, hf⟩ := reads_bind_iff.mp hr
  exact h a m x rest hf

theorem reads_get_iff {t : List UInt8} : Reads get s t rest ↔ s = t ∧ s = rest := by
  constructor
  · intro h
    obtain ⟨rfl, rfl⟩ := Prod.mk.inj (Except.ok.inj h)
    exact ⟨rfl, rfl⟩
  · rintro ⟨rfl, rfl⟩
    rfl

theorem reads_set_iff {t : List UInt8} : Reads (set t) s () rest ↔ t = rest := by
  constructor
  · intro h
    exact (Prod.mk.inj (Except.ok.inj h)).2
  · rintro rfl
    rfl

theorem reads_drop_iff : Reads drop s () rest ↔ s.tail = rest := by
  constructor
  · intro h
    exact (Prod.mk.inj (Except.ok.inj h)).2
  · rintro rfl
    rfl

theorem reads_peek_iff {o : Option UInt8} : Reads peek s o rest ↔ s.head? = o ∧ s = rest := by
  constructor
  · intro h
    obtain ⟨rfl, rfl⟩ := Prod.mk.inj (Except.ok.inj h)
    exact ⟨rfl, rfl⟩
  · rintro ⟨rfl, rfl⟩
    rfl

theorem reads_peekToken_iff {o : Option UInt8} :
    Reads peekToken s o rest ↔ rest = s.dropWhile isBlankByte ∧ o = rest.head? := by
  constructor
  · intro h
    obtain ⟨rfl, rfl⟩ := Prod.mk.inj (Except.ok.inj h)
    exact ⟨rfl, rfl⟩
  · rintro ⟨rfl, rfl⟩
    rfl

/-- The next token is the byte behind the blanks. -/
theorem Reads.mark (h : Reads peekToken s (some b) rest) :
    isBlankByte b = false ∧ ∃ t, rest = b :: t ∧ Mark b s t := by
  obtain ⟨rfl, hb⟩ := reads_peekToken_iff.mp h
  have hblanks := blanks_dropWhile s
  cases ht : s.dropWhile isBlankByte with
  | nil =>
    rw [ht] at hb
    cases hb
  | cons c t =>
    rw [ht] at hb hblanks
    obtain rfl := Option.some.inj hb
    have hhead := List.head?_dropWhile_not isBlankByte s
    rw [ht] at hhead
    exact ⟨by simpa using hhead, t, rfl, hblanks⟩

theorem Mark.peekToken {t : List UInt8} (h : Mark b s t) (hb : isBlankByte b = false) :
    Reads peekToken s (some b) (b :: t) := by
  refine reads_peekToken_iff.mpr ⟨?_, rfl⟩
  rw [Blanks.dropWhile_eq h hb]

/-- To a reader that looks for a token blanks in front of it do not matter. -/
theorem reads_blanks_iff {t : List UInt8} {f : Option UInt8 → Reader α} {x : α} (hs : Blanks s t) :
    Reads (peekToken >>= f) s x rest ↔ Reads (peekToken >>= f) t x rest := by
  simp only [reads_bind_iff, reads_peekToken_iff, hs.dropWhile_congr]

theorem reads_token_iff (hb : isBlankByte b = false) :
    Reads (token b) s () rest ↔ Mark b s rest := by
  constructor
  · intro h
    obtain ⟨o, m, hpeek, h⟩ := reads_bind_iff.mp h
    split at h
    · rename_i ho
      subst ho
      obtain ⟨-, t, rfl, hmark⟩ := hpeek.mark
      rw [← reads_drop_iff.mp h]
      exact hmark
    · exact absurd h not_reads_refuse
  · intro h
    refine (Mark.peekToken h hb).bind ?_
    rw [if_pos rfl]
    exact reads_drop _ _

theorem reads_exactly_iff {bytes : List UInt8} :
    Reads (exactly bytes) s () rest ↔ s = bytes ++ rest := by
  constructor
  · intro h
    obtain ⟨t, m, hget, hset⟩ := reads_bind_iff.mp h
    obtain ⟨rfl, rfl⟩ := reads_get_iff.mp hget
    split at hset
    · rename_i hprefix
      obtain ⟨tail, rfl⟩ := List.isPrefixOf_iff_prefix.mp hprefix
      rw [← reads_set_iff.mp hset, List.drop_left]
    · exact absurd hset not_reads_refuse
  · rintro rfl
    refine (reads_get _).bind ?_
    rw [if_pos (List.isPrefixOf_iff_prefix.mpr (List.prefix_append _ _))]
    exact reads_set_iff.mpr List.drop_left

theorem reads_lift_iff {x : Except Fault α} {a : α} :
    Reads (liftM x) s a rest ↔ x = .ok a ∧ s = rest := by
  cases x with
  | error e => exact ⟨nofun, nofun⟩
  | ok y =>
    constructor
    · intro h
      obtain ⟨rfl, rfl⟩ := Prod.mk.inj (Except.ok.inj h)
      exact ⟨rfl, rfl⟩
    · rintro ⟨⟨⟩, rfl⟩
      rfl

/-- A value of another kind than the wanted one is never taken. -/
theorem not_reads_refuseKind {x : α} : ¬ Reads refuseKind s x rest := by
  refine not_reads_bind fun o s x rest => ?_
  split
  · exact not_reads_refuse
  · -- whatever is read of the value, it is refused in the end
    repeat' first
      | exact not_reads_refuse
      | refine not_reads_bind fun _ _ _ _ => ?_
      | split

/-! ## Strings -/

theorem plain_iff {x : UInt8} : isPlainByte x = true ↔ x ≠ 0x22 ∧ ¬ (x < 0x20 ∨ x = 0x5C) := by
  simp only [isPlainByte, Bool.and_eq_true, decide_eq_true_eq, Bool.not_eq_true',
    decide_eq_false_iff_not, not_or]
  rw [and_assoc, and_comm (a := x ≠ 0x5C)]

theorem characters_of_stringBytes {t : List UInt8} (h : stringBytes s = .ok (t, rest)) :
    Characters s t rest := by
  have htail : ∀ {r t rest} front, (stringBytes r).map (fun p => (front ++ p.1, p.2)) =
      .ok (t, rest) → ∃ u, stringBytes r = .ok (u, rest) ∧ t = front ++ u := by
    intro r t rest front hmap
    cases hr : stringBytes r with
    | error e =>
      rw [hr] at hmap
      cases hmap
    | ok p =>
      rw [hr] at hmap
      obtain ⟨rfl, rfl⟩ := Prod.mk.inj (Except.ok.inj hmap)
      exact ⟨_, rfl, rfl⟩
  fun_induction stringBytes s generalizing t with
  | case1 | case2 | case4 | case5 | case7 | case8 | case9 | case12 => cases h
  | case3 a b c d r n hn hplane ih =>
    obtain ⟨u, hu, rfl⟩ := htail _ h
    exact .unicode hn hplane (ih hu)
  | case6 a b c d n hn hplane hhigh e f g h' r m hm hlow ih =>
    obtain ⟨u, hu, rfl⟩ := htail _ h
    exact .pair hn (by omega) (by omega) hm hlow.1 hlow.2 (ih hu)
  | case10 x r hne y hy ih =>
    obtain ⟨u, hu, rfl⟩ := htail [y] h
    exact .short hy (ih hu)
  | case11 r =>
    obtain ⟨rfl, rfl⟩ := Prod.mk.inj (Except.ok.inj h)
    exact .close _
  | case13 x r hne hne' hquote hplain ih =>
    obtain ⟨u, hu, rfl⟩ := htail [x] h
    exact .plain (plain_iff.mpr ⟨hquote, hplain⟩) (ih hu)

theorem stringBytes_eq {t : List UInt8} (h : Characters s t rest) :
    stringBytes s = .ok (t, rest) := by
  induction h with
  | close s =>
    rw [stringBytes]
    · rfl
    · rintro a b c d r ⟨⟩
    · rintro x r ⟨⟩
  | @plain x s t rest hx _ ih =>
    obtain ⟨hquote, hplain⟩ := plain_iff.mp hx
    rw [stringBytes, if_neg hquote, if_neg hplain, ih]
    · rfl
    · rintro a b c d r rfl
      exact absurd (.inr rfl) hplain
    · rintro y r rfl
      exact absurd (.inr rfl) hplain
  | @short x y s t rest hy _ ih =>
    rw [stringBytes, hy, ih]
    · rfl
    · rintro a b c d r rfl
      cases hy
  | unicode hn hplane _ ih =>
    rw [stringBytes, hn, ih]
    simp only [if_pos hplane]
    rfl
  | pair hn hlow hhigh hm hmlow hmhigh _ ih =>
    rw [stringBytes]
    simp only [hn, hm, ih]
    rw [if_neg (by omega), if_neg (by omega), if_pos ⟨hmlow, hmhigh⟩]
    rfl

theorem fromUTF8?_eq_some_iff {bytes : List UInt8} {t : String} :
    String.fromUTF8? ⟨bytes.toArray⟩ = some t ↔ bytes = textBytes t := by
  constructor
  · intro h
    rw [String.fromUTF8?] at h
    split at h
    · obtain rfl := Option.some.inj h
      rw [textBytes_eq]
      rfl
    · cases h
  · rintro rfl
    exact fromUTF8?_textBytes t

theorem reads_stringBody_iff {t : String} :
    Reads stringBody s t rest ↔ Characters s (textBytes t) rest := by
  constructor
  · intro h
    obtain ⟨u, m, hget, hbytes⟩ := reads_bind_iff.mp h
    obtain ⟨rfl, rfl⟩ := reads_get_iff.mp hget
    obtain ⟨⟨bytes, left⟩, m', hlift, htext⟩ := reads_bind_iff.mp hbytes
    obtain ⟨hdecoded, rfl⟩ := reads_lift_iff.mp hlift
    dsimp only at htext
    split at htext
    · exact absurd htext not_reads_refuse
    · rename_i text hutf8
      obtain ⟨⟨⟩, m'', hset, hpure⟩ := reads_bind_iff.mp htext
      obtain rfl := reads_set_iff.mp hset
      obtain ⟨rfl, rfl⟩ := reads_pure_iff.mp hpure
      rw [← fromUTF8?_eq_some_iff.mp hutf8]
      exact characters_of_stringBytes hdecoded
  · intro h
    refine (reads_get _).bind ((reads_lift_iff.mpr ⟨stringBytes_eq h, rfl⟩).bind ?_)
    simp only [fromUTF8?_textBytes]
    exact (reads_set _ rest).bind (reads_pure _ _)

theorem reads_string_iff {t : String} : Reads string s t rest ↔ StringText s t rest := by
  constructor
  · intro h
    obtain ⟨o, m, hpeek, hrest⟩ := reads_bind_iff.mp h
    split at hrest
    · rename_i ho
      subst ho
      obtain ⟨-, inner, rfl, hmark⟩ := hpeek.mark
      obtain ⟨⟨⟩, m', hdrop, hbody⟩ := reads_bind_iff.mp hrest
      obtain rfl := reads_drop_iff.mp hdrop
      exact ⟨_, hmark, reads_stringBody_iff.mp hbody⟩
    · exact absurd hrest not_reads_refuseKind
  · rintro ⟨inner, hmark, hbody⟩
    refine (Mark.peekToken hmark (by decide)).bind ?_
    rw [if_pos rfl]
    exact (reads_drop _ _).bind (reads_stringBody_iff.mpr hbody)

theorem accepts_string : Accepts string StringText where
  begins := StringText.begins
  blanks := reads_blanks_iff
  length_le h := Nat.le_of_lt h.length_lt
  sound := reads_string_iff.mp
  complete h _ := reads_string_iff.mpr h

/-! ## Numbers -/

theorem digits_sound {ds : List Nat} (h : Reads digits s ds rest) :
    ∃ bytes, (∀ b ∈ bytes, isDigitByte b = true) ∧ ds = bytes.map digitOf ∧ s = bytes ++ rest := by
  obtain ⟨rfl, rfl⟩ := Prod.mk.inj (Except.ok.inj h)
  exact ⟨_, List.all_eq_true.mp List.all_takeWhile, rfl, List.takeWhile_append_dropWhile.symm⟩

theorem digitOf_eq_zero_iff (hb : isDigitByte b = true) : digitOf b = 0 ↔ b = 0x30 := by
  have hlow : 48 ≤ b.toNat := by
    simp only [isDigitByte, Bool.and_eq_true, decide_eq_true_eq] at hb
    exact UInt8.le_iff_toNat_le.mp hb.1
  constructor
  · intro h
    refine UInt8.toNat_inj.mp ?_
    have : b.toNat - 48 = 0 := h
    show b.toNat = 48
    omega
  · rintro rfl
    rfl

theorem integerDigits_sound {ds : List Nat} (h : Reads integerDigits s ds rest) :
    ∃ bytes, bytes ≠ [] ∧ (∀ b ∈ bytes, isDigitByte b = true) ∧
      (bytes.head? = some 0x30 → bytes = [0x30]) ∧ ds = bytes.map digitOf ∧ s = bytes ++ rest := by
  obtain ⟨l, m, hdigits, hmatch⟩ := reads_bind_iff.mp h
  obtain ⟨bytes, hbytes, rfl, rfl⟩ := digits_sound hdigits
  split at hmatch
  · exact absurd hmatch not_reads_refuse
  · exact absurd hmatch not_reads_refuse
  · rename_i hempty hzero
    obtain ⟨rfl, rfl⟩ := reads_pure_iff.mp hmatch
    refine ⟨bytes, fun hnil => hempty (by rw [hnil]; rfl), hbytes, fun hhead => ?_, rfl, rfl⟩
    -- a zero in front of another digit would have been refused
    match bytes, hhead with
    | [_], rfl => rfl
    | _ :: c :: r, rfl => exact absurd rfl (hzero _ _)

theorem reads_integerDigits_of {bytes : List UInt8} (hne : bytes ≠ [])
    (hbytes : ∀ b ∈ bytes, isDigitByte b = true) (hzero : bytes.head? = some 0x30 → bytes = [0x30])
    (hrest : NoDigit rest) : Reads integerDigits (bytes ++ rest) (bytes.map digitOf) rest := by
  refine (reads_digits hbytes hrest).bind ?_
  split
  · rename_i hnil
    exact absurd (List.map_eq_nil_iff.mp hnil) hne
  · rename_i hcons
    obtain ⟨b, l, rfl, hb, hl⟩ := List.map_eq_cons_iff.mp hcons
    have hbyte := (digitOf_eq_zero_iff (hbytes b List.mem_cons_self)).mp hb
    cases hzero (congrArg some hbyte)
    cases hl
  · exact reads_pure _ _

/-- Digits that may not be missing. -/
theorem someDigits_sound {g : List Nat → β} {x : β} (h : Reads (do
      match ← digits with
      | [] => refuse .malformed
      | ds => return g ds) s x rest) :
    ∃ bytes, bytes ≠ [] ∧ (∀ b ∈ bytes, isDigitByte b = true) ∧ s = bytes ++ rest ∧
      x = g (bytes.map digitOf) := by
  obtain ⟨l, m, hdigits, hmatch⟩ := reads_bind_iff.mp h
  obtain ⟨bytes, hbytes, rfl, rfl⟩ := digits_sound hdigits
  split at hmatch
  · exact absurd hmatch not_reads_refuse
  · rename_i hne
    obtain ⟨rfl, rfl⟩ := reads_pure_iff.mp hmatch
    exact ⟨bytes, fun hnil => hne (by rw [hnil]; rfl), hbytes, rfl, rfl⟩

theorem reads_someDigits_of {g : List Nat → β} {bytes : List UInt8} (hne : bytes ≠ [])
    (hbytes : ∀ b ∈ bytes, isDigitByte b = true) (hrest : NoDigit rest) :
    Reads (do
      match ← digits with
      | [] => refuse .malformed
      | ds => return g ds) (bytes ++ rest) (g (bytes.map digitOf)) rest := by
  refine (reads_digits hbytes hrest).bind ?_
  split
  · rename_i hnil
    exact absurd (List.map_eq_nil_iff.mp hnil) hne
  · exact reads_pure _ _

/-- The fraction that is read is the one of the text; there is none exactly when no digits are
told. -/
theorem fractionDigits_sound {ds : List Nat} (h : Reads fractionDigits s ds rest) :
    FractionPart s rest ∧ (ds = [] → s = rest) := by
  obtain ⟨o, m, hpeek, hif⟩ := reads_bind_iff.mp h
  obtain ⟨rfl, rfl⟩ := reads_peek_iff.mp hpeek
  split at hif
  · rename_i hpoint
    obtain ⟨⟨⟩, m', hdrop, hrun⟩ := reads_bind_iff.mp hif
    obtain rfl := reads_drop_iff.mp hdrop
    obtain ⟨bytes, hne, hbytes, htail, rfl⟩ := someDigits_sound (g := id) hrun
    obtain ⟨t, rfl⟩ := List.head?_eq_some_iff.mp hpoint
    exact ⟨.inr ⟨t, rfl, bytes, hne, hbytes, htail⟩, fun hnil =>
      absurd (List.map_eq_nil_iff.mp hnil) hne⟩
  · obtain ⟨-, rfl⟩ := reads_pure_iff.mp hif
    exact ⟨.inl rfl, fun _ => rfl⟩

/-- A fraction is read as its digits. -/
theorem reads_fractionDigits_point {bytes : List UInt8} (hne : bytes ≠ [])
    (hbytes : ∀ b ∈ bytes, isDigitByte b = true) (hrest : NoDigit rest) :
    Reads fractionDigits (0x2E :: (bytes ++ rest)) (bytes.map digitOf) rest := by
  refine (reads_peek _ _).bind ?_
  rw [if_pos rfl]
  exact (reads_drop _ _).bind (reads_someDigits_of (g := id) hne hbytes hrest)

theorem reads_fractionDigits_of (h : FractionPart s rest) (hrest : NoDigit rest)
    (hpoint : ∀ b ∈ rest.head?, b ≠ 0x2E) : ∃ ds, Reads fractionDigits s ds rest := by
  rcases h with rfl | ⟨m, rfl, bytes, hne, hbytes, rfl⟩
  · exact ⟨[], reads_fractionDigits hpoint⟩
  · exact ⟨bytes.map digitOf, reads_fractionDigits_point hne hbytes hrest⟩

/-- The exponent that is read is the one of the text. -/
theorem exponentPart_sound {o : Option (Bool × List Nat)} (h : Reads exponentPart s o rest) :
    ExponentPart s rest ∧ (o = none → s = rest) := by
  obtain ⟨letter, m, hpeek, hif⟩ := reads_bind_iff.mp h
  obtain ⟨rfl, rfl⟩ := reads_peek_iff.mp hpeek
  split at hif
  · rename_i hletter
    obtain ⟨e, t, rfl, he⟩ : ∃ e t, s = e :: t ∧ (e = 0x65 ∨ e = 0x45) := by
      rcases hletter with he | he <;> obtain ⟨t, rfl⟩ := List.head?_eq_some_iff.mp he
      · exact ⟨_, t, rfl, .inl rfl⟩
      · exact ⟨_, t, rfl, .inr rfl⟩
    obtain ⟨⟨⟩, m', hdrop, hafter⟩ := reads_bind_iff.mp hif
    obtain rfl : t = m' := reads_drop_iff.mp hdrop
    obtain ⟨sign, m'', hpeek', hsign⟩ := reads_bind_iff.mp hafter
    obtain ⟨rfl, rfl⟩ := reads_peek_iff.mp hpeek'
    -- behind the letter the digits follow, a sign before them or not
    have hdigits : ∃ ds,
        (t = ds ∨ t = 0x2B :: ds ∨ t = 0x2D :: ds) ∧ DigitRun ds rest ∧ o ≠ none := by
      dsimp only at hsign
      split at hsign
      · rename_i hs
        obtain ⟨⟨⟩, m', hdrop, hrun⟩ := reads_bind_iff.mp hsign
        obtain rfl := reads_drop_iff.mp hdrop
        obtain ⟨bytes, hne, hbytes, htail, rfl⟩ :=
          someDigits_sound (g := fun ds => some (decide (t.head? = some 0x2D), ds)) hrun
        refine ⟨_, ?_, ⟨bytes, hne, hbytes, htail⟩, nofun⟩
        rcases hs with hs | hs <;> obtain ⟨t, rfl⟩ := List.head?_eq_some_iff.mp hs
        · exact .inr (.inl rfl)
        · exact .inr (.inr rfl)
      · obtain ⟨bytes, hne, hbytes, htail, rfl⟩ :=
          someDigits_sound (g := fun ds => some (decide (t.head? = some 0x2D), ds)) hsign
        exact ⟨t, .inl rfl, ⟨bytes, hne, hbytes, htail⟩, nofun⟩
    obtain ⟨ds, ht, hrun, hne⟩ := hdigits
    exact ⟨.inr ⟨e, t, ds, he, rfl, ht, hrun⟩, fun hnone => absurd hnone hne⟩
  · obtain ⟨-, rfl⟩ := reads_pure_iff.mp hif
    exact ⟨.inl rfl, fun _ => rfl⟩

/-- An exponent is read as its sign and its digits. -/
theorem reads_exponentPart_letter {e : UInt8} {t bytes : List UInt8} (he : e = 0x65 ∨ e = 0x45)
    (ht : t = bytes ++ rest ∨ t = 0x2B :: (bytes ++ rest) ∨ t = 0x2D :: (bytes ++ rest))
    (hne : bytes ≠ []) (hbytes : ∀ b ∈ bytes, isDigitByte b = true) (hrest : NoDigit rest) :
    Reads exponentPart (e :: t) (some (decide (t.head? = some 0x2D), bytes.map digitOf)) rest := by
  have hrun := fun g : List Nat → Option (Bool × List Nat) =>
      reads_someDigits_of (g := g) hne hbytes hrest
  have hletter : some e = some (0x65 : UInt8) ∨ some e = some 0x45 :=
    he.imp (congrArg some) (congrArg some)
  refine (reads_peek _ _).bind ?_
  rw [if_pos hletter]
  refine (reads_drop _ _).bind ((reads_peek_iff.mpr ⟨rfl, rfl⟩).bind ?_)
  dsimp only
  -- a digit is no sign
  have hsign : ∀ x ∈ (bytes ++ rest).head?, x ≠ 0x2B ∧ x ≠ 0x2D := by
    obtain ⟨d, l, rfl⟩ := List.exists_cons_of_ne_nil hne
    have hd := hbytes d List.mem_cons_self
    intro x hx
    obtain rfl : d = x := Option.some.inj hx
    constructor <;>
    · rintro rfl
      exact absurd hd (by decide)
  rcases ht with rfl | rfl | rfl
  · rw [if_neg]
    · exact hrun _
    · rintro (hs | hs)
      · exact (hsign _ hs).1 rfl
      · exact (hsign _ hs).2 rfl
  · rw [if_pos (.inl rfl)]
    exact (reads_drop _ _).bind (hrun _)
  · rw [if_pos (.inr rfl)]
    exact (reads_drop _ _).bind (hrun _)

theorem reads_exponentPart_of (h : ExponentPart s rest) (hrest : Stops rest) :
    ∃ o, Reads exponentPart s o rest := by
  rcases h with rfl | ⟨e, t, ds, he, rfl, ht, bytes, hne, hbytes, rfl⟩
  · exact ⟨none, reads_exponentPart hrest⟩
  · exact ⟨_, reads_exponentPart_letter he ht hne hbytes hrest.noDigit⟩

/-! ## Passing over a number -/

/-- Neither digits nor a fraction are prolonged by an exponent. -/
theorem NoDigit.of_exponentPart (h : ExponentPart s rest) (hrest : Stops rest) :
    NoDigit s ∧ ∀ b ∈ s.head?, b ≠ 0x2E := by
  rcases h with rfl | ⟨e, t, ds, he, rfl, -⟩
  · exact ⟨hrest.noDigit, fun b hb => (hrest b hb).2.1⟩
  · rcases he with rfl | rfl
    · exact ⟨noDigit_cons (by decide) t, by simp⟩
    · exact ⟨noDigit_cons (by decide) t, by simp⟩

theorem NoDigit.of_fractionPart (h : FractionPart s rest) (hrest : NoDigit rest) : NoDigit s := by
  rcases h with rfl | ⟨t, rfl, -⟩
  · exact hrest
  · exact noDigit_cons (by decide) t

/-- What is passed over as a number is one. -/
theorem skipNumber_sound (h : Reads skipNumber s () rest) : NumberText s rest := by
  obtain ⟨o, m, hpeek, hif⟩ := reads_bind_iff.mp h
  obtain ⟨rfl, rfl⟩ := reads_peek_iff.mp hpeek
  have hparts : ∀ {whole}, Reads (do
      let _ ← integerDigits
      let _ ← fractionDigits
      let _ ← exponentPart) whole () rest → ∃ fraction exponent, IntegerPart whole fraction ∧
        FractionPart fraction exponent ∧ ExponentPart exponent rest := by
    intro whole hrun
    obtain ⟨ds, fraction, hinteger, hrun⟩ := reads_bind_iff.mp hrun
    obtain ⟨fs, exponent, hfraction, hrun⟩ := reads_bind_iff.mp hrun
    obtain ⟨bytes, hne, hbytes, hzero, -, htext⟩ := integerDigits_sound hinteger
    obtain ⟨e, m, hexponent, hpure⟩ := reads_bind_iff.mp hrun
    obtain ⟨-, rfl⟩ := reads_pure_iff.mp hpure
    exact ⟨fraction, exponent, ⟨bytes, hne, hbytes, hzero, htext⟩,
      (fractionDigits_sound hfraction).1, (exponentPart_sound hexponent).1⟩
  dsimp only at hif
  split at hif
  · rename_i hminus
    obtain ⟨t, rfl⟩ := List.head?_eq_some_iff.mp hminus
    obtain ⟨⟨⟩, m', hdrop, hrun⟩ := reads_bind_iff.mp hif
    obtain rfl : t = m' := reads_drop_iff.mp hdrop
    obtain ⟨fraction, exponent, hall⟩ := hparts hrun
    exact ⟨t, fraction, exponent, .inr rfl, hall⟩
  · obtain ⟨fraction, exponent, hall⟩ := hparts hif
    exact ⟨s, fraction, exponent, .inl rfl, hall⟩

/-- A number is passed over. -/
theorem reads_skipNumber_of (h : NumberText s rest) (hrest : Stops rest) :
    Reads skipNumber s () rest := by
  obtain ⟨whole, fraction, exponent, hs, ⟨bytes, hne, hbytes, hzero, rfl⟩, hfraction, hexponent⟩ :=
    h
  obtain ⟨hdigit, hpoint⟩ := NoDigit.of_exponentPart hexponent hrest
  obtain ⟨fs, hreadsFraction⟩ := reads_fractionDigits_of hfraction hdigit hpoint
  obtain ⟨e, hreadsExponent⟩ := reads_exponentPart_of hexponent hrest
  have hinteger := reads_integerDigits_of hne hbytes hzero (.of_fractionPart hfraction hdigit)
  have hparts : Reads (do
      let _ ← integerDigits
      let _ ← fractionDigits
      let _ ← exponentPart) (bytes ++ fraction) () rest :=
    hinteger.bind (hreadsFraction.bind (hreadsExponent.bind (reads_pure _ _)))
  rcases hs with rfl | rfl
  · refine (reads_peek_iff.mpr ⟨rfl, rfl⟩).bind ?_
    dsimp only
    rw [if_neg]
    · exact hparts
    · -- a number begins with a digit
      obtain ⟨d, l, rfl⟩ := List.exists_cons_of_ne_nil hne
      intro hminus
      obtain rfl := Option.some.inj hminus
      exact absurd (hbytes _ List.mem_cons_self) (by decide)
  · refine (reads_peek _ _).bind ?_
    dsimp only
    rw [if_pos rfl]
    exact (reads_drop _ _).bind hparts

/-! ## Integers -/

theorem digitChar_digitOf (hb : isDigitByte b = true) :
    digitOf b < 10 ∧ (digitOf b).digitChar.toUInt8 = b := by
  have hdigits : ∀ n < 10, n.digitChar.toUInt8 = UInt8.ofNat (48 + n) := by decide
  simp only [isDigitByte, Bool.and_eq_true, decide_eq_true_eq, UInt8.le_iff_toNat_le] at hb
  have hlow : 48 ≤ b.toNat := hb.1
  have hhigh : b.toNat ≤ 57 := hb.2
  have hlt : b.toNat - 48 < 10 := by omega
  refine ⟨hlt, ?_⟩
  have hbyte : 48 + (b.toNat - 48) = b.toNat := by omega
  rw [digitOf, hdigits _ hlt, hbyte, UInt8.ofNat_toNat]

/-- The digits of a number that does not begin with a zero are its decimal digits. -/
theorem decimalBytes_value {bytes : List UInt8} (hne : bytes ≠ [])
    (hbytes : ∀ b ∈ bytes, isDigitByte b = true) (hhead : bytes.head? ≠ some 0x30) :
    0 < (bytes.map digitOf).foldl (fun n d => 10 * n + d) 0 ∧
      decimalBytes ((bytes.map digitOf).foldl (fun n d => 10 * n + d) 0) = bytes := by
  induction bytes using List.reverseRecOn with
  | nil => exact absurd rfl hne
  | append_singleton init b ih =>
    have hb := hbytes b (List.mem_append_right _ List.mem_cons_self)
    obtain ⟨hlt, hchar⟩ := digitChar_digitOf hb
    rw [List.map_append, List.foldl_append]
    simp only [List.map_cons, List.map_nil, List.foldl_cons, List.foldl_nil]
    by_cases hinit : init = []
    · subst hinit
      have hpos : digitOf b ≠ 0 := fun h => hhead (by rw [(digitOf_eq_zero_iff hb).mp h]; rfl)
      refine ⟨by simp; omega, ?_⟩
      simp only [List.map_nil, List.foldl_nil, Nat.mul_zero, Nat.zero_add, decimalBytes,
        Nat.toDigits_of_lt_base hlt, List.map_cons, hchar, List.nil_append]
    · have hhead' : init.head? ≠ some 0x30 := by
        rwa [List.head?_append, Option.or_of_isSome (by simpa using hinit)] at hhead
      obtain ⟨hpos, hdigits⟩ := ih hinit (fun b hb => hbytes b (List.mem_append_left _ hb)) hhead'
      refine ⟨by omega, ?_⟩
      rw [decimalBytes, Nat.toDigits_of_base_le (by decide) (by omega), List.map_append]
      rw [Nat.mul_add_div (by decide), Nat.div_eq_of_lt hlt, Nat.add_zero, Nat.mul_add_mod,
        Nat.mod_eq_of_lt hlt, ← decimalBytes, hdigits]
      simp only [List.map_cons, List.map_nil, hchar]

theorem gather_sound {n : Nat} {ds : List Nat} {s : Nat} (h : gather s ds = (n, 0)) :
    n = ds.foldl (fun n d => 10 * n + d) s := by
  induction ds generalizing s with
  | nil => exact (Prod.mk.inj h).1.symm
  | cons d ds ih =>
    rw [gather] at h
    split at h
    · exact ih h
    · cases (Prod.mk.inj h).2

/-- The digits of a whole number that was read are its decimal digits. -/
theorem integerDigits_value {ds : List Nat} (h : Reads integerDigits s ds rest) :
    s = decimalBytes (ds.foldl (fun n d => 10 * n + d) 0) ++ rest := by
  obtain ⟨bytes, hne, hbytes, hzero, rfl, rfl⟩ := integerDigits_sound h
  by_cases hhead : bytes.head? = some 0x30
  · rw [hzero hhead]
    rfl
  · rw [(decimalBytes_value hne hbytes hhead).2]

/-- Behind its sign a number is a double, or it is written with its decimal digits alone. -/
theorem unsigned_sound {negative : Bool} {n : Number} (h : Reads (do
      let (whole, dropped) := gather 0 (← integerDigits)
      let fraction ← fractionDigits
      let exponent ← exponentPart
      if dropped = 0 ∧ fraction = [] ∧ exponent = none then
        if !negative then return Number.natural whole
        else if whole = 0 ∨ 1 <<< 63 < whole then return Number.float (-(Binary64.ofNat whole))
        else return Number.negative whole
      else
        let (significand, left) := gather whole fraction
        let e : Int := (dropped : Int) - (fraction.length - left : Nat)
        match floatParts negative significand e exponent with
        | none => refuse .malformed
        | some x => return Number.float x) s n rest) :
    (∃ x, n = .float x) ∨ ∃ v, s = decimalBytes v ++ rest ∧
      (negative = false ∧ n = .natural v ∨ negative = true ∧ n = .negative v ∧ 0 < v ∧
        v ≤ 1 <<< 63) := by
  obtain ⟨ds, m, hinteger, hrun⟩ := reads_bind_iff.mp h
  obtain ⟨fraction, m', hfraction, hrun'⟩ := reads_bind_iff.mp hrun
  obtain ⟨exponent, m'', hexponent, hif⟩ := reads_bind_iff.mp hrun'
  split at hif
  · rename_i hwhole
    obtain ⟨hdropped, hnone, hnone'⟩ := hwhole
    have hvalue : (gather 0 ds).1 = ds.foldl (fun n d => 10 * n + d) 0 :=
      gather_sound (Prod.ext rfl hdropped)
    have htext : s = decimalBytes (gather 0 ds).1 ++ m'' := by
      rw [hvalue, integerDigits_value hinteger, (fractionDigits_sound hfraction).2 hnone,
        (exponentPart_sound hexponent).2 hnone']
    split at hif
    · rename_i hsign
      obtain ⟨rfl, rfl⟩ := reads_pure_iff.mp hif
      exact .inr ⟨_, htext, .inl ⟨by simpa using hsign, rfl⟩⟩
    · rename_i hsign
      split at hif
      · obtain ⟨rfl, rfl⟩ := reads_pure_iff.mp hif
        exact .inl ⟨_, rfl⟩
      · rename_i hbound
        obtain ⟨rfl, rfl⟩ := reads_pure_iff.mp hif
        exact .inr ⟨_, htext, .inr ⟨by simpa using hsign, rfl, by omega, by omega⟩⟩
  · dsimp only at hif
    split at hif
    · exact absurd hif not_reads_refuse
    · obtain ⟨rfl, rfl⟩ := reads_pure_iff.mp hif
      exact .inl ⟨_, rfl⟩

/-- What an integer of 64 bits was read of is its text. -/
theorem number_sound {n : Number} {i : Int64} (h : Reads number s n rest)
    (hi : n.toInt64? = some i) : s = textBytes (Text.ofInt64 i) ++ rest := by
  obtain ⟨o, m, hpeek, hif⟩ := reads_bind_iff.mp h
  obtain ⟨rfl, rfl⟩ := reads_peek_iff.mp hpeek
  dsimp only at hif
  split at hif
  · rename_i hminus
    obtain ⟨t, rfl⟩ := List.head?_eq_some_iff.mp hminus
    obtain ⟨⟨⟩, m', hdrop, hrun⟩ := reads_bind_iff.mp hif
    obtain rfl : t = m' := reads_drop_iff.mp hdrop
    rcases unsigned_sound hrun with ⟨x, rfl⟩ | ⟨v, rfl, ⟨hsign, -⟩ | ⟨-, rfl, hpos, hle⟩⟩
    · cases hi
    · exact absurd hsign (by simp)
    · obtain rfl := Option.some.inj hi
      have hvalue : (Int64.ofInt (-(v : Int))).toInt = -v :=
        Int64.toInt_ofInt_of_le (by omega) (by omega)
      rw [textBytes_ofInt64_of_neg (by omega), hvalue, Int.natAbs_neg, Int.natAbs_natCast,
        List.cons_append]
  · rename_i hminus
    rcases unsigned_sound hif with ⟨x, rfl⟩ | ⟨v, hv, ⟨-, rfl⟩ | ⟨hsign, -⟩⟩
    · cases hi
    · rw [Number.toInt64?] at hi
      split at hi
      · rename_i hlt
        obtain rfl := Option.some.inj hi
        have hvalue : (Int64.ofInt (v : Int)).toInt = v :=
          Int64.toInt_ofInt_of_le (by omega) (by omega)
        rw [textBytes_ofInt64_of_nonneg (by omega), hvalue, Int.natAbs_natCast, hv]
      · cases hi
    · exact absurd (of_decide_eq_true hsign) hminus

theorem accepts_int64 : Accepts int64 IntegerText where
  begins := IntegerText.begins
  blanks := reads_blanks_iff
  length_le h := by
    have hle := Blanks.length_le h
    rw [List.length_append] at hle
    omega
  sound := by
    intro s i rest h
    obtain ⟨o, m, hpeek, hmatch⟩ := reads_bind_iff.mp h
    split at hmatch
    · exact absurd hmatch not_reads_refuse
    · obtain ⟨-, t, rfl, hmark⟩ := hpeek.mark
      split at hmatch
      · obtain ⟨n, m', hnumber, hvalue⟩ := reads_bind_iff.mp hmatch
        split at hvalue
        · rename_i hi
          obtain ⟨rfl, rfl⟩ := reads_pure_iff.mp hvalue
          rw [IntegerText, ← number_sound hnumber hi]
          exact hmark
        · exact absurd hvalue not_reads_refuse
      · exact absurd hmatch not_reads_refuseKind
  complete := by
    intro s i rest h hrest
    exact (reads_blanks_iff h).mpr (reads_int64 i hrest)

end Cutover.Json.Reader
