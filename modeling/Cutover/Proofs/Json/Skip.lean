import Cutover.Proofs.Json.Scalar

/-! # Values are passed over by their grammar

The reader that passes over a value is a loop that keeps the open brackets in a list.  What is left
to be taken while brackets are open (`Closing`) ties the loop to the grammar: whatever the loop
takes is a value and what closes the brackets (`skipFrom_sound`), and it takes every value of the
grammar (`Skips`).
-/

namespace Cutover.Json

variable {s rest : List UInt8}

/-! ## Strings and heads of values -/

theorem afterString_sound (h : afterString s = .ok rest) : Undecoded s rest := by
  fun_induction afterString s with
  | case1 | case3 | case5 | case7 => cases h
  | case2 a b c d r hhex ih =>
    simp only [Bool.and_eq_true] at hhex
    exact .unicode (by simp [hhex]) (ih h)
  | case4 x r hne hx ih => exact .short hx (ih h)
  | case6 r =>
    obtain rfl := Except.ok.inj h
    exact .close _
  | case8 x r hne hne' hquote hplain ih =>
    exact .plain (Reader.plain_iff.mpr ⟨hquote, hplain⟩) (ih h)

theorem Undecoded.afterString_eq (h : Undecoded s rest) : afterString s = .ok rest := by
  induction h with
  | close s =>
    rw [afterString]
    · rfl
    · rintro a b c d r ⟨⟩
    · rintro x r ⟨⟩
  | @plain x s rest hx _ ih =>
    obtain ⟨hquote, hplain⟩ := Reader.plain_iff.mp hx
    rw [afterString, if_neg hquote, if_neg hplain, ih]
    · rintro a b c d r rfl
      exact absurd (.inr rfl) hplain
    · rintro y r rfl
      exact absurd (.inr rfl) hplain
  | @short x s rest hx _ ih =>
    rw [afterString, if_pos hx, ih]
    rintro a b c d r rfl
    cases hx
  | unicode hhex _ ih =>
    simp only [List.forall_mem_cons] at hhex
    rw [afterString, if_pos (by simp [hhex]), ih]

theorem Undecoded.length_lt (h : Undecoded s rest) : rest.length < s.length := by
  induction h with
  | close s => simp
  | plain _ _ ih | short _ _ ih | unicode _ _ ih =>
    simp only [List.length_cons]
    omega

theorem NameText.length_lt (h : NameText s rest) : rest.length < s.length := by
  obtain ⟨inner, colon, hmark, hinner, hcolon⟩ := h
  have := hmark.length_lt
  have := hinner.length_lt
  have := hcolon.length_lt
  omega

/-- A number begins with a minus sign or a digit. -/
theorem NumberText.exists_head (h : NumberText s rest) :
    ∃ b t, s = b :: t ∧ (b = 0x2D ∨ isDigitByte b = true) := by
  obtain ⟨whole, fraction, exponent, rfl | rfl, ⟨bytes, hne, hbytes, -, rfl⟩, -⟩ := h
  · obtain ⟨d, l, rfl⟩ := List.exists_cons_of_ne_nil hne
    exact ⟨d, _, rfl, .inr (hbytes d List.mem_cons_self)⟩
  · exact ⟨_, _, rfl, .inl rfl⟩

theorem DigitRun.length_lt (h : DigitRun s rest) : rest.length < s.length := by
  obtain ⟨bytes, hne, -, rfl⟩ := h
  have := List.length_pos_iff.mpr hne
  rw [List.length_append]
  omega

theorem NumberText.length_lt (h : NumberText s rest) : rest.length < s.length := by
  obtain ⟨whole, fraction, exponent, hs, ⟨bytes, hne, -, -, rfl⟩, hfraction, hexponent⟩ := h
  have hfraction : exponent.length ≤ fraction.length := by
    rcases hfraction with rfl | ⟨m, rfl, hrun⟩
    · exact Nat.le_refl _
    · exact Nat.le_succ_of_le (Nat.le_of_lt hrun.length_lt)
  have hexponent : rest.length ≤ exponent.length := by
    rcases hexponent with rfl | ⟨e, m, ds, -, rfl, hm, hrun⟩
    · exact Nat.le_refl _
    · have := hrun.length_lt
      rcases hm with rfl | rfl | rfl <;>
      · simp only [List.length_cons]
        omega
  have := List.length_pos_iff.mpr hne
  rcases hs with rfl | rfl <;>
  · simp only [List.length_cons, List.length_append]
    omega

theorem Takes.length_lt {c : Category} (h : Takes c s rest) : rest.length < s.length := by
  induction h with
  | blank _ _ ih => exact Nat.lt_succ_of_lt ih
  | @word w rest hw =>
    have hpos : 0 < (ascii w).length := by
      simp only [List.mem_cons, List.not_mem_nil, or_false] at hw
      rcases hw with rfl | rfl | rfl <;> decide
    rw [List.length_append]
    omega
  | number h => exact h.length_lt
  | string h => exact Nat.lt_succ_of_lt h.length_lt
  | empty b h => exact Nat.lt_succ_of_lt h.length_lt
  | array _ _ ihv iho =>
    simp only [List.length_cons]
    omega
  | object hn _ _ ihv iho =>
    have := hn.length_lt
    simp only [List.length_cons]
    omega
  | close b h => exact h.length_lt
  | element hc _ _ ihv iho =>
    have := hc.length_lt
    omega
  | member hc hn _ _ ihv iho =>
    have := hc.length_lt
    have := hn.length_lt
    omega

theorem Takes.of_blanks {m : List UInt8} (h : Takes .value m rest) (hs : Blanks s m) :
    Takes .value s rest := by
  induction hs with
  | nil s => exact h
  | cons hb _ ih => exact .blank hb (ih h)

/-- A value begins with no byte that closes an array. -/
theorem Takes.exists_head {c : Category} {m : List UInt8} (h : Takes c s m) (hc : c = .value) :
    ∃ b t, Mark b s t ∧ isBlankByte b = false ∧ b ≠ 0x5D := by
  induction h with
  | blank hb _ ih =>
    obtain ⟨b, t, hmark, hrest⟩ := ih hc
    exact ⟨b, t, .cons hb hmark, hrest⟩
  | word hw =>
    simp only [List.mem_cons, List.not_mem_nil, or_false] at hw
    rcases hw with rfl | rfl | rfl <;> exact ⟨_, _, .nil _, by decide, by decide⟩
  | number h =>
    obtain ⟨b, t, rfl, rfl | hb⟩ := h.exists_head
    · exact ⟨_, _, .nil _, by decide, by decide⟩
    · refine ⟨b, t, .nil _, Reader.isBlankByte_of_isDigitByte hb, ?_⟩
      rintro rfl
      exact absurd hb (by decide)
  | string h => exact ⟨_, _, .nil _, by decide, by decide⟩
  | empty b h => exact ⟨_, _, .nil _, by cases b <;> decide, by cases b <;> decide⟩
  | array => exact ⟨_, _, .nil _, by decide, by decide⟩
  | object => exact ⟨_, _, .nil _, by decide, by decide⟩
  | close | element | member => cases hc

theorem NameText.of_blanks {m : List UInt8} (h : NameText m rest) (hs : Blanks s m) :
    NameText s rest := by
  obtain ⟨inner, colon, hquote, hrest⟩ := h
  exact ⟨inner, colon, hs.trans hquote, hrest⟩

theorem Bracket.isBlankByte_close (b : Bracket) : isBlankByte b.close = false := by
  cases b <;> rfl

/-- Behind the byte that closes a bracket the bracket is closed. -/
theorem Takes.of_close {b : Bracket} {m : List UInt8} (h : Takes (.others b) (b.close :: s) m) :
    m = s := by
  have hb := b.isBlankByte_close
  have hcomma : ∀ {v}, ¬ Mark 0x2C (b.close :: s) v := fun hmark => by
    have := (Blanks.unique (.nil _) hmark hb rfl).1
    cases b <;> cases this
  cases h with
  | close _ hmark => exact (Blanks.unique (.nil _) hmark hb hb).2.symm
  | element hmark => exact absurd hmark hcomma
  | member hmark => exact absurd hmark hcomma

namespace Reader

theorem reads_skipString_iff : Reads skipString s () rest ↔ Undecoded s rest := by
  constructor
  · intro h
    obtain ⟨t, m, hget, hrun⟩ := reads_bind_iff.mp h
    obtain ⟨rfl, rfl⟩ := reads_get_iff.mp hget
    obtain ⟨u, m, hlift, hset⟩ := reads_bind_iff.mp hrun
    obtain ⟨hafter, rfl⟩ := reads_lift_iff.mp hlift
    obtain rfl := reads_set_iff.mp hset
    exact afterString_sound hafter
  · intro h
    exact (reads_get _).bind ((reads_lift_iff.mpr ⟨h.afterString_eq, rfl⟩).bind (reads_set _ _))

theorem reads_skipName_iff : Reads skipName s () rest ↔ NameText s rest := by
  constructor
  · intro h
    obtain ⟨⟨⟩, inner, hquote, hrun⟩ := reads_bind_iff.mp h
    obtain ⟨⟨⟩, colon, hinner, hcolon⟩ := reads_bind_iff.mp hrun
    exact ⟨inner, colon, (reads_token_iff rfl).mp hquote, reads_skipString_iff.mp hinner,
      (reads_token_iff rfl).mp hcolon⟩
  · rintro ⟨inner, colon, hquote, hinner, hcolon⟩
    exact ((reads_token_iff rfl).mpr hquote).bind ((reads_skipString_iff.mpr hinner).bind
      ((reads_token_iff rfl).mpr hcolon))

/-- The start of a value is a scalar, or an opening bracket. -/
theorem skipHead_sound {o : Option Bracket} (h : Reads skipHead s o rest) :
    (o = none ∧ Takes .value s rest) ∨ ∃ b, o = some b ∧ Mark b.opening s rest := by
  obtain ⟨p, m, hpeek, hmatch⟩ := reads_bind_iff.mp h
  split at hmatch
  · exact absurd hmatch not_reads_refuse
  · rename_i c
    obtain ⟨-, t, rfl, hmark⟩ := hpeek.mark
    have hbracket : ∀ b : Bracket, Reads (do
        drop
        return some b) (b.opening :: t) o rest → o = some b ∧ t = rest := by
      intro b hrun
      obtain ⟨⟨⟩, m, hdrop, hpure⟩ := reads_bind_iff.mp hrun
      obtain rfl : t = m := reads_drop_iff.mp hdrop
      obtain ⟨rfl, rfl⟩ := reads_pure_iff.mp hpure
      exact ⟨rfl, rfl⟩
    have hscalar : ∀ {r : Reader Unit}, Reads (do
        r
        return none) (c :: t) o rest → (Reads r (c :: t) () rest → Takes .value (c :: t) rest) →
          (o = none ∧ Takes .value s rest) ∨ ∃ b : Bracket, o = some b ∧ Mark b.opening s rest := by
      intro r hrun hr
      obtain ⟨⟨⟩, m, hscalar, hpure⟩ := reads_bind_iff.mp hrun
      obtain ⟨rfl, rfl⟩ := reads_pure_iff.mp hpure
      exact .inl ⟨rfl, (hr hscalar).of_blanks hmark⟩
    dsimp only at hmatch
    split at hmatch
    · rename_i hb
      subst hb
      obtain ⟨rfl, rfl⟩ := hbracket .array hmatch
      exact .inr ⟨_, rfl, hmark⟩
    split at hmatch
    · rename_i hb
      subst hb
      obtain ⟨rfl, rfl⟩ := hbracket .object hmatch
      exact .inr ⟨_, rfl, hmark⟩
    split at hmatch
    · rename_i hb
      subst hb
      obtain ⟨⟨⟩, m, hdrop, hrun⟩ := reads_bind_iff.mp hmatch
      obtain rfl : t = m := reads_drop_iff.mp hdrop
      obtain ⟨⟨⟩, m, hstring, hpure⟩ := reads_bind_iff.mp hrun
      obtain ⟨rfl, rfl⟩ := reads_pure_iff.mp hpure
      exact .inl ⟨rfl, (Takes.string (reads_skipString_iff.mp hstring)).of_blanks hmark⟩
    split at hmatch
    · exact hscalar hmatch fun hrun => .number (skipNumber_sound hrun)
    split at hmatch
    · exact hscalar hmatch fun hrun => reads_exactly_iff.mp hrun ▸ .word (by decide)
    split at hmatch
    · exact hscalar hmatch fun hrun => reads_exactly_iff.mp hrun ▸ .word (by decide)
    split at hmatch
    · exact hscalar hmatch fun hrun => reads_exactly_iff.mp hrun ▸ .word (by decide)
    · obtain ⟨_, m, hrefuse, -⟩ := reads_bind_iff.mp hmatch
      exact absurd hrefuse not_reads_refuse

/-! ## The loop takes values only -/

/-- What is left to be taken while brackets are open: of each, what follows up to its end. -/
def Closing : List Bracket → List UInt8 → List UInt8 → Prop
  | [], s, rest => s = rest
  | b :: outer, s, rest => ∃ m, Takes (.others b) s m ∧ Closing outer m rest

/-- What the loop takes at a place inside the open brackets. -/
def After (opened : List Bracket) : Place → List UInt8 → List UInt8 → Prop
  | .next, s, rest => Closing opened s rest
  | .value, s, rest => ∃ m, Takes .value s m ∧ Closing opened m rest
  | .first, s, rest => (∃ m, Mark 0x5D s m ∧ Closing opened (0x5D :: m) rest) ∨
      ∃ m, Takes .value s m ∧ Closing opened m rest
  | .firstName, s, rest => (∃ m, Mark 0x7D s m ∧ Closing opened (0x7D :: m) rest) ∨
      ∃ v m, NameText s v ∧ Takes .value v m ∧ Closing opened m rest

section
variable {fuel : Nat} {opened : List Bracket}
  (ih : ∀ opened place s, Reads (skipFrom fuel opened place) s () rest → After opened place s rest)
include ih

/-- The turn behind a value in a bracket: another value, or the end of the bracket. -/
theorem after_next {b : Bracket} {outer : List Bracket}
    (h : Reads (skipFrom (fuel + 1) (b :: outer) .next) s () rest) :
    Closing (b :: outer) s rest := by
  obtain ⟨o, m, hpeek, hmatch⟩ := reads_bind_iff.mp h
  split at hmatch
  · obtain ⟨-, t, rfl, hmark⟩ := hpeek.mark
    obtain ⟨⟨⟩, m, hdrop, hrun⟩ := reads_bind_iff.mp hmatch
    obtain rfl : t = m := reads_drop_iff.mp hdrop
    cases b with
    | array =>
      obtain ⟨m, hvalue, m', hothers, hclosing⟩ := ih _ _ _ hrun
      exact ⟨m', .element hmark hvalue hothers, hclosing⟩
    | object =>
      obtain ⟨⟨⟩, v, hname, hrun⟩ := reads_bind_iff.mp hrun
      obtain ⟨m, hvalue, m', hothers, hclosing⟩ := ih _ _ _ hrun
      exact ⟨m', .member hmark (reads_skipName_iff.mp hname) hvalue hothers, hclosing⟩
  · obtain ⟨-, t, rfl, hmark⟩ := hpeek.mark
    split at hmatch
    · rename_i hclose
      subst hclose
      obtain ⟨⟨⟩, m, hdrop, hrun⟩ := reads_bind_iff.mp hmatch
      obtain rfl : t = m := reads_drop_iff.mp hdrop
      exact ⟨t, .close b hmark, ih _ _ _ hrun⟩
    · exact absurd hmatch not_reads_refuse
  · exact absurd hmatch not_reads_refuse

/-- The turn behind the brace of an object. -/
theorem after_firstName (h : Reads (skipFrom (fuel + 1) opened .firstName) s () rest) :
    After opened .firstName s rest := by
  obtain ⟨o, m, hpeek, hif⟩ := reads_bind_iff.mp h
  split at hif
  · rename_i ho
    subst ho
    obtain ⟨-, t, rfl, hmark⟩ := hpeek.mark
    exact .inl ⟨t, hmark, ih _ _ _ hif⟩
  · obtain ⟨rfl, -⟩ := reads_peekToken_iff.mp hpeek
    obtain ⟨⟨⟩, v, hname, hrun⟩ := reads_bind_iff.mp hif
    obtain ⟨m, hvalue, hclosing⟩ := ih _ _ _ hrun
    exact .inr ⟨v, m, (reads_skipName_iff.mp hname).of_blanks (blanks_dropWhile s), hvalue,
      hclosing⟩

/-- The turn behind the bracket of an array. -/
theorem after_first (h : Reads (skipFrom (fuel + 1) opened .first) s () rest) :
    After opened .first s rest := by
  obtain ⟨o, m, hpeek, hif⟩ := reads_bind_iff.mp h
  split at hif
  · rename_i ho
    subst ho
    obtain ⟨-, t, rfl, hmark⟩ := hpeek.mark
    exact .inl ⟨t, hmark, ih _ _ _ hif⟩
  · obtain ⟨rfl, -⟩ := reads_peekToken_iff.mp hpeek
    obtain ⟨m, hvalue, hclosing⟩ := ih _ _ _ hif
    exact .inr ⟨m, hvalue.of_blanks (blanks_dropWhile s), hclosing⟩

/-- The turn at a value: the whole of it, or the bracket that opens it. -/
theorem after_value (h : Reads (skipFrom (fuel + 1) opened .value) s () rest) :
    After opened .value s rest := by
  obtain ⟨o, m, hhead, hmatch⟩ := reads_bind_iff.mp h
  rcases skipHead_sound hhead with ⟨rfl, hvalue⟩ | ⟨b, rfl, hmark⟩
  · exact ⟨m, hvalue, ih _ _ _ hmatch⟩
  cases b with
  | array =>
    rcases ih _ _ _ hmatch with ⟨t, hclose, m', hothers, hclosing⟩
      | ⟨m', hvalue, m'', hothers, hclosing⟩
    · obtain rfl := hothers.of_close (b := .array)
      exact ⟨_, (Takes.empty .array hclose).of_blanks hmark, hclosing⟩
    · exact ⟨_, (Takes.array hvalue hothers).of_blanks hmark, hclosing⟩
  | object =>
    rcases ih _ _ _ hmatch with ⟨t, hclose, m', hothers, hclosing⟩ |
      ⟨v, m', hname, hvalue, m'', hothers, hclosing⟩
    · obtain rfl := hothers.of_close (b := .object)
      exact ⟨_, (Takes.empty .object hclose).of_blanks hmark, hclosing⟩
    · exact ⟨_, (Takes.object hname hvalue hothers).of_blanks hmark, hclosing⟩

end

/-- What the loop takes is told by the grammar, by induction on the turns. -/
theorem skipFrom_sound {fuel : Nat} {opened : List Bracket} {place : Place}
    (h : Reads (skipFrom fuel opened place) s () rest) : After opened place s rest := by
  induction fuel generalizing opened place s with
  | zero => exact absurd h not_reads_refuse
  | succ fuel ih =>
    have ih : ∀ opened place s, Reads (skipFrom fuel opened place) s () rest →
        After opened place s rest :=
      fun _ _ _ => ih
    cases place with
    | next =>
      cases opened with
      | nil => exact (reads_pure_iff.mp h).2
      | cons b outer => exact after_next ih h
    | firstName => exact after_firstName ih h
    | first => exact after_first ih h
    | value => exact after_value ih h

/-! ## The loop takes every value -/

/-- Behind a value the loop goes on to the end of the open brackets, if it is given enough turns. -/
def GoesOn (opened : List Bracket) (s rest : List UInt8) : Prop :=
  ∀ fuel, 4 * s.length + 1 ≤ fuel → Reads (skipFrom fuel opened .next) s () rest

/-- The loop takes the piece of this category, if it goes on behind it. -/
def Skips : Category → List UInt8 → List UInt8 → Prop
  | .value, s, m => Stops m → ∀ opened rest, GoesOn opened m rest →
      ∀ fuel, 4 * s.length + 2 ≤ fuel → Reads (skipFrom fuel opened .value) s () rest
  | .others b, s, m => Stops s ∧ ∀ outer rest, GoesOn outer m rest → GoesOn (b :: outer) s rest

theorem reads_skipHead_open (b : Bracket) (s : List UInt8) :
    Reads skipHead (b.opening :: s) (some b) s := by
  cases b <;> exact (reads_peekToken (by decide) s).bind ((reads_drop _ _).bind (reads_pure _ _))

theorem reads_skipHead_number (h : NumberText s rest) (hrest : Stops rest) :
    Reads skipHead s none rest := by
  obtain ⟨b, t, rfl, hb⟩ := h.exists_head
  have hnumber : (decide (b = 0x2D) || isDigitByte b) = true := by simpa using hb
  have hother : ∀ c : UInt8, (decide (c = 0x2D) || isDigitByte c) = false → b ≠ c := by
    rintro c hc rfl
    rw [hnumber] at hc
    cases hc
  refine (reads_peekToken_number hb _).bind ?_
  dsimp only
  rw [if_neg (hother _ rfl), if_neg (hother _ rfl), if_neg (hother _ rfl), if_pos hnumber]
  exact (reads_skipNumber_of h hrest).bind (reads_pure _ _)

theorem reads_skipHead_word {w : String} (hw : w ∈ ["null", "true", "false"]) :
    Reads skipHead (ascii w ++ rest) none rest := by
  simp only [List.mem_cons, List.not_mem_nil, or_false] at hw
  rcases hw with rfl | rfl | rfl <;>
    exact (reads_peekToken (by decide) _).bind ((reads_exactly_iff.mpr rfl).bind (reads_pure _ _))

theorem reads_skipHead_string (h : Undecoded s rest) : Reads skipHead (0x22 :: s) none rest :=
  (reads_peekToken (by decide) _).bind ((reads_drop _ _).bind
    ((reads_skipString_iff.mpr h).bind (reads_pure _ _)))

theorem Skips.of_scalar {m : List UInt8} (hlt : m.length < s.length)
    (h : Stops m → Reads skipHead s none m) : Skips .value s m := by
  intro hm opened rest hgoes fuel hfuel
  obtain ⟨fuel, rfl⟩ := Nat.exists_eq_add_one_of_ne_zero (Nat.ne_zero_of_lt hfuel)
  exact (h hm).bind (hgoes fuel (by omega))

/-- Blanks in front of a value do not matter. -/
theorem reads_skipFrom_value_iff {m : List UInt8} {fuel : Nat} {opened : List Bracket}
    (hs : Blanks s m) :
    Reads (skipFrom fuel opened .value) s () rest ↔
      Reads (skipFrom fuel opened .value) m () rest := by
  cases fuel with
  | zero => exact ⟨fun h => absurd h not_reads_refuse, fun h => absurd h not_reads_refuse⟩
  | succ fuel =>
    have hhead : ∀ o m', Reads skipHead s o m' ↔ Reads skipHead m o m' := fun _ _ =>
      reads_blanks_iff hs
    have hturn : ∀ s, Reads (skipFrom (fuel + 1) opened .value) s () rest ↔
        ∃ o m', Reads skipHead s o m' ∧ _ := fun _ => reads_bind_iff
    rw [hturn, hturn]
    simp only [hhead]

/-- The end of the innermost bracket. -/
theorem goesOn_close {b : Bracket} {outer : List Bracket} {t : List UInt8}
    (hmark : Mark b.close s t) (hgoes : GoesOn outer t rest) : GoesOn (b :: outer) s rest := by
  intro fuel hfuel
  obtain ⟨fuel, rfl⟩ := Nat.exists_eq_add_one_of_ne_zero (Nat.ne_zero_of_lt hfuel)
  have hlt := hmark.length_lt
  refine (Mark.peekToken hmark b.isBlankByte_close).bind ?_
  have hrun : Reads (skipFrom fuel outer .next) t () rest := hgoes fuel (by omega)
  cases b <;> exact (reads_drop _ _).bind hrun

/-- **Every value of the grammar is passed over.** -/
theorem skips_of_takes {c : Category} {m : List UInt8} (h : Takes c s m) : Skips c s m := by
  induction h with
  | blank hb _ ih =>
    intro hm opened rest hgoes fuel hfuel
    rw [List.length_cons] at hfuel
    exact (reads_skipFrom_value_iff (.cons hb (.nil _))).mpr
      (ih hm opened rest hgoes fuel (by omega))
  | word hw => exact .of_scalar (Takes.word hw).length_lt fun _ => reads_skipHead_word hw
  | number h => exact .of_scalar h.length_lt fun hm => reads_skipHead_number h hm
  | string h => exact .of_scalar (Takes.string h).length_lt fun _ => reads_skipHead_string h
  | @empty s m b hmark =>
    intro hm opened rest hgoes fuel hfuel
    rw [List.length_cons] at hfuel
    obtain ⟨fuel, rfl⟩ : ∃ n, fuel = n + 2 := ⟨fuel - 2, by omega⟩
    refine (reads_skipHead_open b s).bind ?_
    -- the bracket closes at once, and the byte that closes it stays for the next turn
    have hlt := hmark.length_lt
    have hnext : Reads (skipFrom fuel (b :: opened) .next) (b.close :: m) () rest :=
      goesOn_close (.nil _) hgoes fuel (by simp only [List.length_cons]; omega)
    cases b <;> exact (Mark.peekToken hmark (by decide)).bind hnext
  | @array s m m' hvalue hothers ihv iho =>
    intro hm opened rest hgoes fuel hfuel
    rw [List.length_cons] at hfuel
    obtain ⟨fuel, rfl⟩ : ∃ n, fuel = n + 2 := ⟨fuel - 2, by omega⟩
    refine (reads_skipHead_open .array s).bind ?_
    obtain ⟨b, t, hmark, hblank, hclose⟩ := hvalue.exists_head rfl
    refine (Mark.peekToken hmark hblank).bind ?_
    rw [if_neg (by simpa using hclose)]
    exact (reads_skipFrom_value_iff hmark).mp
      (ihv iho.1 (.array :: opened) rest (iho.2 opened rest hgoes) fuel (by omega))
  | @object s v m m' hname hvalue hothers ihv iho =>
    intro hm opened rest hgoes fuel hfuel
    rw [List.length_cons] at hfuel
    obtain ⟨fuel, rfl⟩ : ∃ n, fuel = n + 2 := ⟨fuel - 2, by omega⟩
    refine (reads_skipHead_open .object s).bind ?_
    have hlt := hname.length_lt
    obtain ⟨inner, colon, hmark, hinner, hcolon⟩ := hname
    refine (Mark.peekToken hmark (by decide)).bind ?_
    rw [if_neg (by decide)]
    exact (reads_skipName_iff.mpr ⟨inner, colon, .nil _, hinner, hcolon⟩).bind
      (ihv iho.1 (.object :: opened) rest (iho.2 opened rest hgoes) fuel (by omega))
  | close b hmark =>
    refine ⟨hmark.stops ?_, fun outer rest hgoes => goesOn_close hmark hgoes⟩
    cases b <;> decide
  | @element s v m m' hcomma hvalue hothers ihv iho =>
    refine ⟨hcomma.stops (by decide), fun outer rest hgoes fuel hfuel => ?_⟩
    obtain ⟨fuel, rfl⟩ := Nat.exists_eq_add_one_of_ne_zero (Nat.ne_zero_of_lt hfuel)
    have hlt := hcomma.length_lt
    exact (Mark.peekToken hcomma (by decide)).bind ((reads_drop _ _).bind
      (ihv iho.1 (.array :: outer) rest (iho.2 outer rest hgoes) fuel (by omega)))
  | @member s n v m m' hcomma hname hvalue hothers ihv iho =>
    refine ⟨hcomma.stops (by decide), fun outer rest hgoes fuel hfuel => ?_⟩
    obtain ⟨fuel, rfl⟩ := Nat.exists_eq_add_one_of_ne_zero (Nat.ne_zero_of_lt hfuel)
    have hlt := hcomma.length_lt
    have hlt' := hname.length_lt
    exact (Mark.peekToken hcomma (by decide)).bind ((reads_drop _ _).bind
      ((reads_skipName_iff.mpr hname).bind
        (ihv iho.1 (.object :: outer) rest (iho.2 outer rest hgoes) fuel (by omega))))

theorem skipValue_sound (h : Reads skipValue s () rest) : Takes .value s rest := by
  obtain ⟨t, m, hget, hrun⟩ := reads_bind_iff.mp h
  obtain ⟨rfl, rfl⟩ := reads_get_iff.mp hget
  obtain ⟨m, hvalue, rfl⟩ := skipFrom_sound hrun
  exact hvalue

theorem reads_skipValue_of (h : Takes .value s rest) (hrest : Stops rest) :
    Reads skipValue s () rest := by
  have hgoes : GoesOn [] rest rest := fun fuel hfuel => by
    obtain ⟨fuel, rfl⟩ := Nat.exists_eq_add_one_of_ne_zero (Nat.ne_zero_of_lt hfuel)
    exact reads_pure _ _
  exact (reads_get _).bind (skips_of_takes h hrest [] rest hgoes _ (by omega))

end Reader
end Cutover.Json
