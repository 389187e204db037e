import Cutover.Proofs.Json.Skip

/-! # Records are read by their grammar

The reader of a record takes an object or an array.  Of an object it goes through the members and
puts each into what has been read so far; what one member does is a step (`Follows`), and what the
members of an object do is the steps one after the other (`Folds`).
-/

namespace Cutover.Json.Reader

variable {α β σ : Type} {s rest : List UInt8} {b : UInt8}

/-! ## Enumerations -/

theorem reads_null_iff : Reads null s () rest ↔ Blanks s (ascii "null" ++ rest) := by
  constructor
  · intro h
    obtain ⟨o, m, hpeek, hif⟩ := reads_bind_iff.mp h
    split at hif
    · rename_i ho
      subst ho
      obtain ⟨-, t, rfl, hmark⟩ := hpeek.mark
      exact reads_exactly_iff.mp hif ▸ hmark
    · exact absurd hif not_reads_refuseKind
  · intro h
    have hmark : Mark 0x6E s ((ascii "null").tail ++ rest) := h
    refine (Mark.peekToken hmark (by decide)).bind ?_
    rw [if_pos rfl]
    exact reads_exactly_iff.mpr rfl

theorem accepts_variant (ofName? : String → Option α) :
    Accepts (variant ofName?) (VariantText ofName?) where
  begins := VariantText.begins
  blanks := reads_blanks_iff
  length_le := VariantText.length_le
  sound := by
    intro s a rest h
    obtain ⟨o, m, hpeek, hmatch⟩ := reads_bind_iff.mp h
    split at hmatch
    · obtain ⟨-, t, rfl, hmark⟩ := hpeek.mark
      obtain ⟨name, m', hstring, hlookup⟩ := reads_bind_iff.mp hmatch
      beta_reduce at hlookup
      split at hlookup
      · rename_i hname
        obtain ⟨rfl, rfl⟩ := reads_pure_iff.mp hlookup
        exact ⟨name, hname, .inl ((reads_string_iff.mp hstring).of_blanks hmark)⟩
      · exact absurd hlookup not_reads_refuse
    · obtain ⟨-, t, rfl, hmark⟩ := hpeek.mark
      obtain ⟨⟨⟩, m, hdrop, hafter⟩ := reads_bind_iff.mp hmatch
      obtain rfl : t = m := reads_drop_iff.mp hdrop
      obtain ⟨name, colon, hstring, hafter⟩ := reads_bind_iff.mp hafter
      obtain ⟨a', m', hlookup, hafter⟩ := reads_bind_iff.mp hafter
      beta_reduce at hlookup
      split at hlookup
      · rename_i hname
        obtain ⟨rfl, rfl⟩ := reads_pure_iff.mp hlookup
        obtain ⟨⟨⟩, value, hcolon, hafter⟩ := reads_bind_iff.mp hafter
        obtain ⟨⟨⟩, close, hnull, hafter⟩ := reads_bind_iff.mp hafter
        obtain ⟨⟨⟩, m'', hclose, hpure⟩ := reads_bind_iff.mp hafter
        obtain ⟨rfl, rfl⟩ := reads_pure_iff.mp hpure
        exact ⟨name, hname, .inr ⟨t, colon, value, close, hmark, reads_string_iff.mp hstring,
          (reads_token_iff rfl).mp hcolon, reads_null_iff.mp hnull,
          (reads_token_iff rfl).mp hclose⟩⟩
      · exact absurd hlookup not_reads_refuse
    · exact absurd hmatch not_reads_refuse
  complete := by
    rintro s a rest ⟨name, hname, hstring |
      ⟨t, colon, value, close, hmark, hstring, hcolon, hnull, hclose⟩⟩ -
    · obtain ⟨inner, hmark, hinner⟩ := hstring
      have hstring : StringText (0x22 :: inner) name rest := ⟨inner, .nil _, hinner⟩
      refine (Mark.peekToken hmark (by decide)).bind ((reads_string_iff.mpr hstring).bind ?_)
      simp only [hname]
      exact reads_pure _ _
    · refine (Mark.peekToken hmark (by decide)).bind ((reads_drop _ _).bind
        ((reads_string_iff.mpr hstring).bind ?_))
      simp only [hname]
      exact (reads_pure _ _).bind (((reads_token_iff rfl).mpr hcolon).bind
        ((reads_null_iff.mpr hnull).bind (((reads_token_iff rfl).mpr hclose).bind
          (reads_pure _ _))))

/-! ## Members -/

/-- The reader of a member's value does this step. -/
structure Follows (member : String → σ → Reader σ) (step : Entry → σ → σ → Prop) : Prop where
  length_le {e : Entry} {fields fields' : σ} : step e fields fields' →
    e.behind.length ≤ e.value.length
  sound {name : String} {fields fields' : σ} {s rest : List UInt8} :
    Reads (member name fields) s fields' rest →
      ∃ value, Mark 0x3A s value ∧ step ⟨name, value, rest⟩ fields fields'
  complete {name : String} {fields fields' : σ} {s value rest : List UInt8} : Mark 0x3A s value →
    step ⟨name, value, rest⟩ fields fields' → Stops rest → Reads (member name fields) s fields' rest

/-- The steps of the members, one after the other. -/
inductive Folds (step : Entry → σ → σ → Prop) : List Entry → σ → σ → Prop where
  | nil (fields : σ) : Folds step [] fields fields
  | cons {e : Entry} {es : List Entry} {fields middle fields' : σ} : step e fields middle →
      Folds step es middle fields' → Folds step (e :: es) fields fields'

theorem folds_nil_iff {step : Entry → σ → σ → Prop} {fields fields' : σ} :
    Folds step [] fields fields' ↔ fields = fields' := by
  constructor
  · rintro ⟨⟩
    rfl
  · rintro rfl
    exact .nil _

theorem folds_cons_iff {step : Entry → σ → σ → Prop} {e : Entry} {es : List Entry}
    {fields fields' : σ} : Folds step (e :: es) fields fields' ↔ ∃ middle, step e fields middle ∧
    Folds step es middle fields' := by
  constructor
  · rintro (_ | ⟨hstep, hfolds⟩)
    exact ⟨_, hstep, hfolds⟩
  · rintro ⟨middle, hstep, hfolds⟩
    exact .cons hstep hfolds

variable {member : String → σ → Reader σ} {step : Entry → σ → σ → Prop} {fuel : Nat} {first : Bool}
  {fields fields' : σ}

theorem Folds.length_le (hf : Follows member step) {es : List Entry}
    (h : Folds step es fields fields') : ∀ e ∈ es, e.behind.length ≤ e.value.length := by
  induction h with
  | nil => exact nofun
  | cons hstep _ ih => exact List.forall_mem_cons.mpr ⟨hf.length_le hstep, ih⟩

/-- What is read from a member's name on is the member and the others. -/
theorem named_sound (hf : Follows member step)
    (ih : ∀ fields s, Reads (members member fuel false fields) s fields' rest →
      ∃ es after, rest = 0x7D :: after ∧ Members false s es after ∧ Folds step es fields fields')
    (h : Reads (do
      if (← peekToken) = some 0x22 then
        drop
        let name ← stringBody
        members member fuel false (← member name fields)
      else refuse .malformed) s fields' rest) :
    ∃ e es colon after, rest = 0x7D :: after ∧ StringText s e.name colon ∧ Mark 0x3A colon e.value ∧
      Members false e.behind es after ∧ Folds step (e :: es) fields fields' := by
  obtain ⟨o, m, hpeek, hif⟩ := reads_bind_iff.mp h
  split at hif
  · rename_i ho
    subst ho
    obtain ⟨-, t, rfl, hmark⟩ := hpeek.mark
    obtain ⟨⟨⟩, m, hdrop, hafter⟩ := reads_bind_iff.mp hif
    obtain rfl : t = m := reads_drop_iff.mp hdrop
    obtain ⟨name, colon, hbody, hafter⟩ := reads_bind_iff.mp hafter
    obtain ⟨middle, behind, hmember, hafter⟩ := reads_bind_iff.mp hafter
    obtain ⟨value, hcolon, hstep⟩ := hf.sound hmember
    obtain ⟨es, after, hrest, hmembers, hfolds⟩ := ih _ _ hafter
    exact ⟨⟨name, value, behind⟩, es, colon, after, hrest,
      ⟨t, hmark, reads_stringBody_iff.mp hbody⟩, hcolon, hmembers, .cons hstep hfolds⟩
  · exact absurd hif not_reads_refuse

/-- The members that are read are members of the object, and each has done its step. -/
theorem members_sound (hf : Follows member step)
    (h : Reads (members member fuel first fields) s fields' rest) :
    ∃ es after, rest = 0x7D :: after ∧ Members first s es after ∧ Folds step es fields fields' := by
  induction fuel generalizing first fields s with
  | zero => exact absurd h not_reads_refuse
  | succ fuel ih =>
    obtain ⟨o, m, hpeek, hmatch⟩ := reads_bind_iff.mp h
    split at hmatch
    · obtain ⟨-, t, rfl, hmark⟩ := hpeek.mark
      obtain ⟨rfl, rfl⟩ := reads_pure_iff.mp hmatch
      exact ⟨[], t, rfl, .close hmark, .nil _⟩
    · obtain ⟨-, t, rfl, hmark⟩ := hpeek.mark
      dsimp only at hmatch
      cases first with
      | true =>
        obtain ⟨e, es, colon, after, hrest, hstring, hcolon, hmembers, hfolds⟩ :=
          named_sound hf (fun _ _ => ih) hmatch
        exact ⟨e :: es, after, hrest, .first (hstring.of_blanks hmark) hcolon hmembers, hfolds⟩
      | false =>
        simp only [Bool.not_false, if_true] at hmatch
        split at hmatch
        · rename_i hcomma
          subst hcomma
          obtain ⟨⟨⟩, m, hdrop, hafter⟩ := reads_bind_iff.mp hmatch
          obtain rfl : t = m := reads_drop_iff.mp hdrop
          obtain ⟨e, es, colon, after, hrest, hstring, hcolon, hmembers, hfolds⟩ :=
            named_sound hf (fun _ _ => ih) hafter
          exact ⟨e :: es, after, hrest, .next hmark hstring hcolon hmembers, hfolds⟩
        · obtain ⟨_, m, hrefuse, -⟩ := reads_bind_iff.mp hmatch
          exact absurd hrefuse not_reads_refuse
    · exact absurd hmatch not_reads_refuse

/-- A member is read from its name on, and then the others. -/
theorem reads_named_of (hf : Follows member step) {es : List Entry}
    {inner colon value behind after : List UInt8} {name : String} {middle : σ}
    (hinner : Characters inner (textBytes name) colon) (hcolon : Mark 0x3A colon value)
    (hstep : step ⟨name, value, behind⟩ fields middle) (hmembers : Members false behind es after)
    (hrest : Reads (members member fuel false middle) behind fields' rest) : Reads (do
      if (← peekToken) = some 0x22 then
        drop
        let name ← stringBody
        members member fuel false (← member name fields)
      else refuse .malformed) (0x22 :: inner) fields' rest := by
  refine (reads_peekToken (by decide) _).bind ?_
  rw [if_pos rfl]
  exact (reads_drop _ _).bind ((reads_stringBody_iff.mpr hinner).bind
    ((hf.complete hcolon hstep hmembers.stops).bind hrest))

/-- The members of an object are read, and each does its step. -/
theorem reads_members_of (hf : Follows member step) {es : List Entry} (h : Members first s es rest)
    (hfolds : Folds step es fields fields') (hfuel : es.length < fuel) :
    Reads (members member fuel first fields) s fields' (0x7D :: rest) := by
  induction h generalizing fields fuel with
  | close hmark =>
    cases hfolds
    obtain ⟨fuel, rfl⟩ := Nat.exists_eq_add_of_lt hfuel
    exact (Mark.peekToken hmark (by decide)).bind (reads_pure _ _)
  | first hstring hcolon hmembers ih =>
    cases hfolds with
    | cons hstep hfolds =>
      obtain ⟨fuel, rfl⟩ := Nat.exists_eq_succ_of_ne_zero (Nat.ne_zero_of_lt hfuel)
      obtain ⟨inner, hmark, hinner⟩ := hstring
      have hrest := ih hfolds (Nat.lt_of_succ_lt_succ hfuel)
      exact (Mark.peekToken hmark (by decide)).bind
        (reads_named_of hf hinner hcolon hstep hmembers hrest)
  | next hcomma hstring hcolon hmembers ih =>
    cases hfolds with
    | cons hstep hfolds =>
      obtain ⟨fuel, rfl⟩ := Nat.exists_eq_succ_of_ne_zero (Nat.ne_zero_of_lt hfuel)
      obtain ⟨inner, hmark, hinner⟩ := hstring
      have hrest := ih hfolds (Nat.lt_of_succ_lt_succ hfuel)
      refine (Mark.peekToken hcomma (by decide)).bind
        ((reads_drop _ _).bind ((reads_blanks_iff hmark).mpr ?_))
      exact reads_named_of hf hinner hcolon hstep hmembers hrest

/-! ## Records -/

/-- A record is an object whose members fold to what makes it, or an array of its fields. -/
def RecordText (step : Entry → σ → σ → Prop) (empty : σ) (finish : σ → Option α)
    (elements : Phrase α) : Phrase α := fun s a rest =>
  (∃ es fields, ObjectText s es rest ∧ Folds step es empty fields ∧ finish fields = some a) ∨
    ∃ inner close, Mark 0x5B s inner ∧ elements inner a close ∧ Mark 0x5D close rest

/-- A record is read by its grammar, whatever follows. -/
theorem reads_record_iff (hf : Follows member step) {finish : σ → Option α} {elements : Reader α}
    {L : Phrase α} {a : α} (hsound : ∀ {s rest}, Reads elements s a rest → L s a rest)
    (hcomplete : ∀ {s rest}, L s a rest → Stops rest → Reads elements s a rest) :
    Reads (record fields member finish elements) s a rest ↔
    RecordText step fields finish L s a rest := by
  constructor
  · intro h
    obtain ⟨o, m, hpeek, hmatch⟩ := reads_bind_iff.mp h
    split at hmatch
    · obtain ⟨-, t, rfl, hmark⟩ := hpeek.mark
      obtain ⟨⟨⟩, m, hdrop, hafter⟩ := reads_bind_iff.mp hmatch
      obtain rfl : t = m := reads_drop_iff.mp hdrop
      obtain ⟨u, m, hget, hafter⟩ := reads_bind_iff.mp hafter
      obtain ⟨rfl, rfl⟩ := reads_get_iff.mp hget
      obtain ⟨last, m, hmembers, hafter⟩ := reads_bind_iff.mp hafter
      obtain ⟨es, after, rfl, hes, hfolds⟩ := members_sound hf hmembers
      split at hafter
      · exact absurd hafter not_reads_refuse
      · rename_i hfinish
        obtain ⟨⟨⟩, m, hbrace, hpure⟩ := reads_bind_iff.mp hafter
        obtain ⟨rfl, rfl⟩ := reads_pure_iff.mp hpure
        have hbrace := (reads_token_iff rfl).mp hbrace
        obtain ⟨-, rfl⟩ := Blanks.unique (.nil _) hbrace rfl rfl
        exact .inl ⟨es, last, ⟨t, hmark, hes⟩, hfolds, hfinish⟩
    · obtain ⟨-, t, rfl, hmark⟩ := hpeek.mark
      obtain ⟨⟨⟩, m, hdrop, hafter⟩ := reads_bind_iff.mp hmatch
      obtain rfl : t = m := reads_drop_iff.mp hdrop
      obtain ⟨a', m, helements, hafter⟩ := reads_bind_iff.mp hafter
      obtain ⟨⟨⟩, m', hbracket, hpure⟩ := reads_bind_iff.mp hafter
      obtain ⟨rfl, rfl⟩ := reads_pure_iff.mp hpure
      exact .inr ⟨t, m, hmark, hsound helements, (reads_token_iff rfl).mp hbracket⟩
    · exact absurd hmatch not_reads_refuseKind
  · rintro (⟨es, last, ⟨inner, hmark, hes⟩, hfolds, hfinish⟩ |
      ⟨inner, close, hmark, helements, hbracket⟩)
    · have hfuel : es.length < inner.length + 1 :=
        Nat.lt_succ_of_lt (hes.length_lt (hfolds.length_le hf))
      refine (Mark.peekToken hmark (by decide)).bind ((reads_drop _ _).bind ((reads_get _).bind
        ((reads_members_of hf hes hfolds hfuel).bind ?_)))
      simp only [hfinish]
      exact ((reads_token_iff rfl).mpr (.nil _)).bind (reads_pure _ _)
    · exact (Mark.peekToken hmark (by decide)).bind ((reads_drop _ _).bind
        ((hcomplete helements (hbracket.stops (by decide))).bind
          (((reads_token_iff rfl).mpr hbracket).bind (reads_pure _ _))))

/-! ## Elements of arrays of fields -/

variable {r : Reader α} {L : Phrase α} {a : α}

theorem element_sound (hr : Accepts r L) (h : Reads (element true r) s a rest) : L s a rest := by
  obtain ⟨o, m, hpeek, hmatch⟩ := reads_bind_iff.mp h
  split at hmatch
  · exact absurd hmatch not_reads_refuse
  · obtain ⟨rfl, -⟩ := reads_peekToken_iff.mp hpeek
    exact hr.sound ((hr.blanks (blanks_dropWhile s)).mpr hmatch)
  · exact absurd hmatch not_reads_refuse

theorem reads_element_of (hr : Accepts r L) (h : L s a rest) (hrest : Stops rest) :
    Reads (element true r) s a rest := by
  obtain ⟨b, t, hmark, hblank, hclose⟩ := hr.begins h
  refine (Mark.peekToken hmark hblank).bind ?_
  have hvalue := (hr.blanks hmark).mp (hr.complete h hrest)
  split
  · rename_i hb
    exact absurd (Option.some.inj hb) hclose
  · exact hvalue
  · rename_i hnone
    cases hnone

theorem next_element_sound (hr : Accepts r L) (h : Reads (element false r) s a rest) :
    ∃ m, Mark 0x2C s m ∧ L m a rest := by
  obtain ⟨o, m, hpeek, hmatch⟩ := reads_bind_iff.mp h
  split at hmatch
  · exact absurd hmatch not_reads_refuse
  · obtain ⟨-, t, rfl, hmark⟩ := hpeek.mark
    simp only [Bool.false_eq_true, if_false] at hmatch
    split at hmatch
    · rename_i hcomma
      subst hcomma
      obtain ⟨⟨⟩, m, hdrop, hafter⟩ := reads_bind_iff.mp hmatch
      obtain rfl : t = m := reads_drop_iff.mp hdrop
      obtain ⟨o, m, hpeek, hmatch⟩ := reads_bind_iff.mp hafter
      obtain ⟨rfl, -⟩ := reads_peekToken_iff.mp hpeek
      split at hmatch
      · exact absurd hmatch not_reads_refuse
      · exact ⟨t, hmark, hr.sound ((hr.blanks (blanks_dropWhile t)).mpr hmatch)⟩
    · exact absurd hmatch not_reads_refuse
  · exact absurd hmatch not_reads_refuse

theorem reads_next_element_of (hr : Accepts r L) {m : List UInt8} (hcomma : Mark 0x2C s m)
    (h : L m a rest) (hrest : Stops rest) : Reads (element false r) s a rest := by
  obtain ⟨b, t, hmark, hblank, hclose⟩ := hr.begins h
  refine (Mark.peekToken hcomma (by decide)).bind ((reads_drop _ _).bind
    ((Mark.peekToken hmark hblank).bind ?_))
  have hvalue := (hr.blanks hmark).mp (hr.complete h hrest)
  split
  · rename_i hb
    exact absurd (Option.some.inj hb) hclose
  · exact hvalue

/-! ## Fields -/

theorem field_sound (hr : Accepts r L) {known : Option α} (h : Reads (field known r) s a rest) :
    known = none ∧ ∃ value, Mark 0x3A s value ∧ L value a rest := by
  rw [field] at h
  split at h
  · exact absurd h not_reads_refuse
  · rename_i hknown
    obtain ⟨⟨⟩, value, hcolon, hvalue⟩ := reads_bind_iff.mp h
    exact ⟨by simpa using hknown, value, (reads_token_iff rfl).mp hcolon, hr.sound hvalue⟩

theorem reads_field_of (hr : Accepts r L) {value : List UInt8} (hcolon : Mark 0x3A s value)
    (h : L value a rest) (hrest : Stops rest) : Reads (field none r) s a rest :=
  ((reads_token_iff rfl).mpr hcolon).bind (hr.complete h hrest)

theorem skipMember_sound (h : Reads (memberValue skipValue) s () rest) :
    ∃ value, Mark 0x3A s value ∧ Takes .value value rest := by
  obtain ⟨⟨⟩, value, hcolon, hvalue⟩ := reads_bind_iff.mp h
  exact ⟨value, (reads_token_iff rfl).mp hcolon, skipValue_sound hvalue⟩

theorem reads_skipMember_of {value : List UInt8} (hcolon : Mark 0x3A s value)
    (h : Takes .value value rest) (hrest : Stops rest) : Reads (memberValue skipValue) s () rest :=
  ((reads_token_iff rfl).mpr hcolon).bind (reads_skipValue_of h hrest)

/-- A member's value fills a field that was empty. -/
def Fills (L : Phrase α) (known : Option α) (put : α → σ) (e : Entry) (fields' : σ) : Prop :=
  known = none ∧ ∃ a, L e.value a e.behind ∧ fields' = put a

/-- A member's value, whatever it is, changes nothing. -/
def Ignores (fields : σ) (e : Entry) (fields' : σ) : Prop :=
  Takes .value e.value e.behind ∧ fields' = fields

section
variable {known : Option α} {put : α → σ} {name : String} {value : List UInt8}

theorem Fills.length_le (hr : Accepts r L) {e : Entry} (h : Fills L known put e fields') :
    e.behind.length ≤ e.value.length := by
  obtain ⟨-, a, ha, -⟩ := h
  exact hr.length_le ha

theorem fills_sound (hr : Accepts r L)
    (h : Reads (do return put (← field known r)) s fields' rest) :
    ∃ value, Mark 0x3A s value ∧ Fills L known put ⟨name, value, rest⟩ fields' := by
  obtain ⟨a, m, hfield, hpure⟩ := reads_bind_iff.mp h
  obtain ⟨rfl, rfl⟩ := reads_pure_iff.mp hpure
  obtain ⟨hnone, value, hcolon, ha⟩ := field_sound hr hfield
  exact ⟨value, hcolon, hnone, a, ha, rfl⟩

theorem Fills.reads (hr : Accepts r L) (hcolon : Mark 0x3A s value)
    (h : Fills L known put ⟨name, value, rest⟩ fields') (hrest : Stops rest) :
    Reads (do return put (← field known r)) s fields' rest := by
  obtain ⟨rfl, a, ha, rfl⟩ := h
  exact (reads_field_of hr hcolon ha hrest).map put

theorem Ignores.length_le {e : Entry} (h : Ignores fields e fields') :
    e.behind.length ≤ e.value.length :=
  Nat.le_of_lt h.1.length_lt

theorem ignores_sound (h : Reads (do memberValue skipValue; return fields) s fields' rest) :
    ∃ value, Mark 0x3A s value ∧ Ignores fields ⟨name, value, rest⟩ fields' := by
  obtain ⟨⟨⟩, m, hskip, hpure⟩ := reads_bind_iff.mp h
  obtain ⟨rfl, rfl⟩ := reads_pure_iff.mp hpure
  obtain ⟨value, hcolon, hvalue⟩ := skipMember_sound hskip
  exact ⟨value, hcolon, hvalue, rfl⟩

theorem Ignores.reads (hcolon : Mark 0x3A s value) (h : Ignores fields ⟨name, value, rest⟩ fields')
    (hrest : Stops rest) : Reads (do memberValue skipValue; return fields) s fields' rest := by
  obtain ⟨hvalue, rfl⟩ := h
  exact (reads_skipMember_of hcolon hvalue hrest).bind (reads_pure _ _)

end

/-- What the members of one name make of a field: nothing if there are none, and the value of the
only one if the field was empty. -/
def FieldOf (L : Phrase α) (name : String) (es : List Entry) (known known' : Option α) : Prop :=
  (es.filter (·.name = name) = [] ∧ known = known') ∨
    known = none ∧ ∃ a, Once es name L a ∧ known' = some a

theorem fieldOf_nil {name : String} {known known' : Option α} :
    FieldOf L name [] known known' ↔ known = known' := by
  simp [FieldOf, Once]

theorem fieldOf_cons {name : String} {e : Entry} {es : List Entry} {known known' : Option α} :
    FieldOf L name (e :: es) known known' ↔
      if e.name = name then known = none ∧ ∃ a, L e.value a e.behind ∧
      FieldOf L name es (some a) known'
      else FieldOf L name es known known' := by
  split
  · rename_i hname
    simp only [FieldOf, Once, List.filter_cons, hname, decide_true, if_true]
    constructor
    · rintro (⟨⟨⟩, -⟩ | ⟨hknown, a, ⟨e', he, hvalue⟩, rfl⟩)
      obtain ⟨rfl, hnone⟩ := List.cons.inj he
      exact ⟨hknown, a, hvalue, .inl ⟨hnone, rfl⟩⟩
    · rintro ⟨hknown, a, hvalue, ⟨hnone, rfl⟩ | ⟨⟨⟩, -⟩⟩
      exact .inr ⟨hknown, a, ⟨e, by rw [hnone], hvalue⟩, rfl⟩
  · rename_i hname
    simp [FieldOf, Once, hname]

/-- An empty field is filled by the one member of its name. -/
theorem fieldOf_none_iff {name : String} {es : List Entry} :
    FieldOf L name es none (some a) ↔ Once es name L a := by
  simp [FieldOf]

theorem others_nil (known : List String) : Others [] known := nofun

theorem others_cons {e : Entry} {es : List Entry} {known : List String} :
    Others (e :: es) known ↔ (e.name ∉ known → Takes .value e.value e.behind) ∧ Others es known :=
  List.forall_mem_cons

/-! ## Documents -/

/-- A document is read if nothing but blanks is left behind its value. -/
theorem runOn_eq_ok_iff : r.runOn s = .ok a ↔ ∃ rest, Reads r s a rest ∧ Blanks rest [] := by
  have hblank : ∀ rest : List UInt8,
      Blanks rest [] ↔ (rest.dropWhile isBlankByte).isEmpty = true := by
    intro rest
    rw [List.isEmpty_iff]
    exact ⟨fun h => h.dropWhile_congr, fun h => h ▸ blanks_dropWhile rest⟩
  simp only [hblank]
  unfold Reads
  rw [runOn]
  cases r.run s with
  | error f => simp [bind, Except.bind]
  | ok p =>
    obtain ⟨x, rest⟩ := p
    simp only [bind, Except.bind, pure, Except.pure, Except.ok.injEq, Prod.mk.injEq]
    split
    · rename_i hrest
      rw [Except.ok.injEq]
      constructor
      · exact fun h => ⟨rest, ⟨h, rfl⟩, hrest⟩
      · rintro ⟨_, ⟨h, -⟩, -⟩
        exact h
    · rename_i hrest
      constructor
      · rintro ⟨⟩
      · rintro ⟨_, ⟨-, rfl⟩, h⟩
        exact absurd h hrest

end Cutover.Json.Reader
