import Cutover.Event.Codec
import Cutover.Proofs.Json.Record

/-! # Events on the wire by their grammar

An event on the wire, told by the grammar of documents (`IsWire`): an object with the members `id`,
`type` and `direction`, each once and in any order, whose other members are any values; or an array
of the three.  Each of the two readers takes exactly such documents, and they differ in the language
of the direction alone (`runOn_wire_iff`).
-/

namespace Cutover.Event

open Json Reader

variable {δ : Type}

/-- An event at the front of a text, its direction of the language `L`. -/
def WireText (L : Phrase δ) : Phrase (Int64 × EventKind × δ) := fun s (id, kind, d) rest =>
  (∃ es, ObjectText s es rest ∧ Once es "id" IntegerText id ∧
    Once es "type" (VariantText EventKind.ofName?) kind ∧ Once es "direction" L d ∧
      Others es ["id", "type", "direction"]) ∨
  ∃ s₁ s₂ s₃ s₄ s₅ s₆, Mark 0x5B s s₁ ∧ IntegerText s₁ id s₂ ∧ Mark 0x2C s₂ s₃ ∧
    VariantText EventKind.ofName? s₃ kind s₄ ∧ Mark 0x2C s₄ s₅ ∧ L s₅ d s₆ ∧ Mark 0x5D s₆ rest

/-- The whole payload is an event of these parts. -/
def IsWire (L : Phrase δ) (p : Payload) (id : Int64) (kind : EventKind) (d : δ) : Prop :=
  ∃ rest, WireText L p (id, kind, d) rest ∧ Blanks rest []

/-! ## Both readers follow the grammar -/

/-- What one member does to a draft. -/
def Draft.Step (L : Phrase δ) (e : Entry) (d d' : Draft δ) : Prop :=
  if e.name = "id" then Fills IntegerText d.id (fun i => { d with id := some i }) e d'
  else if e.name = "type" then
    Fills (VariantText EventKind.ofName?) d.kind (fun k => { d with kind := some k }) e d'
  else if e.name = "direction" then
    Fills L d.direction (fun x => { d with direction := some x }) e d'
  else Ignores d e d'

variable {L : Phrase δ} {direction : Reader δ}

theorem follows_member (hr : Accepts direction L) :
    Follows (Draft.member direction) (Draft.Step L) where
  length_le := by
    intro e d d' h
    rw [Draft.Step] at h
    split at h
    · exact h.length_le accepts_int64
    split at h
    · exact h.length_le (accepts_variant _)
    split at h
    · exact h.length_le hr
    · exact h.length_le
  sound := by
    intro name d d' s rest h
    unfold Draft.member at h
    split at h
    · exact fills_sound accepts_int64 h
    · exact fills_sound (accepts_variant _) h
    · exact fills_sound hr h
    · rename_i hid htype hdirection
      simp only [Draft.Step, if_neg hid, if_neg htype, if_neg hdirection]
      exact ignores_sound h
  complete := by
    intro name d d' s value rest hcolon hstep hrest
    unfold Draft.member
    split
    · exact Fills.reads accepts_int64 hcolon hstep hrest
    · exact Fills.reads (accepts_variant _) hcolon hstep hrest
    · exact Fills.reads hr hcolon hstep hrest
    · rename_i hid htype hdirection
      simp only [Draft.Step, if_neg hid, if_neg htype, if_neg hdirection] at hstep
      exact hstep.reads hcolon hrest

/-- What the members of an object do to a draft. -/
theorem folds_step_iff {es : List Entry} {d d' : Draft δ} : Folds (Draft.Step L) es d d' ↔
    FieldOf IntegerText "id" es d.id d'.id ∧
      FieldOf (VariantText EventKind.ofName?) "type" es d.kind d'.kind ∧
        FieldOf L "direction" es d.direction d'.direction ∧
        Others es ["id", "type", "direction"] := by
  induction es generalizing d with
  | nil =>
    simp only [folds_nil_iff, fieldOf_nil, others_nil, and_true]
    obtain ⟨id, kind, direction⟩ := d
    obtain ⟨id', kind', direction'⟩ := d'
    simp
  | cons e es ih =>
    simp only [folds_cons_iff, ih, Draft.Step, Fills, Ignores, fieldOf_cons, others_cons]
    by_cases hid : e.name = "id"
    · simp only [hid, if_true]
      grind
    by_cases htype : e.name = "type"
    · simp only [htype, if_true]
      grind
    by_cases hdirection : e.name = "direction"
    · simp only [hdirection, if_true]
      grind
    · grind

theorem finish_eq_some_iff {d : Draft δ} {id : Int64} {kind : EventKind} {x : δ} :
    d.finish = some (id, kind, x) ↔ d.id = some id ∧ d.kind = some kind ∧ d.direction = some x := by
  obtain ⟨id?, kind?, direction?⟩ := d
  cases id? <;> cases kind? <;> cases direction? <;> simp [Draft.finish, bind, Option.bind]

/-- The three fields as the elements of an array. -/
def ElementsText (L : Phrase δ) : Phrase (Int64 × EventKind × δ) := fun s (id, kind, d) rest =>
  ∃ s₁ s₂ s₃ s₄, IntegerText s id s₁ ∧ Mark 0x2C s₁ s₂ ∧ VariantText EventKind.ofName? s₂ kind s₃ ∧
    Mark 0x2C s₃ s₄ ∧ L s₄ d rest

/-- The reader of events takes what the grammar calls one. -/
theorem reads_wire_iff (hr : Accepts direction L) {s rest : List UInt8} {id : Int64}
    {kind : EventKind} {d : δ} :
    Reads (wire direction) s (id, kind, d) rest ↔ WireText L s (id, kind, d) rest := by
  refine (reads_record_iff (L := ElementsText L) (follows_member hr) ?_ ?_).trans (or_congr ?_ ?_)
  · intro s rest h
    obtain ⟨id', s₁, hid, h⟩ := reads_bind_iff.mp h
    obtain ⟨kind', s₃, hkind, h⟩ := reads_bind_iff.mp h
    obtain ⟨d', s₅, hdirection, hpure⟩ := reads_bind_iff.mp h
    obtain ⟨⟨⟩, rfl⟩ := reads_pure_iff.mp hpure
    obtain ⟨s₂, hcomma, hkind⟩ := next_element_sound (accepts_variant _) hkind
    obtain ⟨s₄, hcomma', hdirection⟩ := next_element_sound hr hdirection
    exact ⟨s₁, s₂, s₃, s₄, element_sound accepts_int64 hid, hcomma, hkind, hcomma', hdirection⟩
  · rintro s rest ⟨s₁, s₂, s₃, s₄, hid, hcomma, hkind, hcomma', hdirection⟩ hrest
    exact (reads_element_of accepts_int64 hid (hcomma.stops (by decide))).bind
      ((reads_next_element_of (accepts_variant _) hcomma hkind (hcomma'.stops (by decide))).bind
        ((reads_next_element_of hr hcomma' hdirection hrest).bind (reads_pure _ _)))
  · simp only [folds_step_iff, finish_eq_some_iff]
    constructor
    · rintro ⟨es, ⟨id?, kind?, direction?⟩, hobject, ⟨hid, hkind, hdirection, hothers⟩, rfl,
        rfl, rfl⟩
      exact ⟨es, hobject, fieldOf_none_iff.mp hid, fieldOf_none_iff.mp hkind,
        fieldOf_none_iff.mp hdirection, hothers⟩
    · rintro ⟨es, hobject, hid, hkind, hdirection, hothers⟩
      exact ⟨es, ⟨some id, some kind, some d⟩, hobject, ⟨fieldOf_none_iff.mpr hid,
        fieldOf_none_iff.mpr hkind, fieldOf_none_iff.mpr hdirection, hothers⟩, rfl, rfl, rfl⟩
  · constructor
    · rintro ⟨s₁, s₆, hopen, ⟨s₂, s₃, s₄, s₅, hid, hcomma, hkind, hcomma', hdirection⟩, hclose⟩
      exact ⟨s₁, s₂, s₃, s₄, s₅, s₆, hopen, hid, hcomma, hkind, hcomma', hdirection, hclose⟩
    · rintro ⟨s₁, s₂, s₃, s₄, s₅, s₆, hopen, hid, hcomma, hkind, hcomma', hdirection, hclose⟩
      exact ⟨s₁, s₆, hopen, ⟨s₂, s₃, s₄, s₅, hid, hcomma, hkind, hcomma', hdirection⟩, hclose⟩

/-- A payload is read as an event exactly when it is one by the grammar. -/
theorem runOn_wire_iff (hr : Accepts direction L) {p : Payload} {id : Int64} {kind : EventKind}
    {d : δ} : (wire direction).runOn p = .ok (id, kind, d) ↔ IsWire L p id kind d := by
  simp only [runOn_eq_ok_iff, reads_wire_iff hr, IsWire]

/-! ## What the two readers have in common -/

section
variable {p : Payload} {id id' : Int64} {kind kind' : EventKind}

/-- What is a direction in one language is one in another, so an event stays an event. -/
theorem IsWire.mono {ε : Type} {L : Phrase δ} {L' : Phrase ε} {d : δ} {x : ε}
    (h : ∀ {s rest}, L s d rest → L' s x rest) (hp : IsWire L p id kind d) :
    IsWire L' p id kind x := by
  obtain ⟨rest, ⟨es, hobject, hid, hkind, ⟨e, he, hd⟩, hothers⟩ |
    ⟨s₁, s₂, s₃, s₄, s₅, s₆, hopen, hid, hcomma, hkind, hcomma', hd, hclose⟩, hblank⟩ := hp
  · exact ⟨rest, .inl ⟨es, hobject, hid, hkind, ⟨e, he, h hd⟩, hothers⟩, hblank⟩
  · exact ⟨rest, .inr ⟨s₁, s₂, s₃, s₄, s₅, s₆, hopen, hid, hcomma, hkind, hcomma', h hd, hclose⟩,
      hblank⟩

theorem sideOfName?_eq_some_iff {name : String} {d : Side} :
    sideOfName? name = some d ↔ name = d.name := by
  rw [sideOfName?]
  cases d <;> split <;> simp_all [Side.name]

/-- A payload is one event at most, in a language that a reader accepts. -/
theorem IsWire.determined (hr : Accepts direction L) {d d' : δ} (h : IsWire L p id kind d)
    (h' : IsWire L p id' kind' d') : id = id' ∧ kind = kind' ∧ d = d' := by
  have heq := ((runOn_wire_iff hr).mpr h).symm.trans ((runOn_wire_iff hr).mpr h')
  simpa only [Except.ok.injEq, Prod.mk.injEq] using heq

/-- A payload that is an event for both readers is the same event for both. -/
theorem IsWire.unique {d : Side} {text : String} (h : IsWire (VariantText sideOfName?) p id kind d)
    (h' : IsWire StringText p id' kind' text) : id = id' ∧ kind = kind' ∧ d.name = text := by
  -- a reader that takes any name, however it is given, reads both
  have hname : IsWire (VariantText some) p id kind d.name := h.mono fun h => by
    obtain ⟨name, hname, hform⟩ := h
    rw [← sideOfName?_eq_some_iff.mp hname]
    exact ⟨name, rfl, hform⟩
  have htext : IsWire (VariantText some) p id' kind' text := h'.mono fun h => ⟨_, rfl, .inl h⟩
  exact hname.determined (accepts_variant some) htext

theorem ofPayload_eq_ok_iff {e : Event} :
    ofPayload p = .ok e ↔ IsWire (VariantText sideOfName?) p e.id e.kind e.direction := by
  rw [← runOn_wire_iff (accepts_variant _), ofPayload]
  cases (wire (Reader.variant sideOfName?)).runOn p with
  | error f => simp [bind, Except.bind]
  | ok x =>
    obtain ⟨id, kind, d⟩ := x
    obtain ⟨id', kind', d'⟩ := e
    simp [bind, Except.bind, pure, Except.pure]

theorem decode_eq_ok_of {text : String} {d : Side} (h : IsWire StringText p id kind text)
    (hside : Side.ofText text = .ok d) : decode p = .ok ⟨id, kind, d⟩ := by
  simp only [decode, (runOn_wire_iff accepts_string).mpr h, hside]

theorem decode_eq_unknown_of {text : String} {x : KeywordError}
    (h : IsWire StringText p id kind text) (hside : Side.ofText text = .error x) :
    decode p = .error (.unknownDirection text) := by
  simp only [decode, (runOn_wire_iff accepts_string).mpr h, hside]

theorem decode_eq_of_not_isWire (h : ∀ id kind text, ¬ IsWire StringText p id kind text) :
    ∃ f, decode p = .error (.decode f) := by
  rw [decode]
  cases hrun : (wire Reader.string).runOn p with
  | error f => exact ⟨f, rfl⟩
  | ok x => exact absurd ((runOn_wire_iff accepts_string).mp hrun) (h x.1 x.2.1 x.2.2)

/-- A payload is an event with some text for a direction, or the lenient reader cannot decode it. -/
theorem isWire_or_decode_eq (p : Payload) : (∃ id kind text, IsWire StringText p id kind text) ∨
    (∀ id kind text, ¬ IsWire StringText p id kind text) ∧ ∃ f, decode p = .error (.decode f) := by
  by_cases h : ∃ id kind text, IsWire StringText p id kind text
  · exact .inl h
  · simp only [not_exists] at h
    exact .inr ⟨h, decode_eq_of_not_isWire h⟩

theorem ofText_eq_ok_iff {text : String} {d : Side} :
    Side.ofText text = .ok d ↔ Text.upperKeyword text = d.name := by
  rw [Side.ofText]
  cases d <;> split <;> simp_all [Side.name]

theorem ofText_eq_error_iff {text : String} : (∃ x, Side.ofText text = .error x) ↔
    Text.upperKeyword text ≠ "SRC" ∧ Text.upperKeyword text ≠ "DST" := by
  rw [Side.ofText]
  split <;> simp_all

/-- The lenient reader takes the events whose text for a direction spells a side. -/
theorem decode_eq_ok_iff {e : Event} : decode p = .ok e ↔
    ∃ text, IsWire StringText p e.id e.kind text ∧ Text.upperKeyword text = e.direction.name := by
  constructor
  · intro h
    obtain ⟨id, kind, text, hp⟩ | ⟨-, f, hf⟩ := isWire_or_decode_eq p
    · cases hside : Side.ofText text with
      | error x => cases (decode_eq_unknown_of hp hside).symm.trans h
      | ok d =>
        obtain rfl := Except.ok.inj ((decode_eq_ok_of hp hside).symm.trans h)
        exact ⟨text, hp, ofText_eq_ok_iff.mp hside⟩
    · cases hf.symm.trans h
  · rintro ⟨text, hp, hside⟩
    exact decode_eq_ok_of hp (ofText_eq_ok_iff.mpr hside)

/-- The lenient reader calls a direction unknown for the events whose text for a direction spells no
side. -/
theorem decode_eq_unknown_iff {text : String} : decode p = .error (.unknownDirection text) ↔
    (∃ id kind, IsWire StringText p id kind text) ∧
      Text.upperKeyword text ≠ "SRC" ∧ Text.upperKeyword text ≠ "DST" := by
  rw [← ofText_eq_error_iff]
  constructor
  · intro h
    obtain ⟨id, kind, text', hp⟩ | ⟨-, f, hf⟩ := isWire_or_decode_eq p
    · cases hside : Side.ofText text' with
      | error x =>
        obtain rfl : text' = text := by
          simpa using (decode_eq_unknown_of hp hside).symm.trans h
        exact ⟨⟨id, kind, hp⟩, x, hside⟩
      | ok d => cases (decode_eq_ok_of hp hside).symm.trans h
    · cases hf.symm.trans h
  · rintro ⟨⟨id, kind, hp⟩, x, hside⟩
    exact decode_eq_unknown_of hp hside

end

end Cutover.Event
