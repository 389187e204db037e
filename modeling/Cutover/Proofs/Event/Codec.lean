import Cutover.Proofs.Event.Wire
import Cutover.Proofs.Json.Writing

/-! # Events read back

An event is read back from its bytes: the object that is written is an event by the grammar
(`isWire_toPayload`), and both readers take what is one.  So the two readers agree with what is
written, and with each other (`readers_agree`).
-/

namespace Cutover.Event

open Json Reader

variable (e : Event)

/-- The object that is written, in pieces. -/
theorem toJson_eq : e.toJson =
    "\x7b" ++ (quote "id" ++
      (":" ++ (Text.ofInt64
        e.id ++ ("," ++ (quote "type" ++
          (":" ++ (quote e.kind.name ++
            ("," ++ (quote "direction" ++ (":" ++ (quote e.direction.name ++ "\x7d"))))))))))) := by
  have hid : "\x7b\"id\":" = "\x7b" ++ (quote "id" ++ ":") := by decide +kernel
  have hnames : ",\"type\":\"" ++
    (e.kind.name ++ ("\",\"direction\":\"" ++ (e.direction.name ++ "\"\x7d"))) =
      "," ++ (quote "type" ++ (":" ++ (quote e.kind.name ++ ("," ++ (quote "direction" ++ (":" ++
        (quote e.direction.name ++ "\x7d"))))))) := by
    cases e.kind <;> cases e.direction <;> decide +kernel
  simp only [toJson, hid, String.append_assoc, hnames]

theorem toPayload_eq : e.toPayload =
    0x7B :: (textBytes (quote "id") ++ 0x3A :: (textBytes (Text.ofInt64 e.id) ++
      0x2C :: (textBytes (quote "type") ++ 0x3A :: (textBytes (quote e.kind.name) ++
        0x2C :: (textBytes (quote "direction") ++ 0x3A ::
          (textBytes (quote e.direction.name) ++ [0x7D])))))) := by
  show textBytes e.toJson = _
  simp [toJson_eq, textBytes_openBrace, textBytes_closeBrace, textBytes_colon, textBytes_comma]

/-- What is written for an event is an event, its direction as its name is read. -/
theorem isWire_toPayload {δ : Type} {L : Phrase δ} {d : δ}
    (hd : ∀ rest, L (textBytes (quote e.direction.name) ++ rest) d rest) :
    IsWire L e.toPayload e.id e.kind d := by
  have hkind : ∀ rest, VariantText EventKind.ofName? (textBytes (quote e.kind.name) ++ rest)
      e.kind rest :=
    fun rest => ⟨_, EventKind.ofName?_name e.kind, .inl (stringText_quote _ rest)⟩
  rw [toPayload_eq]
  refine ⟨[], .inl ⟨_, ⟨_, .nil _, .first (stringText_quote "id" _) (.nil _)
    (.next (.nil _) (stringText_quote "type" _) (.nil _)
      (.next (.nil _) (stringText_quote "direction" _) (.nil _) (.close (.nil _))))⟩,
    ⟨_, rfl, integerText_ofInt64 _ _⟩, ⟨_, rfl, hkind _⟩, ⟨_, rfl, hd _⟩, ?_⟩, .nil _⟩
  intro member hmember hother
  simp only [List.mem_cons, List.not_mem_nil, or_false] at hmember
  rcases hmember with rfl | rfl | rfl <;> simp at hother

theorem ofPayload_toPayload : ofPayload e.toPayload = .ok e :=
  ofPayload_eq_ok_iff.mpr (e.isWire_toPayload fun rest =>
    ⟨_, sideOfName?_eq_some_iff.mpr rfl, .inl (stringText_quote _ rest)⟩)

theorem decode_toPayload : decode e.toPayload = .ok e := by
  refine decode_eq_ok_iff.mpr ⟨_, e.isWire_toPayload fun rest => stringText_quote _ rest, ?_⟩
  cases e.direction <;> decide +kernel

/-- **The codec of events and its two readers agree.**  Both readers give an event back from its
bytes.  The strict reader takes exactly the payloads that are events by the grammar with the name of
a side, the lenient one those whose direction is a string that spells a side, so what both take is
the same event for both, and what the strict one takes is taken by the lenient one if its direction
is a string.  The lenient reader answers that a direction is unknown exactly for the payloads that
are events but for their direction, and that nothing can be decoded for those that are no events. -/
theorem readers_agree :
    (∀ e : Event, ofPayload e.toPayload = .ok e ∧ decode e.toPayload = .ok e) ∧
    ∀ p : Payload,
      (∀ e, ofPayload p = .ok e ↔ IsWire (VariantText sideOfName?) p e.id e.kind e.direction) ∧
      (∀ e, decode p = .ok e ↔ ∃ text, IsWire StringText p e.id e.kind text ∧
        Text.upperKeyword text = e.direction.name) ∧
      (∀ e e', ofPayload p = .ok e → decode p = .ok e' → e = e') ∧
      (∀ e id kind text, ofPayload p = .ok e → IsWire StringText p id kind text →
        decode p = .ok e) ∧
      (∀ text, decode p = .error (.unknownDirection text) ↔
        (∃ id kind, IsWire StringText p id kind text) ∧
          Text.upperKeyword text ≠ "SRC" ∧ Text.upperKeyword text ≠ "DST") ∧
      (∀ x, decode p = .error x → (∃ text, x = .unknownDirection text) ∨
        (∃ f, x = .decode f) ∧ ∀ id kind text, ¬ IsWire StringText p id kind text) := by
  -- a side's own name spells it, so what the strict reader takes the lenient one takes for the same
  have hstrict : ∀ {p e id kind text}, ofPayload p = .ok e → IsWire StringText p id kind text →
      decode p = .ok e := by
    intro p e id kind text he hp
    obtain ⟨rfl, rfl, rfl⟩ := (ofPayload_eq_ok_iff.mp he).unique hp
    refine decode_eq_ok_iff.mpr ⟨_, hp, ?_⟩
    cases e.direction <;> decide +kernel
  refine ⟨fun e => ⟨e.ofPayload_toPayload, e.decode_toPayload⟩, fun p =>
    ⟨fun _ => ofPayload_eq_ok_iff, fun _ => decode_eq_ok_iff, ?_, fun _ _ _ _ => hstrict, fun _ =>
      decode_eq_unknown_iff, ?_⟩⟩
  · intro e e' he he'
    obtain ⟨text, hp, -⟩ := decode_eq_ok_iff.mp he'
    exact Except.ok.inj ((hstrict he hp).symm.trans he')
  · intro x hx
    obtain ⟨id, kind, text, hp⟩ | ⟨hnot, f, hf⟩ := isWire_or_decode_eq p
    · cases hside : Side.ofText text with
      | error _ => exact .inl ⟨text,
          Except.error.inj (hx.symm.trans (decode_eq_unknown_of hp hside))⟩
      | ok d => cases (decode_eq_ok_of hp hside).symm.trans hx
    · exact .inr ⟨⟨f, Except.error.inj (hx.symm.trans hf)⟩, hnot⟩

/-- An object with its members out of order and one too many. -/
def strayPayload : Payload :=
  ascii
    "\x7b\"direction\": \"DST\", \"note\": [1e9, null], \"type\": \"target_missing\", \"id\": 7\x7d"

/-- An array whose direction no side has. -/
def lostPayload : Payload := ascii "[7, \"target_missing\", \"up\"]"

/-- Both readers take an event with a stray member for the same event, and an unknown direction is
told apart. -/
theorem readers_agree_sample :
    ofPayload strayPayload = .ok ⟨7, .targetMissing, .dst⟩ ∧
    IsWire StringText strayPayload 7 .targetMissing "DST" ∧
    decode strayPayload = .ok ⟨7, .targetMissing, .dst⟩ ∧
    ∃ id kind, IsWire StringText lostPayload id kind "up" := by
  obtain ⟨-, hreaders⟩ := readers_agree
  obtain ⟨-, -, -, hlenient, -, -⟩ := hreaders strayPayload
  obtain ⟨-, -, -, -, hunknown, -⟩ := hreaders lostPayload
  have hstrict : ofPayload strayPayload = .ok ⟨7, .targetMissing, .dst⟩ := by decide +kernel
  have hwire : IsWire StringText strayPayload 7 .targetMissing "DST" := by
    rw [← runOn_wire_iff accepts_string]
    decide +kernel
  exact ⟨hstrict, hwire, hlenient _ _ _ _ hstrict hwire, ((hunknown "up").mp (by decide +kernel)).1⟩

end Cutover.Event
