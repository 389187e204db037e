import Cutover.Proofs.History
import Cutover.Proofs.Pool.Switchboard

/-! # Where an errand stands

The calls that have been made for an errand say where it stands (`Switchboard.Underway`): they have
led the work for its order to what is left of it, unless the caller has given it up since.  For an
order in a transaction that is the work on the branches of the one that was begun, and what these
are is in turn said by the calls that were made to begin it (`Begun`).  Every step of the
switchboard keeps this, whatever the phase is by then (`Switchboard.Sound.step`).
-/

namespace Cutover

open Dialogue Pool

/-! ## The calls made for an errand -/

section
variable {α : Type} {first : Side × Call} {second : Option (Side × Call)} {d d' : Dialogue Work α}
  {l : List Placed}

/-- The calls made so far say where such work stands. -/
theorem Relays.leads_cases (h : Relays first second d) (hl : d.Leads (l.map Placed.exchange) d') :
    (l = [] ∧ d' = d) ∨
      (∃ x a, l = [x] ∧ (x.on, x.call) = first ∧ d' = .done a ∧
        (x.succeeded = true → second = none)) ∨
      (∃ x on c next, l = [x] ∧ (x.on, x.call) = first ∧ x.succeeded = true ∧
        second = some (on, c) ∧ d' = .ask (I := Work) (.call on c) next) ∨
      ∃ x y a, l = [x, y] ∧ (x.on, x.call) = first ∧ x.succeeded = true ∧
        second = some (y.on, y.call) ∧ d' = .done a := by
  obtain ⟨next, rfl, hnext⟩ := h
  rcases l with _ | ⟨⟨n, on, c, reply⟩, l⟩
  · cases hl
    exact .inl ⟨rfl, rfl⟩
  · rw [List.map_cons] at hl
    cases hl with
    | cons hl =>
      rcases hnext reply with ⟨a, hdone, hnone⟩ | ⟨on', c', next', hok, hsecond, hask, hends⟩
      · rw [hdone] at hl
        obtain ⟨hnil, rfl⟩ := hl.of_done
        obtain rfl := List.map_eq_nil_iff.mp hnil
        exact .inr (.inl ⟨_, a, rfl, rfl, rfl, hnone⟩)
      · rw [hask] at hl
        rcases l with _ | ⟨⟨n', on'', c'', reply'⟩, l⟩
        · cases hl
          exact .inr (.inr (.inl ⟨_, on', c', next', rfl, rfl, hok, hsecond, rfl⟩))
        · rw [List.map_cons] at hl
          cases hl with
          | cons hl =>
            obtain ⟨a, hdone⟩ := hends reply'
            rw [hdone] at hl
            obtain ⟨hnil, rfl⟩ := hl.of_done
            obtain rfl := List.map_eq_nil_iff.mp hnil
            exact .inr (.inr (.inr ⟨_, _, a, rfl, rfl, hok, hsecond, rfl⟩))

end

/-- The transaction that an errand has begun in a phase, and the calls it took: the authoritative
store has begun a branch, and if the phase has a second store, that was asked for one too. -/
inductive Begun (n : Nat) (p : Phase) : Transaction → List Placed → Prop where
  | alone {tx : Nat} : p.secondary? = none →
      Begun n p ⟨⟨p.authoritative, tx⟩, none⟩ [⟨n, p.authoritative, .begin, .ok tx⟩]
  | refused {tx : Nat} {d : Side} {e : StoreError} : p.secondary? = some d →
      Begun n p ⟨⟨p.authoritative, tx⟩, none⟩
        [⟨n, p.authoritative, .begin, .ok tx⟩, ⟨n, d, .begin, .error e⟩]
  | paired {tx tx' : Nat} {d : Side} : p.secondary? = some d →
      Begun n p ⟨⟨p.authoritative, tx⟩, some ⟨d, tx'⟩⟩
        [⟨n, p.authoritative, .begin, .ok tx⟩, ⟨n, d, .begin, .ok tx'⟩]

/-- The calls that have led to a transaction say which one it is. -/
theorem begun_of_leads {n : Nat} {p : Phase} {t : Transaction} {l : List Placed}
    (hn : ∀ x ∈ l, x.errand = n)
    (hl : ((Order.begin.job none).routed p).Leads (l.map Placed.exchange) (.done (some t))) :
    Begun n p t l := by
  rw [routed_begin] at hl
  rcases l with _ | ⟨⟨k, on, c, reply⟩, l⟩
  · cases hl
  · obtain rfl : k = n := hn _ (List.mem_cons_self ..)
    rw [List.map_cons] at hl
    cases hl with
    | cons hl =>
      rcases reply with e | tx
      · cases hl.of_done.2
      · cases hsecond : p.secondary? with
        | none =>
          simp only [hsecond] at hl
          obtain ⟨hnil, hdone⟩ := hl.of_done
          obtain rfl := List.map_eq_nil_iff.mp hnil
          cases hdone
          exact .alone hsecond
        | some d =>
          simp only [hsecond] at hl
          rcases l with _ | ⟨⟨k', on', c', reply'⟩, l⟩
          · cases hl
          · obtain rfl : k' = k := hn _ (List.mem_cons_of_mem _ (List.mem_cons_self ..))
            rw [List.map_cons] at hl
            cases hl with
            | cons hl =>
              rcases reply' with e | tx' <;>
              · obtain ⟨hnil, hdone⟩ := hl.of_done
                obtain rfl := List.map_eq_nil_iff.mp hnil
                cases hdone
                first | exact .refused hsecond | exact .paired hsecond

namespace Switchboard

variable {v v' : Switchboard}

theorem mem_madeFor {n : Nat} {x : Placed} : x ∈ v.madeFor n ↔ x ∈ v.log ∧ x.errand = n := by
  simp [madeFor]

/-! ## The invariant -/

/-- An errand has begun a transaction. -/
def HasBegun (v : Switchboard) (n : Nat) (b : Errand) (t : Transaction) : Prop :=
  v.errands[n]? = some b ∧ b.order = .begin ∧
    ((Order.begin.job none).routed b.phase).Leads ((v.madeFor n).map Placed.exchange)
      (.done (some t))

/-- The transaction that an order is in has been begun, by the errand that it names. -/
def Concerns (v : Switchboard) (o : Order) : Option Transaction → Prop
  | none => o.within? = none
  | some t => ∃ n b, o.within? = some n ∧ v.HasBegun n b t

/-- The calls made for an errand have led it to where it is, unless it has been given up since. -/
structure Underway (v : Switchboard) (n : Nat) (e : Errand) (t : Option Transaction) : Prop where
  concerns : v.Concerns e.order t
  led : ∃ d, ((e.order.job t).routed e.phase).Leads ((v.madeFor n).map Placed.exchange) d ∧
    (e.left = d ∨ e.givenUp = true ∧ e.left = .done none)

/-- Every errand is under way, and the last order in a transaction was the last. -/
structure Sound (v : Switchboard) : Prop where
  known : ∀ x ∈ v.log, x.errand < v.errands.length
  underway : ∀ (n : Nat) (e : Errand), v.errands[n]? = some e → ∃ t, v.Underway n e t
  ended : ∀ (i j : Nat) (e f : Errand) (n : Nat), i < j → v.errands[i]? = some e →
    v.errands[j]? = some f → e.order.within? = some n → e.order.isEnd = true →
    f.order.within? ≠ some n

theorem sound_start (p : Phase) : Sound (start p) where
  known := by simp [start]
  underway := by simp [start]
  ended := by simp [start]

/-! ### Every step keeps it -/

/-- A step does not touch the transactions that have been begun. -/
def Spares (v v' : Switchboard) : Prop :=
  ∀ (n : Nat) (b : Errand) (t : Transaction), v.HasBegun n b t →
    ∃ b', v'.HasBegun n b' t ∧ b'.phase = b.phase

theorem Concerns.mono {o : Order} {t : Option Transaction} (h : v.Concerns o t)
    (hspares : v.Spares v') : v'.Concerns o t := by
  cases t with
  | none => exact h
  | some t =>
    obtain ⟨n, b, hn, hb⟩ := h
    obtain ⟨b', hb', -⟩ := hspares n b t hb
    exact ⟨n, b', hn, hb'⟩

/-- The errands other than one that takes a step. -/
theorem Underway.mono {n : Nat} {e : Errand} {t : Option Transaction} (h : v.Underway n e t)
    (hspares : v.Spares v') (hown : v'.madeFor n = v.madeFor n) : v'.Underway n e t where
  concerns := h.concerns.mono hspares
  led := by
    rw [hown]
    exact h.led

/-- A step after which the same calls were made for every errand that has begun a transaction. -/
theorem Step.spares (h : Step v v')
    (hmade : ∀ (n : Nat) (b : Errand) (t : Transaction), v.HasBegun n b t →
      v'.madeFor n = v.madeFor n) : v.Spares v' := by
  intro n b t hb
  obtain ⟨b', hb', horder, hphase⟩ := h.kept hb.1
  refine ⟨b', ⟨hb', horder.trans hb.2.1, ?_⟩, hphase⟩
  rw [hphase, hmade n b t hb]
  exact hb.2.2

/-- What is left of an errand that has been asked for a call is where the calls have led it. -/
theorem Underway.led_ask {n : Nat} {e : Errand} {t : Option Transaction} (h : v.Underway n e t)
    {on : Side} {c : Call} {next : Except StoreError c.Result → Dialogue Work (Option Transaction)}
    (hask : e.left = .ask (I := Work) (.call on c) next) :
    ((e.order.job t).routed e.phase).Leads ((v.madeFor n).map Placed.exchange)
      (.ask (I := Work) (.call on c) next) := by
  obtain ⟨d, hled, hleft | ⟨-, hdone⟩⟩ := h.led
  · rw [← hask, hleft]
    exact hled
  · rw [hask] at hdone
    cases hdone

/-- An errand that has a call to make has begun no transaction yet. -/
theorem Underway.not_hasBegun {n : Nat} {e b : Errand} {t : Option Transaction} {t' : Transaction}
    (h : v.Underway n e t) (he : v.errands[n]? = some e) {on : Side} {c : Call}
    {next : Except StoreError c.Result → Dialogue Work (Option Transaction)}
    (hask : e.left = .ask (I := Work) (.call on c) next) : ¬v.HasBegun n b t' := by
  rintro ⟨hb, horder, hled⟩
  obtain rfl := Option.some.inj (he.symm.trans hb)
  have hasks := h.led_ask hask
  rw [horder] at hasks
  cases hasks.unique hled

/-- An order that may be given concerns a transaction that has been begun. -/
theorem Admits.concerns {o : Order} {t : Option Transaction} (h : v.Admits o t) (hs : v.Sound) :
    v.Concerns o t := by
  cases h with
  | plain hn => exact hn
  | @inside n b t hn hb horder hleft _ =>
    obtain ⟨t', -, d, hled, hd⟩ := hs.underway n b hb
    refine ⟨n, b, hn, hb, horder, ?_⟩
    obtain rfl : d = .done (some t) := by
      rcases hd with hd | ⟨-, hd⟩
      · rw [← hd, hleft]
      · rw [hleft] at hd
        cases hd
    rw [horder] at hled
    exact hled

theorem Sound.started {o : Order} {t : Option Transaction} (hs : v.Sound) (h : v.Admits o t) :
    Sound { v with errands := v.errands ++ [⟨o, v.phase, (o.job t).routed v.phase, false⟩] } := by
  have hspares := (Step.started h).spares fun _ _ _ _ => rfl
  refine ⟨fun x hx => ?_, fun n e he => ?_, fun i j e f n hij he hf hn hend => ?_⟩
  · rw [List.length_append]
    exact Nat.lt_add_right 1 (hs.known x hx)
  · rcases getElem?_snoc_cases he with he | ⟨rfl, rfl⟩
    · obtain ⟨t, ht⟩ := hs.underway n e he
      exact ⟨t, ht.mono hspares rfl⟩
    · -- no call has been made for an errand that has just been started
      have hmade : v.madeFor v.errands.length = [] := by
        rw [madeFor, List.filter_eq_nil_iff]
        intro x hx hn
        exact Nat.ne_of_lt (hs.known x hx) (of_decide_eq_true hn)
      refine ⟨t, (h.concerns hs).mono hspares, _, ?_, .inl rfl⟩
      show Dialogue.Leads _ ((v.madeFor v.errands.length).map Placed.exchange) _
      rw [hmade]
      exact .nil _
  · rcases getElem?_snoc_cases hf with hf | ⟨rfl, rfl⟩
    · have hi := Nat.lt_trans hij (List.getElem?_eq_some_iff.mp hf).1
      rw [List.getElem?_append_left hi] at he
      exact hs.ended i j e f n hij he hf hn hend
    · rw [List.getElem?_append_left hij] at he
      -- an order in a transaction is admitted only while none has ended it
      cases h with
      | plain hplain => exact fun hf => nomatch hplain.symm.trans hf
      | inside hwithin _ _ _ hopen =>
        intro hf
        obtain rfl := Option.some.inj (hwithin.symm.trans hf)
        rw [hopen e (List.mem_of_getElem? he) hn] at hend
        cases hend

/-- The same errands, one of them in another place. -/
theorem Sound.ended_set (hs : v.Sound) {n : Nat} {e e' : Errand} (he : v.errands[n]? = some e)
    (horder : e'.order = e.order) (i j : Nat) (a b : Errand) (m : Nat) (hij : i < j)
    (ha : (v.errands.set n e')[i]? = some a) (hb : (v.errands.set n e')[j]? = some b)
    (hm : a.order.within? = some m) (hend : a.order.isEnd = true) : b.order.within? ≠ some m := by
  have hback : ∀ {k : Nat} {c : Errand}, (v.errands.set n e')[k]? = some c →
      ∃ c', v.errands[k]? = some c' ∧ c'.order = c.order := by
    intro k c hc
    by_cases hk : n = k
    · subst hk
      rw [List.getElem?_set_self (List.getElem?_eq_some_iff.mp he).1] at hc
      cases hc
      exact ⟨e, he, horder.symm⟩
    · rw [List.getElem?_set_ne hk] at hc
      exact ⟨c, hc, rfl⟩
  obtain ⟨a', ha', hoa⟩ := hback ha
  obtain ⟨b', hb', hob⟩ := hback hb
  rw [← hob]
  exact hs.ended i j a' b' m hij ha' hb' (hoa ▸ hm) (hoa ▸ hend)

theorem Sound.answered {n : Nat} {e : Errand} {on : Side} {c : Call}
    {next : Except StoreError c.Result → Dialogue Work (Option Transaction)} (hs : v.Sound)
    (reply : Except StoreError c.Result) (he : v.errands[n]? = some e)
    (hask : e.left = .ask (I := Work) (.call on c) next) :
    Sound { v with
      errands := v.errands.set n { e with left := next reply }
      log := v.log ++ [⟨n, on, c, reply⟩] } := by
  obtain ⟨t, ht⟩ := hs.underway n e he
  have hn := (List.getElem?_eq_some_iff.mp he).1
  have hother : ∀ {k : Nat}, k ≠ n →
      (v.log ++ [(⟨n, on, c, reply⟩ : Placed)]).filter (fun x => x.errand = k) = v.madeFor k := by
    intro k hk
    simp [madeFor, List.filter_append, hk.symm]
  have hspares := (Step.answered reply he hask).spares fun k b t' hb => by
    refine hother ?_
    rintro rfl
    exact ht.not_hasBegun he hask hb
  refine ⟨fun x hx => ?_, fun k f hf => ?_, hs.ended_set he rfl⟩
  · rw [List.length_set]
    rcases List.mem_append.mp hx with hx | hx
    · exact hs.known x hx
    · rw [List.mem_singleton.mp hx]
      exact hn
  · by_cases hk : n = k
    · subst hk
      rw [List.getElem?_set_self hn] at hf
      cases hf
      refine ⟨t, ht.concerns.mono hspares, next reply, ?_, .inl rfl⟩
      have hmade : madeFor { v with
          errands := v.errands.set n { e with left := next reply }
          log := v.log ++ [⟨n, on, c, reply⟩] } n = v.madeFor n ++ [⟨n, on, c, reply⟩] := by
        simp [madeFor, List.filter_append]
      rw [hmade, List.map_append]
      exact (ht.led_ask hask).snoc reply
    · rw [List.getElem?_set_ne hk] at hf
      obtain ⟨t', ht'⟩ := hs.underway k f hf
      exact ⟨t', ht'.mono hspares (hother (Ne.symm hk))⟩

theorem Sound.gaveUp {n : Nat} {e : Errand} (hs : v.Sound) (he : v.errands[n]? = some e) :
    Sound { v with errands := v.errands.set n { e with left := .done none, givenUp := true } } := by
  have hspares := (Step.gaveUp he).spares fun _ _ _ _ => rfl
  refine ⟨fun x hx => ?_, fun k f hf => ?_, hs.ended_set he rfl⟩
  · rw [List.length_set]
    exact hs.known x hx
  · by_cases hk : n = k
    · subst hk
      rw [List.getElem?_set_self (List.getElem?_eq_some_iff.mp he).1] at hf
      cases hf
      obtain ⟨t, ht⟩ := hs.underway n e he
      obtain ⟨d, hled, -⟩ := ht.led
      exact ⟨t, ht.concerns.mono hspares, d, hled, .inr ⟨rfl, rfl⟩⟩
    · rw [List.getElem?_set_ne hk] at hf
      obtain ⟨t, ht⟩ := hs.underway k f hf
      exact ⟨t, ht.mono hspares rfl⟩

theorem Sound.step (hs : v.Sound) (h : Step v v') : v'.Sound := by
  cases h with
  | switched p =>
    have hspares := (Step.switched v p).spares fun _ _ _ _ => rfl
    refine ⟨hs.known, fun n e he => ?_, hs.ended⟩
    obtain ⟨t, ht⟩ := hs.underway n e he
    exact ⟨t, ht.mono hspares rfl⟩
  | started hadmits => exact hs.started hadmits
  | answered reply he hask => exact hs.answered reply he hask
  | gaveUp he => exact hs.gaveUp he

/-! ## What the calls made for an errand say -/

/-- An order without a call lets a transaction go. -/
theorem job_of_call?_none {o : Order} {tx : Nat} (h : o.call? tx = none) (t : Option Transaction) :
    o.job t = .done none := by
  cases o <;> first | rfl | cases h

/-- The work for an order on the stores that the order is for. -/
theorem Concerns.relays {o : Order} {t : Option Transaction} (h : v.Concerns o t) (p : Phase)
    {first : Side × Call} (hfirst : o.on? (o.stores p t).primary = some first) :
    Relays first (o.again? (o.stores p t)) ((o.job t).routed p) := by
  cases t with
  | none =>
    rw [Order.stores_plain h] at hfirst ⊢
    exact o.relays_plain h p hfirst
  | some t =>
    obtain ⟨n, b, hn, -⟩ := h
    rw [Order.stores_within hn] at hfirst ⊢
    exact o.relays_within hn p t hfirst

/-- An errand that has a call to make has made none, or one that succeeded and is to be repeated. -/
theorem Underway.asks {n : Nat} {e : Errand} {t : Option Transaction} (h : v.Underway n e t)
    {on : Side} {c : Call} {next : Except StoreError c.Result → Dialogue Work (Option Transaction)}
    (hask : e.left = .ask (I := Work) (.call on c) next) :
    (v.madeFor n = [] ∧ e.order.on? (e.order.stores e.phase t).primary = some (on, c)) ∨
      ∃ x, v.madeFor n = [x] ∧ x.succeeded = true ∧
        e.order.on? (e.order.stores e.phase t).primary = some (x.on, x.call) ∧
        e.order.again? (e.order.stores e.phase t) = some (on, c) := by
  have hled := h.led_ask hask
  cases hfirst : e.order.on? (e.order.stores e.phase t).primary with
  | none =>
    rw [job_of_call?_none (Option.map_eq_none_iff.mp hfirst)] at hled
    cases hled.of_done.2
  | some first =>
    have hrelays := h.concerns.relays e.phase hfirst
    rcases hrelays.leads_cases hled with ⟨hnil, heq⟩ | ⟨x, a, -, -, hdone, -⟩ |
      ⟨x, on', c', next', hone, hx, hok, hagain, heq⟩ | ⟨x, y, a, -, -, -, -, hdone⟩
    · obtain ⟨next', hask', -⟩ := hrelays
      rw [hask'] at heq
      cases heq
      exact .inl ⟨hnil, rfl⟩
    · cases hdone
    · cases heq
      exact .inr ⟨x, hone, hok, congrArg some hx.symm, hagain⟩
    · cases hdone

/-- An errand that is over has made all its calls. -/
theorem Underway.over {n : Nat} {e : Errand} {t : Option Transaction} (h : v.Underway n e t)
    {a : Option Transaction} (hover : e.left = .done a) (hkept : e.givenUp = false) :
    e.order.on? (e.order.stores e.phase t).primary = none ∨
      (∃ x ∈ v.madeFor n, e.order.on? (e.order.stores e.phase t).primary = some (x.on, x.call) ∧
        (x.succeeded = true → e.order.again? (e.order.stores e.phase t) = none)) ∨
      ∃ x ∈ v.madeFor n, ∃ y ∈ v.madeFor n,
        e.order.on? (e.order.stores e.phase t).primary = some (x.on, x.call) ∧
        e.order.again? (e.order.stores e.phase t) = some (y.on, y.call) := by
  obtain ⟨d, hled, hd | ⟨hgiven, -⟩⟩ := h.led
  · cases hfirst : e.order.on? (e.order.stores e.phase t).primary with
    | none => exact .inl rfl
    | some first =>
      have hrelays := h.concerns.relays e.phase hfirst
      rw [← hd, hover] at hled
      rcases hrelays.leads_cases hled with ⟨-, heq⟩ | ⟨x, -, hone, hx, -, hagain⟩ |
        ⟨_, _, _, _, -, -, -, -, heq⟩ | ⟨x, y, -, htwo, hx, -, hagain, -⟩
      · obtain ⟨next', hask', -⟩ := hrelays
        rw [hask'] at heq
        cases heq
      · exact .inr (.inl ⟨x, by simp [hone], congrArg some hx.symm, hagain⟩)
      · cases heq
      · exact .inr (.inr ⟨x, by simp [htwo], y, by simp [htwo], congrArg some hx.symm, hagain⟩)
  · rw [hkept] at hgiven
    cases hgiven

end Switchboard
end Cutover
