import Cutover.Proofs.Pool.Errands
import Mathlib.Data.List.Induction

/-! # Where calls go

Which two stores an order is for is settled once and for all: for an order outside transactions by
the phase in which it is given, for an order in a transaction by the phase in which that was begun
(`Switchboard.settling?`).  The authoritative store is called first, and the second one only for an
order that writes and only after the authoritative store has carried out the same
(`Switchboard.Rightly`).  What is said of a call is shown at the moment in which it is made, and
nothing that happens later changes it.

Orders may overlap, and two of them may then reach the two stores in different orders
(`Switchboard.overlapping_orders_are_reordered`).  Of orders that do not, the second stores receive
their statements in the order in which the authoritative ones carried them out.
-/

namespace Cutover

open Dialogue Pool

namespace Switchboard

variable {v v' : Switchboard}

/-! ## Where the calls go -/

/-- The phase that settles where the calls for an errand go. -/
def settling? (v : Switchboard) (e : Errand) : Option Phase :=
  match e.order.within? with
  | none => some e.phase
  | some n => v.errands[n]?.map Errand.phase

/-- The stores that an order is for are those of the phase that settles it; in a transaction, as far
as they have begun a branch. -/
structure Paired (v : Switchboard) (o : Order) (p : Phase) (t : Transaction) : Prop where
  primary : t.primary.side = p.authoritative
  opened : ∀ n, o.within? = some n →
    (⟨n, p.authoritative, .begin, .ok t.primary.tx⟩ : Placed) ∈ v.log
  second : ∀ b, t.secondary = some b → p.secondary? = some b.side ∧
    ∀ n, o.within? = some n → (⟨n, b.side, .begin, .ok b.tx⟩ : Placed) ∈ v.log
  both : ∀ d, p.secondary? = some d →
    (∀ n, o.within? = some n → ∃ tx, (⟨n, d, .begin, .ok tx⟩ : Placed) ∈ v.log) →
    ∃ b, t.secondary = some b ∧ b.side = d

theorem HasBegun.begun {n : Nat} {b : Errand} {t : Transaction} (h : v.HasBegun n b t) :
    Begun n b.phase t (v.madeFor n) :=
  begun_of_leads (fun _ hx => (mem_madeFor.mp hx).2) h.2.2

/-- Outside transactions an order is for the stores of its phase. -/
theorem paired_plain {o : Order} (hn : o.within? = none) (p : Phase) : v.Paired o p p.pair := by
  refine ⟨rfl, by simp [hn], fun b hb => ?_, fun d hd _ => ?_⟩
  · obtain ⟨d, hd, rfl⟩ := Option.map_eq_some_iff.mp hb
    exact ⟨hd, by simp [hn]⟩
  · exact ⟨⟨d, 0⟩, by rw [Phase.pair, hd]; rfl, rfl⟩

/-- In a transaction an order is for the branches that the calls have begun. -/
theorem paired_within {o : Order} {n : Nat} (hn : o.within? = some n) {p : Phase} {t : Transaction}
    (hbegun : Begun n p t (v.madeFor n)) : v.Paired o p t := by
  have hlog : ∀ {x : Placed}, x ∈ v.log ∧ x.errand = n ↔ x ∈ v.madeFor n := mem_madeFor.symm
  generalize v.madeFor n = l at hlog hbegun
  constructor
  case primary => cases hbegun <;> rfl
  case opened =>
    intro m hm
    obtain rfl := Option.some.inj (hn.symm.trans hm)
    refine (hlog.mpr ?_).1
    cases hbegun <;> exact List.mem_cons_self ..
  case second =>
    intro b hb
    cases hbegun with
    | alone | refused => cases hb
    | @paired tx tx' d hd =>
      cases hb
      refine ⟨hd, fun m hm => ?_⟩
      obtain rfl := Option.some.inj (hn.symm.trans hm)
      exact (hlog.mpr (List.mem_cons_of_mem _ (List.mem_cons_self ..))).1
  case both =>
    intro d hd hbranch
    obtain ⟨tx, htx⟩ := hbranch n hn
    have hmem := hlog.mp ⟨htx, rfl⟩
    cases hbegun with
    | alone hnone => cases hd.symm.trans hnone
    | refused hd' =>
      rcases List.mem_pair.mp hmem with heq | heq
      · exact absurd (congrArg Placed.on heq) (Phase.secondary?_ne hd)
      · cases heq
    | @paired tx tx' d' hd' => exact ⟨_, rfl, Option.some.inj (hd'.symm.trans hd)⟩

theorem Concerns.paired {e : Errand} {t : Option Transaction} (h : v.Concerns e.order t) :
    ∃ p, v.settling? e = some p ∧ v.Paired e.order p (e.order.stores e.phase t) := by
  cases t with
  | none =>
    have hn : e.order.within? = none := h
    refine ⟨e.phase, by rw [settling?, hn], ?_⟩
    rw [Order.stores_plain hn]
    exact paired_plain hn e.phase
  | some t =>
    obtain ⟨n, b, hn, hb⟩ := h
    refine ⟨b.phase, by simp [settling?, hn, hb.1], ?_⟩
    rw [Order.stores_within hn]
    exact paired_within hn hb.begun

/-- A call goes where it has to, after the calls before it.  It carries an order out, in a
transaction in the branch that this store has begun for it, and is made of the authoritative store
or, if the order is repeated on both, of the second one, once the authoritative store has carried
out the same. -/
structure Rightly (o : Order) (p : Phase) (before : List Placed) (x : Placed) : Prop where
  asks : ∃ tx, o.call? tx = some x.call ∧
    ∀ n, o.within? = some n → (⟨n, x.on, .begin, .ok tx⟩ : Placed) ∈ before
  goes : x.on = p.authoritative ∨ p.secondary? = some x.on ∧ o.isRepeated = true ∧
    ∃ y ∈ before, y.errand = x.errand ∧ y.on = p.authoritative ∧ y.succeeded = true ∧
      y.call.name = x.call.name ∧ y.call.statement? = x.call.statement?
  once : ∀ y ∈ before, y.errand = x.errand → y.on ≠ x.on

/-- The call that an errand has to make goes where it has to. -/
theorem Sound.rightly {n : Nat} {e : Errand} {on : Side} {c : Call}
    {next : Except StoreError c.Result → Dialogue Work (Option Transaction)} (hs : v.Sound)
    (reply : Except StoreError c.Result) (he : v.errands[n]? = some e)
    (hask : e.left = .ask (I := Work) (.call on c) next) :
    ∃ p, v.settling? e = some p ∧ Rightly e.order p v.log ⟨n, on, c, reply⟩ := by
  obtain ⟨t, ht⟩ := hs.underway n e he
  obtain ⟨p, hp, hpaired⟩ := ht.concerns.paired
  refine ⟨p, hp, ?_⟩
  rcases ht.asks hask with ⟨hnil, hfirst⟩ | ⟨x, hone, hok, hfirst, hagain⟩
  · obtain ⟨c', hc, heq⟩ := Option.map_eq_some_iff.mp hfirst
    cases heq
    refine ⟨⟨_, hc, fun m hm => ?_⟩, .inl hpaired.primary, fun y hy hyn => ?_⟩
    · exact hpaired.primary ▸ hpaired.opened m hm
    · have hmem := mem_madeFor.mpr ⟨hy, hyn⟩
      rw [hnil] at hmem
      cases hmem
  · obtain ⟨cx, hcx, hx⟩ := Option.map_eq_some_iff.mp hfirst
    obtain ⟨hxon, rfl⟩ := Prod.mk.inj hx
    unfold Order.again? at hagain
    split at hagain
    case isFalse => cases hagain
    case isTrue hrepeated =>
      obtain ⟨b, hb, hsecond⟩ := Option.bind_eq_some_iff.mp hagain
      obtain ⟨cy, hcy, hy⟩ := Option.map_eq_some_iff.mp hsecond
      cases hy
      obtain ⟨hside, hopened⟩ := hpaired.second b hb
      have hxp : x.on = p.authoritative := hxon.symm.trans hpaired.primary
      have hmem : x ∈ v.log ∧ x.errand = n :=
        mem_madeFor.mp (by rw [hone]; exact List.mem_singleton_self x)
      obtain ⟨hname, hstatement⟩ := Order.call?_alike hcy hcx
      refine ⟨⟨_, hcy, hopened⟩,
        .inr ⟨hside, hrepeated, x, hmem.1, hmem.2, hxp, hok, hname, hstatement⟩, fun y hy hyn => ?_⟩
      have hyx : y ∈ v.madeFor n := mem_madeFor.mpr ⟨hy, hyn⟩
      rw [hone] at hyx
      rw [List.mem_singleton.mp hyx, hxp]
      exact (Phase.secondary?_ne hside).symm

/-- Every call so far went where it had to. -/
def Routed (v : Switchboard) : Prop :=
  ∀ (a b : List Placed) (x : Placed), v.log = a ++ x :: b →
    ∃ e p, v.errands[x.errand]? = some e ∧ v.settling? e = some p ∧ Rightly e.order p a x

theorem Step.settling? (h : Step v v') {e e' : Errand} {p : Phase} (hp : v.settling? e = some p)
    (horder : e'.order = e.order) (hphase : e'.phase = e.phase) : v'.settling? e' = some p := by
  unfold Switchboard.settling? at hp ⊢
  rw [horder, hphase]
  split at hp
  case h_1 hn => exact hp
  case h_2 n hn =>
    obtain ⟨b, hb, rfl⟩ := Option.map_eq_some_iff.mp hp
    obtain ⟨b', hb', -, hphase'⟩ := h.kept hb
    rw [hb', ← hphase']
    rfl

theorem Routed.step (hr : v.Routed) (hs : v.Sound) (h : Step v v') : v'.Routed := by
  -- what was said of a call stays true of it
  have hold : ∀ (a b : List Placed) (x : Placed), v.log = a ++ x :: b →
      ∃ e p, v'.errands[x.errand]? = some e ∧ v'.settling? e = some p ∧ Rightly e.order p a x := by
    intro a b x hx
    obtain ⟨e, p, he, hp, hright⟩ := hr a b x hx
    obtain ⟨e', he', horder, hphase⟩ := h.kept he
    exact ⟨e', p, he', h.settling? hp horder hphase, horder ▸ hright⟩
  have hstep := h
  cases h with
  | switched p => exact hold
  | started _ => exact hold
  | gaveUp _ => exact hold
  | @answered n e on c next reply he hask =>
    intro a b x hx
    rcases snoc_eq_append_cons hx with ⟨rfl, rfl, -⟩ | ⟨b', -, hx⟩
    · obtain ⟨p, hp, hright⟩ := hs.rightly reply he hask
      obtain ⟨e', he', horder, hphase⟩ := hstep.kept he
      exact ⟨e', p, he', hstep.settling? hp horder hphase, horder ▸ hright⟩
    · exact hold a b' x hx

theorem Routed.reaches {p : Phase} (h : Reaches (start p) v) : v.Routed ∧ v.Sound := by
  induction h with
  | refl => exact ⟨fun a b x hx => by simp [start] at hx, sound_start p⟩
  | tail _ hstep ih => exact ⟨ih.1.step ih.2 hstep, ih.2.step hstep⟩

/-! ## The order in which the second stores are written -/

/-- The phase that settles where a call goes. -/
def phaseOf? (v : Switchboard) (x : Placed) : Option Phase := v.errands[x.errand]?.bind v.settling?

/-- The authoritative store has carried the call out. -/
def leading (v : Switchboard) (x : Placed) : Bool :=
  x.succeeded && (v.phaseOf? x).map Phase.authoritative == some x.on

/-- The call is one of the second store. -/
def following (v : Switchboard) (x : Placed) : Bool :=
  (v.phaseOf? x).bind Phase.secondary? == some x.on

/-- Before every call of a second store the authoritative store has carried out the same for the
errand, and no call of the second one was made for it. -/
theorem Routed.of_following (hr : v.Routed) {a b : List Placed} {x : Placed}
    (hx : v.log = a ++ x :: b) (hfollowing : v.following x = true) :
    ∃ y ∈ a, y.errand = x.errand ∧ v.leading y = true ∧ y.call.statement? = x.call.statement? ∧
      ∀ z ∈ a, z.errand = x.errand → v.following z = false := by
  obtain ⟨e, p, he, hp, hright⟩ := hr a b x hx
  have hphase : ∀ {z : Placed}, z.errand = x.errand → v.phaseOf? z = some p := by
    intro z hz
    rw [phaseOf?, hz, he]
    exact hp
  rw [following, hphase rfl, Option.bind_some, beq_iff_eq] at hfollowing
  rcases hright.goes with hon | ⟨-, -, y, hy, hyx, hyon, hok, -, hstatement⟩
  · exact absurd hon (Phase.secondary?_ne hfollowing)
  · refine ⟨y, hy, hyx, ?_, hstatement, fun z hz hzx => ?_⟩
    · rw [leading, hok, hphase hyx, hyon]
      simp
    · rw [following, hphase hzx, Option.bind_some, hfollowing, beq_eq_false_iff_ne]
      exact fun heq => hright.once z hz hzx (Option.some.inj heq).symm

/-- In calls that are sorted by errand those for the last one are at the end. -/
theorem split_last {l : List Placed} {n : Nat}
    (hsorted : l.Pairwise fun x y => x.errand ≤ y.errand) (hn : ∀ x ∈ l, x.errand ≤ n) :
    l = l.filter (fun x => x.errand ≠ n) ++ l.filter (fun x => x.errand = n) := by
  induction l with
  | nil => rfl
  | cons x l ih =>
    obtain ⟨hx, hl⟩ := List.pairwise_cons.mp hsorted
    by_cases hxn : x.errand = n
    · have hall : ∀ y ∈ l, y.errand = n := fun y hy =>
        Nat.le_antisymm (hn y (List.mem_cons_of_mem _ hy)) (hxn ▸ hx y hy)
      have hnone : (x :: l).filter (fun y => y.errand ≠ n) = [] := by
        simpa [hxn, List.filter_eq_nil_iff] using hall
      rw [hnone, List.nil_append, eq_comm, List.filter_eq_self]
      simpa [hxn] using hall
    · have hrest := ih hl fun y hy => hn y (List.mem_cons_of_mem _ hy)
      simpa [hxn] using hrest

/-- A call that repeats one of its errand, behind what the errands before it have repeated. -/
theorem sublist_snoc {β : Type} {lead follow : Placed → Bool} {f : Placed → Option β}
    {as bs : List Placed} {x y : Placed}
    (has : ((as.filter follow).filterMap f).Sublist ((as.filter lead).filterMap f))
    (hnone : bs.filter follow = []) (hy : y ∈ bs) (hlead : lead y = true) (hf : f y = f x) :
    (((as ++ bs ++ [x]).filter follow).filterMap f).Sublist
      (((as ++ bs ++ [x]).filter lead).filterMap f) := by
  have hx : (([x].filter follow).filterMap f).Sublist ([x].filterMap f) :=
    List.filter_sublist.filterMap f
  have hsame : [x].filterMap f = [y].filterMap f := by simp [List.filterMap_cons, hf]
  have hbs : ([y].filterMap f).Sublist ((bs.filter lead).filterMap f) :=
    (List.singleton_sublist.mpr (List.mem_filter.mpr ⟨hy, hlead⟩)).filterMap f
  simp only [List.filter_append, List.filterMap_append, hnone, List.append_nil]
  exact (has.append (hx.trans (hsame ▸ hbs))).trans (List.sublist_append_left ..)

/-- Of a history in which every following call repeats a leading one of its errand, and each errand
has at most one, the following calls of errands that do not overlap are in the order of the leading
ones. -/
theorem following_sublist {β : Type} {log : List Placed} {lead follow : Placed → Bool}
    {f : Placed → Option β}
    (h : ∀ (a b : List Placed) (x : Placed), log = a ++ x :: b → follow x = true →
      ∃ y ∈ a, y.errand = x.errand ∧ lead y = true ∧ f y = f x ∧
        ∀ z ∈ a, z.errand = x.errand → follow z = false) (chosen : Nat → Bool)
    (hsorted : (log.filter fun x => chosen x.errand).Pairwise fun x y => x.errand ≤ y.errand) :
    (((log.filter fun x => chosen x.errand).filter follow).filterMap f).Sublist
      (((log.filter fun x => chosen x.errand).filter lead).filterMap f) := by
  induction log using List.reverseRecOn generalizing chosen with
  | nil => exact .slnil
  | append_singleton log x ih =>
    have hlog : ∀ (a b : List Placed) (z : Placed), log = a ++ z :: b → follow z = true → _ :=
      fun a b z hz => h a (b ++ [x]) z (by rw [hz]; simp)
    rw [List.filter_append] at hsorted ⊢
    obtain ⟨hsorted', -, hlast⟩ := List.pairwise_append.mp hsorted
    by_cases hx : chosen x.errand = true ∧ follow x = true
    · obtain ⟨hchosen, hfollow⟩ := hx
      obtain ⟨y, hy, hyx, hlead, hfy, hfirst⟩ := h log [] x rfl hfollow
      -- the errand of the last call is set apart
      have hsplit := split_last hsorted' fun z hz => hlast z hz x (by simp [hchosen])
      rw [List.filter_filter, List.filter_filter] at hsplit
      have hbefore := ih hlog (fun k => decide (k ≠ x.errand) && chosen k)
        (hsorted'.sublist (by rw [← List.filter_filter]; exact List.filter_sublist))
      have hnone : (log.filter fun z => decide (z.errand = x.errand) && chosen z.errand).filter
          follow = [] := by
        rw [List.filter_eq_nil_iff]
        intro z hz
        obtain ⟨hz, hzx⟩ := List.mem_filter.mp hz
        simp only [Bool.and_eq_true, decide_eq_true_eq] at hzx
        simp [hfirst z hz hzx.1]
      have hx' : ([x].filter fun x => chosen x.errand) = [x] := by simp [hchosen]
      rw [hsplit, hx']
      exact sublist_snoc hbefore hnone (by simp [hy, hyx, hchosen]) hlead hfy
    · have hnone : ([x].filter fun x => chosen x.errand).filter follow = [] := by
        rw [List.filter_filter, List.filter_eq_nil_iff]
        rintro z hz
        rw [List.mem_singleton.mp hz]
        simpa [and_comm] using hx
      simp only [List.filter_append, List.filterMap_append]
      rw [hnone, List.filterMap_nil, List.append_nil]
      exact (ih hlog chosen hsorted').trans (List.sublist_append_left ..)

/-! ## Orders that are over -/

/-- An errand that is over has called the authoritative store, if its order takes a call at all, and
when that succeeded also the second one, if the order is repeated there. -/
def Thorough (v : Switchboard) (n : Nat) (e : Errand) (p : Phase) : Prop :=
  (∀ tx, e.order.call? tx = none) ∨ ∃ x ∈ v.madeFor n, x.on = p.authoritative ∧
    (x.succeeded = true → e.order.isRepeated = true → ∀ d, p.secondary? = some d →
      (∀ m, e.order.within? = some m → ∃ tx, (⟨m, d, .begin, .ok tx⟩ : Placed) ∈ v.log) →
      ∃ y ∈ v.madeFor n, y.on = d)

/-- An order takes a call under every number or under none. -/
theorem call?_none_congr {o : Order} {tx : Nat} (h : o.call? tx = none) (tx' : Nat) :
    o.call? tx' = none := by
  cases o <;> first | rfl | cases h

/-- The call of an order that is repeated, in a second branch. -/
theorem again?_of_secondary {o : Order} {t : Transaction} {b : Branch} {c : Side × Call}
    (hrepeated : o.isRepeated = true) (hb : t.secondary = some b)
    (hfirst : o.on? t.primary = some c) : ∃ c', o.again? t = some (b.side, c') := by
  rw [Order.again?, if_pos hrepeated, hb, Option.bind_some]
  cases hc : o.call? b.tx with
  | none =>
    rw [Order.on?, call?_none_congr hc] at hfirst
    cases hfirst
  | some c' => exact ⟨c', by rw [Order.on?, hc]; rfl⟩

theorem Sound.thorough (hs : v.Sound) {n : Nat} {e : Errand} {a : Option Transaction}
    (he : v.errands[n]? = some e) (hover : e.left = .done a) (hkept : e.givenUp = false) :
    ∃ p, v.settling? e = some p ∧ v.Thorough n e p := by
  obtain ⟨t, ht⟩ := hs.underway n e he
  obtain ⟨p, hp, hpaired⟩ := ht.concerns.paired
  refine ⟨p, hp, ?_⟩
  have hside : ∀ {x : Placed},
      e.order.on? (e.order.stores e.phase t).primary = some (x.on, x.call) →
      x.on = p.authoritative := by
    intro x hx
    obtain ⟨c, -, hc⟩ := Option.map_eq_some_iff.mp hx
    exact (Prod.mk.inj hc).1.symm.trans hpaired.primary
  rcases ht.over hover hkept with hnone | ⟨x, hx, hfirst, hagain⟩ | ⟨x, hx, y, hy, hfirst, hagain⟩
  · exact .inl (call?_none_congr (Option.map_eq_none_iff.mp hnone))
  · refine .inr ⟨x, hx, hside hfirst, fun hok hrepeated d hd hbegun => ?_⟩
    obtain ⟨b, hb, rfl⟩ := hpaired.both d hd hbegun
    obtain ⟨c, hc⟩ := again?_of_secondary hrepeated hb hfirst
    cases hc.symm.trans (hagain hok)
  · refine .inr ⟨x, hx, hside hfirst, fun hok hrepeated d hd hbegun => ⟨y, hy, ?_⟩⟩
    obtain ⟨b, hb, rfl⟩ := hpaired.both d hd hbegun
    obtain ⟨c, hc⟩ := again?_of_secondary hrepeated hb hfirst
    exact (Prod.mk.inj (Option.some.inj (hagain.symm.trans hc))).1

/-! ## The transactions' ends -/

/-- An order whose call ends a transaction is the end of one. -/
theorem isEnd_of_call? {o : Order} {tx : Nat} {x : Placed} (h : o.call? tx = some x.call)
    (hx : x.isEnd = true) : o.isEnd = true ∧ ∃ n, o.within? = some n := by
  unfold Placed.isEnd at hx
  cases o with
  | commit n | rollback n | drop n => exact ⟨rfl, n, rfl⟩
  | exec s | query s | queryRow s | columns sql | begin | execIn n s | queryIn n s
      | queryRowIn n s =>
    rw [← Option.some.inj h] at hx
    cases hx

/-- A store is asked for the end of its branch of a transaction at most once. -/
theorem Routed.ended_once (hr : v.Routed) (hs : v.Sound) {a b : List Placed} {x y : Placed}
    (hx : v.log = a ++ x :: b) (hy : y ∈ a) (hendx : x.isEnd = true) (hendy : y.isEnd = true)
    (hon : y.on = x.on) {e f : Errand} (he : v.errands[x.errand]? = some e)
    (hf : v.errands[y.errand]? = some f) : f.order.within? ≠ e.order.within? := by
  intro hsame
  obtain ⟨e', p, he', -, hright⟩ := hr a b x hx
  obtain rfl := Option.some.inj (he.symm.trans he')
  obtain ⟨a₁, a₂, rfl⟩ := List.append_of_mem hy
  obtain ⟨f', q, hf', -, hright'⟩ := hr a₁ (a₂ ++ x :: b) y (by rw [hx]; simp)
  obtain rfl := Option.some.inj (hf.symm.trans hf')
  obtain ⟨_, hcall, -⟩ := hright.asks
  obtain ⟨_, hcall', -⟩ := hright'.asks
  obtain ⟨hend, n, hn⟩ := isEnd_of_call? hcall hendx
  obtain ⟨hend', -⟩ := isEnd_of_call? hcall' hendy
  rcases Nat.lt_trichotomy y.errand x.errand with hlt | heq | hlt
  · exact hs.ended _ _ f e n hlt hf he (hsame.trans hn) hend' hn
  · exact hright.once y hy heq hon
  · exact hs.ended _ _ e f n hlt he hf hn hend (hsame.trans hn)

/-! ## The routing is frozen -/

/-- The statements of calls that have one. -/
def statements (l : List Placed) : List Statement := l.filterMap fun x => x.call.statement?

/-- What holds of the calls at a switchboard at every moment.

* Each call of a store is made for an errand and goes where it has to by the phase that settles it.
* An errand that is over has made the calls that its order takes.
* A store is asked for the end of its branch of a transaction at most once.
* Of orders that do not overlap, the statements that the second stores receive are some of those
  that the authoritative stores have carried out, in their order. -/
structure Frozen (v : Switchboard) : Prop where
  routed : v.Routed
  thorough : ∀ (n : Nat) (e : Errand) (a : Option Transaction), v.errands[n]? = some e →
    e.left = .done a → e.givenUp = false → ∃ p, v.settling? e = some p ∧ v.Thorough n e p
  endedOnce : ∀ (a b : List Placed) (x y : Placed), v.log = a ++ x :: b → y ∈ a → x.isEnd = true →
    y.isEnd = true → y.on = x.on → ∀ e f, v.errands[x.errand]? = some e →
    v.errands[y.errand]? = some f → f.order.within? ≠ e.order.within?
  inOrder : ∀ chosen : Nat → Bool,
    ((v.log.filter fun x => chosen x.errand).Pairwise fun x y => x.errand ≤ y.errand) →
    (statements ((v.log.filter fun x => chosen x.errand).filter v.following)).Sublist
      (statements ((v.log.filter fun x => chosen x.errand).filter v.leading))

/-- **The routing of the pool is frozen.**  Orders may be given, the phase may be switched, stores
may answer and fail in any order; wherever a run has come, every call that was made went where the
phase in force at the start of its order, or of its transaction, has it. -/
theorem routing_is_frozen {p : Phase} (h : Reaches (start p) v) : v.Frozen := by
  obtain ⟨hr, hs⟩ := Routed.reaches h
  exact ⟨hr, fun n e a he hover hkept => hs.thorough he hover hkept,
    fun a b x y hx hy hendx hendy hon e f he hf => hr.ended_once hs hx hy hendx hendy hon he hf,
    following_sublist fun a b x hx hfollowing => hr.of_following hx hfollowing⟩

/-- A transaction is begun on both stores, and only then the phase is switched: an order outside
transactions goes to the new authoritative store alone, while an order in the transaction and its
end go where it was begun. -/
theorem routing_is_frozen_sample :
    ∃ v, Reaches (start .srcFirst) v ∧ v.Frozen ∧
      (v.log.map fun x => (x.errand, x.on, x.call)) =
        [(0, .src, .begin), (0, .dst, .begin), (1, .src, .txExec 7 ⟨"a", []⟩),
          (2, .dst, .exec ⟨"b", []⟩), (1, .dst, .txExec 8 ⟨"a", []⟩), (3, .src, .txCommit 7),
          (3, .dst, .txCommit 8)] := by
  have hrun : Reaches (start .srcFirst) _ :=
    .tail (.tail (.tail (.tail (.tail (.tail (.tail (.tail (.tail (.tail (.tail (.tail .refl
      (.started (o := .begin) (.plain rfl)))
      (.answered (n := 0) (c := .begin) (.ok (7 : Nat)) rfl rfl))
      (.answered (n := 0) (c := .begin) (.ok (8 : Nat)) rfl rfl))
      (.switched _ .dstOnly))
      (.started (o := .execIn 0 ⟨"a", []⟩) (.inside rfl rfl rfl rfl (by decide))))
      (.started (o := .exec ⟨"b", []⟩) (.plain rfl)))
      (.answered (n := 1) (c := .txExec 7 ⟨"a", []⟩) (.ok (1 : Nat)) rfl rfl))
      (.answered (n := 2) (c := .exec ⟨"b", []⟩) (.ok (1 : Nat)) rfl rfl))
      (.answered (n := 1) (c := .txExec 8 ⟨"a", []⟩) (.ok (1 : Nat)) rfl rfl))
      (.started (o := .commit 0) (.inside rfl rfl rfl rfl (by decide))))
      (.answered (n := 3) (c := .txCommit 7) (.ok ()) rfl rfl))
      (.answered (n := 3) (c := .txCommit 8) (.ok ()) rfl rfl)
  exact ⟨_, hrun, routing_is_frozen hrun, rfl⟩

/-- The authoritative store carries out two orders that overlap, and the second one the same the
other way round. -/
theorem exists_repeated_out_of_order :
    ∃ v, Reaches (start .srcFirst) v ∧
      statements (v.log.filter v.leading) = [⟨"a", []⟩, ⟨"b", []⟩] ∧
      statements (v.log.filter v.following) = [⟨"b", []⟩, ⟨"a", []⟩] := by
  have hrun : Reaches (start .srcFirst) _ :=
    .tail (.tail (.tail (.tail (.tail (.tail .refl
      (.started (o := .exec ⟨"a", []⟩) (.plain rfl)))
      (.started (o := .exec ⟨"b", []⟩) (.plain rfl)))
      (.answered (n := 0) (c := .exec ⟨"a", []⟩) (.ok (1 : Nat)) rfl rfl))
      (.answered (n := 1) (c := .exec ⟨"b", []⟩) (.ok (1 : Nat)) rfl rfl))
      (.answered (n := 1) (c := .exec ⟨"b", []⟩) (.ok (1 : Nat)) rfl rfl))
      (.answered (n := 0) (c := .exec ⟨"a", []⟩) (.ok (1 : Nat)) rfl rfl)
  exact ⟨_, hrun, rfl, rfl⟩

/-- The second store refuses to begin a branch, and the transaction is one of the authoritative
store. -/
theorem exists_refused_branch :
    ∃ v e t, Reaches (start .srcFirst) v ∧ v.errands[0]? = some e ∧ e.order = .begin ∧
      e.left = .done (some t) ∧ t = ⟨⟨.src, 7⟩, none⟩ ∧
      ∃ x ∈ v.log, x.errand = 0 ∧ x.on = .dst := by
  have hrun : Reaches (start .srcFirst) _ :=
    .tail (.tail (.tail .refl
      (.started (o := .begin) (.plain rfl)))
      (.answered (n := 0) (c := .begin) (.ok (7 : Nat)) rfl rfl))
      (.answered (n := 0) (c := .begin) (.error (.unavailable "down")) rfl rfl)
  exact ⟨_, _, _, hrun, rfl, rfl, rfl, rfl, ⟨0, .dst, .begin, .error (.unavailable "down")⟩,
    List.mem_of_getElem? (i := 1) rfl, rfl, rfl⟩

/-- **Orders that overlap may be repeated out of order, and a store without a branch has been called
for one.**  It is not so that in every run the second stores receive their statements in the order
in which the authoritative ones carried them out, nor that every call for a transaction is made of a
store that has a branch of it: the call that the second store refuses is not. -/
theorem overlapping_orders_are_reordered :
    (¬ ∀ v, Reaches (start .srcFirst) v →
      (statements (v.log.filter v.following)).Sublist (statements (v.log.filter v.leading))) ∧
    ¬ ∀ v, Reaches (start .srcFirst) v → ∀ x ∈ v.log, ∀ e t, v.errands[x.errand]? = some e →
      e.order = .begin → e.left = .done (some t) →
      x.on = t.primary.side ∨ t.secondary.map Branch.side = some x.on := by
  constructor
  · intro hall
    obtain ⟨v, hrun, hleading, hfollowing⟩ := exists_repeated_out_of_order
    have hsub := hall v hrun
    rw [hleading, hfollowing] at hsub
    exact absurd hsub (by decide)
  · intro hall
    obtain ⟨v, e, t, hrun, he, horder, hleft, rfl, x, hx, hxn, hon⟩ := exists_refused_branch
    have hpair := hall v hrun x hx e _ (hxn ▸ he) horder hleft
    rw [hon] at hpair
    exact absurd hpair (by decide)

end Switchboard
end Cutover
