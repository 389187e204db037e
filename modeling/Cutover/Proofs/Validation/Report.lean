import Cutover.Proofs.Validation.Pass
import Mathlib.Data.List.Perm.Basic

/-! # What a full validation reports

The two scans of a validation share one record of what has been published.  A scan publishes what it
finds of the rows it visits, so whichever of the two goes first at any moment, every run of a
validation over tables that stay as they are comes to an end, and at the end the record holds the
differences between the tables and nothing else, each scan having published in the order of the
identities (`full_validation_reports_differences`).
-/

namespace Cutover

open Dialogue

/-! ## One record for both scans -/

namespace Scanning

/-- What has been published, and by which scan. -/
abbrev Record := List (Way × Event)

/-- The events published by the scan of a way. -/
def Record.own (way : Way) (record : Record) : List Event :=
  (record.filter fun e => e.1 = way).map (·.2)

/-- Surroundings of both scans: tables that stay as they are, and one record. -/
def sideBySide (tables : Side → Table) : Way → Surroundings Scanning Record :=
  fun way record r reply record' =>
    Undisturbed tables r reply ∧ record' = record ++ r.published.map (way, ·)

theorem Record.own_append_self (way : Way) (record : Record) (es : List Event) :
    Record.own way (record ++ es.map (way, ·)) = record.own way ++ es := by
  have hown : (es.map (way, ·)).filter (fun e => decide (e.1 = way)) = es.map (way, ·) :=
    List.filter_eq_self.mpr fun e he => by
      obtain ⟨e, -, rfl⟩ := List.mem_map.mp he
      simp
  rw [own, List.filter_append, hown, List.map_append, List.map_map]
  simp [own, Function.comp_def]

theorem Record.own_append_other {way other : Way} (hne : other ≠ way) (record : Record)
    (es : List Event) : Record.own other (record ++ es.map (way, ·)) = record.own other := by
  have hnone : (es.map (way, ·)).filter (fun e => decide (e.1 = other)) = [] :=
    List.filter_eq_nil_iff.mpr fun e he => by
      obtain ⟨e, -, rfl⟩ := List.mem_map.mp he
      simp [Ne.symm hne]
  rw [own, List.filter_append, hnone, List.append_nil, own]

/-- Every event was published by one of the scans. -/
theorem Record.perm_own (record : Record) :
    (record.map (·.2)).Perm (record.own .forward ++ record.own .backward) := by
  rw [own, own, ← List.map_append]
  refine List.Perm.map _ ?_
  have hother : record.filter (fun e => decide (e.1 = Way.backward)) =
      record.filter (fun e => !decide (e.1 = Way.forward)) :=
    List.filter_congr fun e _ => by cases e.1 <;> rfl
  rw [hother]
  exact (List.filter_append_perm _ record).symm

/-- A step of a scan that shares the record is a step of this scan by itself. -/
theorem step_own {p : Plan} {tables : Side → Table} {way : Way} {record record' : Record}
    {c c' : Scanner} (h : (p.scan way).Step (sideBySide tables way) (record, c) (record', c')) :
    (p.scan way).Step (undisturbed tables) (record.own way, c) (Record.own way record', c') ∧
      ∀ other ≠ way, Record.own other record' = record.own other := by
  cases h with
  | answered hg =>
    obtain ⟨hreply, rfl⟩ := hg
    refine ⟨.answered ⟨hreply, Record.own_append_self way record _⟩, fun other hne => ?_⟩
    exact Record.own_append_other hne record _
  | rounded s v => exact ⟨.rounded _ v, fun _ _ => rfl⟩

end Scanning

namespace Plan

open Scanning (undisturbed sideBySide)

variable (p : Plan) (tables : Side → Table)

/-! ## The differences -/

/-- The differences between the tables, as events: of each row of the base in scope, that the target
lacks its identity or holds another row there; of each row of the target in scope, that the base
lacks its identity. -/
def differences : List Event :=
  p.eventsOf tables .forward ((tables p.base).rows.filter (p.inScope (tables p.base))) ++
    p.eventsOf tables .backward ((tables p.target).rows.filter (p.inScope (tables p.target)))

/-- What a validation that ends with a tally has published. -/
structure Reported (record : Scanning.Record) (tally : Tally) : Prop where
  differences : (record.map (·.2)).Perm (p.differences tables)
  direction : ∀ e ∈ record, e.2.direction = p.direction
  ordered : ∀ way, (record.own way).Pairwise fun a b => a.id < b.id
  scanned : tally.scanned =
    ((tables p.base).rows.filter (p.inScope (tables p.base))).length +
      ((tables p.target).rows.filter (p.inScope (tables p.target))).length
  errors : tally.errors = 0

variable {p tables}

theorem Scans.of_byId {t : Table} (hid : p.byId = true) (h : t.Fits p.table)
    (hutime : 0 < p.utimeAfter → t.HasColumn p.table.utimeColumn) : p.Scans t where
  toFits := h
  sort_column := h.id_column.congr (by rw [sameName_comm]; exact sameName_of_byId hid)
  utime_column := hutime
  sort_int := fun r hr => .inr (by
    rw [Table.cell_congr (sameName_of_byId hid)]
    exact h.id_int r hr)

/-- In the order of the identities every row has its place. -/
theorem visiting_perm (hid : p.byId = true) (t : Table) :
    (p.visiting t).Perm (t.rows.filter (p.inScope t)) := by
  have hplaced : ∀ r ∈ t.rows, (p.inScope t r && p.placed t r) = p.inScope t r := fun r _ => by
    rw [placed, hid, Bool.true_or, Bool.and_true]
  rw [visiting, List.filter_congr hplaced]
  exact List.mergeSort_perm _ _

theorem eventsOf_perm {way : Way} {as bs : List (List Value)} (h : as.Perm bs) :
    (p.eventsOf tables way as).Perm (p.eventsOf tables way bs) := h.filterMap _

theorem id_finding (way : Way) (r : List Value) :
    (p.finding tables way r).id = (p.scanned tables way).idOf p.table r := by
  cases way <;> rfl

/-- A scan by identity publishes in the order of the identities. -/
theorem pairwise_eventsOf_visiting (way : Way) (hid : p.byId = true)
    (h : p.Scans (p.scanned tables way)) :
    (p.eventsOf tables way (p.visiting (p.scanned tables way))).Pairwise
      fun a b => a.id < b.id := by
  refine List.Pairwise.filterMap _ ?_ h.pairwise_visiting
  intro a b hab e he e' he'
  obtain ⟨k, -, rfl⟩ := Option.map_eq_some_iff.mp he
  obtain ⟨k', -, rfl⟩ := Option.map_eq_some_iff.mp he'
  simp only [Before, hid, if_true] at hab
  simp only [id_finding]
  exact hab

theorem tally_count (t : Tally) (f : Finding) :
    (t.count f).scanned = t.scanned + 1 ∧ (t.count f).errors = t.errors := by
  unfold Tally.count
  cases f.kind with
  | none => exact ⟨rfl, rfl⟩
  | some k => cases k <;> exact ⟨rfl, rfl⟩

theorem tallyOf_scanned (way : Way) (rows : List (List Value)) (t : Tally) :
    (p.tallyOf tables way rows t).scanned = t.scanned + rows.length ∧
      (p.tallyOf tables way rows t).errors = t.errors := by
  induction rows generalizing t with
  | nil => exact ⟨rfl, rfl⟩
  | cons r rows ih =>
    obtain ⟨hs, he⟩ := ih (t.count (p.finding tables way r))
    obtain ⟨hs', he'⟩ := tally_count t (p.finding tables way r)
    rw [tallyOf_cons, hs, he, hs', he', List.length_cons]
    exact ⟨by omega, rfl⟩

/-- Once both scans have published what they found, the differences are reported. -/
theorem reported_of_completed (hid : p.byId = true) (hbase : p.Scans (tables p.base))
    (htarget : p.Scans (tables p.target)) {record : Scanning.Record} {f b : Tally}
    (hf : p.Completed tables .forward (.ok f) (record.own .forward))
    (hb : p.Completed tables .backward (.ok b) (record.own .backward)) :
    p.Reported tables record (f + b) := by
  obtain ⟨htallyf, hforward⟩ := hf
  obtain ⟨htallyb, hbackward⟩ := hb
  cases htallyf
  cases htallyb
  have hperm : (record.map (·.2)).Perm (p.differences tables) := by
    refine record.perm_own.trans ?_
    rw [hforward, hbackward]
    exact (eventsOf_perm (visiting_perm hid _)).append (eventsOf_perm (visiting_perm hid _))
  refine ⟨hperm, fun e he => ?_, fun way => ?_, ?_, ?_⟩
  · have hmem := hperm.mem_iff.mp (List.mem_map_of_mem (f := (·.2)) he)
    rcases List.mem_append.mp hmem with hmem | hmem <;>
    · obtain ⟨r, -, hr⟩ := List.mem_filterMap.mp hmem
      obtain ⟨k, -, hk⟩ := Option.map_eq_some_iff.mp hr
      rw [← hk]
  · cases way with
    | forward => exact hforward ▸ pairwise_eventsOf_visiting .forward hid hbase
    | backward => exact hbackward ▸ pairwise_eventsOf_visiting .backward hid htarget
  · have hlf := (visiting_perm hid (tables p.base)).length_eq
    have hlb := (visiting_perm hid (tables p.target)).length_eq
    show (_ : Tally).scanned + (_ : Tally).scanned = _
    rw [(tallyOf_scanned _ _ _).1, (tallyOf_scanned _ _ _).1, ← hlf, ← hlb]
    simp [scanned]
  · show (_ : Tally).errors + (_ : Tally).errors = _
    rw [(tallyOf_scanned _ _ _).2, (tallyOf_scanned _ _ _).2]
    rfl

/-! ## Every run -/

/-- What both scans have promised. -/
def Promised (p : Plan) (tables : Side → Table) (v : Validating Scanning.Record) : Prop :=
  ∀ way, (p.scan way).Promises (undisturbed tables) (p.Visited tables way)
    (p.Completed tables way) (v.scanner way) (v.shared.own way)

section
variable (hs : Sql.IsName p.sort) (hfull : p.isFull = true)
  (hbase : p.Scans (tables p.base)) (htarget : p.Scans (tables p.target))

include hs hfull hbase htarget

theorem pass_renews (way : Way) (g : Progress) (es : List Event) (hg : p.Visited tables way g es) :
    ((p.scan way).round g).Ensures (undisturbed tables)
      ((p.scan way).Turns (p.Visited tables way) (p.Completed tables way)) es := by
  exact (ensures_pass hs hfull hbase htarget way hg).mono fun v es' hv =>
    Loop.Turns.mono (fun _ _ h => h.1) hv

theorem promised_start : p.Promised tables (Validating.start p []) := by
  intro way
  exact pass_renews hs hfull hbase htarget way {} [] ⟨[], _, rfl, rfl, rfl⟩

/-- Each step of the validation keeps what both scans have promised. -/
theorem Promised.step {v v' : Validating Scanning.Record} (hv : p.Promised tables v)
    (hstep : Validating.Step p (sideBySide tables) v v') : p.Promised tables v' := by
  obtain ⟨way, hscan, hscanners⟩ := hstep.exists_scan
  obtain ⟨hown, hothers⟩ := Scanning.step_own hscan
  intro other
  by_cases hw : other = way
  · subst hw
    exact (hv other).step (pass_renews hs hfull hbase htarget other) hown
  · rw [hscanners other hw, hothers other hw]
    exact hv other

theorem Promised.reaches {v v' : Validating Scanning.Record} (hv : p.Promised tables v)
    (h : Validating.Reaches p (sideBySide tables) v v') : p.Promised tables v' := by
  induction h with
  | refl => exact hv
  | tail _ hstep ih => exact ih.step hs hfull hbase htarget hstep

/-- No run of a validation is infinite: each of its scans comes nearer to its end. -/
theorem Promised.acc {v : Validating Scanning.Record} (hv : p.Promised tables v) :
    Acc (fun a b => Validating.Step p (sideBySide tables) b a) v := by
  refine Validating.acc_of_own (fun way record => record.own way) Scanning.step_own fun way => ?_
  exact (hv way).acc (fun g _ => p.left tables way g) fun g es hg =>
    ensures_pass hs hfull hbase htarget way hg

end

/-- A validation whose scans keep their promises is over with both of them, or can go on. -/
theorem Promised.outcome {v : Validating Scanning.Record} (hv : p.Promised tables v) :
    (v.outcome? = none ∧ ∃ v', Validating.Step p (sideBySide tables) v v') ∨
      ∃ f b, v.outcome? = some (.ok (f + b)) ∧
        p.Completed tables .forward (.ok f) (v.shared.own .forward) ∧
        p.Completed tables .backward (.ok b) (v.shared.own .backward) := by
  have hgoes : ∀ way d, v.scanner way = .running d →
      ∃ x, (p.scan way).Step (sideBySide tables way) (v.shared, v.scanner way) x := by
    intro way d hd
    rw [hd]
    cases d with
    | done verdict => exact ⟨_, .rounded _ verdict⟩
    | ask r next =>
      obtain ⟨reply, hreply⟩ := Scanning.exists_undisturbed tables r
      exact ⟨_, .answered ⟨hreply, rfl⟩⟩
  have hends : ∀ way outcome, v.scanner way = .ended outcome →
      ∃ t, outcome = .ok t ∧ p.Completed tables way (.ok t) (v.shared.own way) := by
    intro way outcome hover
    have hway := hv way
    rw [hover] at hway
    obtain ⟨rfl, hevents⟩ := hway
    exact ⟨_, rfl, rfl, hevents⟩
  refine (Validating.outcome_of_ends hends).imp_left ?_
  rintro ⟨hopen, way, d, hd⟩
  obtain ⟨⟨s', c'⟩, hstep⟩ := hgoes way d hd
  exact ⟨hopen, _, .scan way hopen hstep⟩

/-- A validation whose scans keep their promises can go on or has reported the differences. -/
theorem Promised.reported (hid : p.byId = true) (hbase : p.Scans (tables p.base))
    (htarget : p.Scans (tables p.target)) {v : Validating Scanning.Record}
    (hv : p.Promised tables v) :
    (v.outcome? = none ∧ ∃ v', Validating.Step p (sideBySide tables) v v') ∨
      ∃ tally, v.outcome? = some (.ok tally) ∧ p.Reported tables v.shared tally := by
  rcases hv.outcome with hopen | ⟨f, b, hout, hf, hb⟩
  · exact .inl hopen
  · exact .inr ⟨_, hout, reported_of_completed hid hbase htarget hf hb⟩

/-- A full validation ends, and has reported the differences then. -/
theorem ends_reported (hs : Sql.IsName p.sort) (hid : p.byId = true) (hfull : p.isFull = true)
    (hbase : p.Scans (tables p.base)) (htarget : p.Scans (tables p.target)) :
    Ends (Validating.Step p (sideBySide tables))
      (fun v => ∃ tally, v.outcome? = some (.ok tally) ∧ p.Reported tables v.shared tally)
      (Validating.start p []) := by
  have hstart := promised_start hs hfull hbase htarget
  refine ⟨hstart.acc hs hfull hbase htarget, fun v hv => ?_⟩
  have hpromised := hstart.reaches hs hfull hbase htarget hv
  exact (hpromised.reported hid hbase htarget).imp_left And.right

/-- **A full validation reports exactly the differences.**  Let the tables stay as they are and
nothing fail.  Whatever the load and whichever scan goes first at any moment, no run of the
validation is infinite, and a run that cannot go on has ended with a tally, all differences having
been published and nothing else. -/
theorem full_validation_reports_differences (hs : Sql.IsName p.sort) (hid : p.byId = true)
    (hfull : p.isFull = true) (hbase : (tables p.base).Fits p.table)
    (htarget : (tables p.target).Fits p.table)
    (hutime : 0 < p.utimeAfter → (tables p.base).HasColumn p.table.utimeColumn ∧
      (tables p.target).HasColumn p.table.utimeColumn) :
    Acc (fun a b => Validating.Step p (sideBySide tables) b a) (Validating.start p []) ∧
      ∀ v, Validating.Reaches p (sideBySide tables) (Validating.start p []) v →
        (v.outcome? = none ∧ ∃ v', Validating.Step p (sideBySide tables) v v') ∨
          ∃ tally, v.outcome? = some (.ok tally) ∧ p.Reported tables v.shared tally := by
  have hscanBase : p.Scans (tables p.base) := .of_byId hid hbase fun hu => (hutime hu).1
  have hscanTarget : p.Scans (tables p.target) := .of_byId hid htarget fun hu => (hutime hu).2
  have hstart := promised_start hs hfull hscanBase hscanTarget
  refine ⟨hstart.acc hs hfull hscanBase hscanTarget, fun v hv => ?_⟩
  exact (hstart.reaches hs hfull hscanBase hscanTarget hv).reported hid hscanBase hscanTarget

/-- A full validation in pages of one row, with a cutoff. -/
def fullPlan : Plan where
  base := .src
  target := .dst
  direction := .src
  table := .items
  sort := "id"
  utimeAfter := 3
  batch := 1
  batch_pos := Nat.one_pos

/-- Tables that differ in each of the three ways. -/
def differingTables : Side → Table
  | .src => ⟨"items", "id", ["id", "utime", "name"],
      [[.int 2, .int 5, .text "a"], [.int 1, .int 7, .null], [.int 5, .int 2, .null]]⟩
  | .dst => ⟨"items", "id", ["id", "name", "utime"],
      [[.int 3, .null, .int 9], [.int 2, .text "b", .int 5]]⟩

theorem full_validation_reports_differences_sample :
    (Sql.IsName fullPlan.sort ∧ fullPlan.byId = true ∧ fullPlan.isFull = true ∧
      (differingTables fullPlan.base).Fits fullPlan.table ∧
      (differingTables fullPlan.target).Fits fullPlan.table ∧
      (0 < fullPlan.utimeAfter →
        (differingTables fullPlan.base).HasColumn fullPlan.table.utimeColumn ∧
          (differingTables fullPlan.target).HasColumn fullPlan.table.utimeColumn)) ∧
    Acc (fun a b => Validating.Step fullPlan (sideBySide differingTables) b a)
        (Validating.start fullPlan []) ∧
      ∀ v, Validating.Reaches fullPlan (sideBySide differingTables) (Validating.start fullPlan [])
        v → (v.outcome? = none ∧ ∃ v', Validating.Step fullPlan (sideBySide differingTables) v v') ∨
          ∃ tally, v.outcome? = some (.ok tally) ∧
            fullPlan.Reported differingTables v.shared tally :=
  have hs : Sql.IsName fullPlan.sort := by decide
  have hid : fullPlan.byId = true := by decide +kernel
  have hbase : (differingTables fullPlan.base).Fits fullPlan.table := by decide +kernel
  have htarget : (differingTables fullPlan.target).Fits fullPlan.table := by decide +kernel
  have hutime : (differingTables fullPlan.base).HasColumn fullPlan.table.utimeColumn ∧
      (differingTables fullPlan.target).HasColumn fullPlan.table.utimeColumn := by decide +kernel
  ⟨⟨hs, hid, rfl, hbase, htarget, fun _ => hutime⟩,
    full_validation_reports_differences hs hid rfl hbase htarget fun _ => hutime⟩

end Plan
end Cutover
