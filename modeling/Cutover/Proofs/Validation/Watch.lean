import Cutover.Proofs.Dialogue.Path
import Cutover.Proofs.History
import Cutover.Proofs.Validation.Pass

/-! # A scan of a table that changes

While an incremental scan is at work others write to the base.  What happens is one sequence
(`Happening`): a write leaves a row of the base in a new version, and between any two writes the
scan may ask for something.  Every write is stamped with a time that is not before the time of any
row in the table (`Plan.Stamps`), so a clock may stand still but does not go back.

Of a sequence it can be told whether a version of a row has been compared (`Plan.Compared`): it was
on a page, and while this page was the last one read its identity was looked up in the target and
the difference, if there was one, was published.  A version is overtaken (`Plan.Overtaken`) if the
scan had read a row of the same time and no smaller identity before the version was written.
-/

namespace Cutover

open Dialogue

/-- What happens to a scan and the base: a row is written, or the scan asks something of the tables
as they are and is answered. -/
inductive Happening where
  | wrote (v : Record)
  | asked (tables : Side → Table) (e : Exchange Scanning)

/-- What the scan has asked. -/
def exchanges (h : List Happening) : List (Exchange Scanning) :=
  h.filterMap fun
    | .wrote _ => none
    | .asked _ e => some e

section
variable (h h' : List Happening) (v : Record) (tables : Side → Table) (e : Exchange Scanning)

@[simp]
theorem exchanges_append : exchanges (h ++ h') = exchanges h ++ exchanges h' :=
  List.filterMap_append

@[simp]
theorem exchanges_wrote : exchanges [.wrote v] = [] := rfl

@[simp]
theorem exchanges_asked : exchanges [.asked tables e] = [e] := rfl

end

/-- The tables a scan compares, and what has happened so far. -/
structure Watch where
  tables : Side → Table
  history : List Happening := []

namespace Plan

variable (p : Plan)

/-! ## What a history says -/

/-- The rows of a page were read from the base. -/
def pageRead (s : Statement) (rows : List Row) : Exchange Scanning :=
  ⟨.query p.base s, some (.ok rows)⟩

/-- An identity was looked up in the target. -/
def lookedUp (id : Int64) (found : Option Row) : Exchange Scanning :=
  ⟨.queryRow p.target ((p.table.byId id).statement p.dialect), some (.ok found)⟩

/-- A difference was published. -/
def reported (id : Int64) (kind : EventKind) : Exchange Scanning :=
  ⟨.publish ⟨id, kind, p.direction⟩, some (.ok ())⟩

/-- The scan asked for a page of the base. -/
def IsPage (e : Exchange Scanning) : Prop := ∃ s, e.request = .query p.base s

/-- A row at this place was on a page. -/
def Read (h : List Happening) (k : Cursor) : Prop :=
  ∃ s rows, p.pageRead s rows ∈ exchanges h ∧ ∃ row ∈ rows, p.cursorOf row = .ok k

/-- A version of a row was compared with the target: it was on a page, and before the next page was
read its identity was looked up and what the answer makes of it was published. -/
def Compared (h : List Happening) (v : Record) : Prop :=
  ∃ before s rows during found kind after, p.difference v found = .ok kind ∧
    exchanges h = before ++ p.pageRead s rows ::
      (during ++ p.lookedUp v.id found :: (kind.toList.map (p.reported v.id) ++ after)) ∧
    v.row ∈ rows ∧ ∀ e ∈ during, ¬ p.IsPage e

/-- A version was written last of its row, and after the scan had read a row of the same time and
the same or a greater identity. -/
def Overtaken (h : List Happening) (v : Record) : Prop :=
  ∃ before after, h = before ++ .wrote v :: after ∧ (∀ v', .wrote v' ∈ after → v'.id ≠ v.id) ∧
    ∃ k k', p.cursorOf v.row = .ok k ∧ p.Read before k' ∧ k'.sort = k.sort ∧ k.id ≤ k'.id

/-- Of every page that was not full, the versions that the base then held with a time behind the
cutoff have been compared, but for those excused by what had happened before the page. -/
def Settled (excused : List Happening → Record → Prop) (h : List Happening) : Prop :=
  ∀ before tables s rows after, h = before ++ .asked tables (p.pageRead s rows) :: after →
    rows.length < p.batch → ∀ r ∈ (tables p.base).rows, ∀ u,
    (tables p.base).number? r p.table.utimeColumn = some u → p.utimeAfter < u →
    p.Compared h ((tables p.base).recordOf p.table r) ∨
      excused before ((tables p.base).recordOf p.table r)

/-- Whenever the scan comes to rest, all that was held by the pages before is settled. -/
def Covered (excused : List Happening → Record → Prop) (h : List Happening) : Prop :=
  ∀ before tables d reply after, h = before ++ .asked tables ⟨.rest d, reply⟩ :: after →
    p.Settled excused before

/-! ## Writes -/

/-- A row is written, new or in place of another version, with a time that is not before any time in
the table. -/
structure Stamps (t : Table) (v : Record) (t' : Table) : Prop where
  scans : p.Scans t'
  columns : t'.columns = t.columns
  there : ∃ r ∈ t'.rows, t'.recordOf p.table r = v ∧ ∃ u, t'.number? r p.table.utimeColumn =
    some u ∧ ∀ r₀ ∈ t.rows, ∀ u₀, t.number? r₀ p.table.utimeColumn = some u₀ → u₀ ≤ u
  elsewhere : ∀ r, t.idOf p.table r ≠ v.id → (r ∈ t'.rows ↔ r ∈ t.rows)

/-- Any number of writes. -/
inductive Written : Table → List Record → Table → Prop where
  | none (t : Table) : Written t [] t
  | more {t t' t'' : Table} {v : Record} {vs : List Record} : p.Stamps t v t' → Written t' vs t'' →
      Written t (v :: vs) t''

/-- How a scan is answered while the base is written: any number of writes come before an answer,
the target may become any other table, and nothing fails. -/
def watched : Surroundings Scanning Watch := fun w r reply w' =>
  ∃ vs, p.Written (w.tables p.base) vs (w'.tables p.base) ∧ (w'.tables p.target).Fits p.table ∧
    Scanning.Undisturbed w'.tables r reply ∧
    w'.history = w.history ++ vs.map .wrote ++ [.asked w'.tables ⟨r, reply⟩]

variable {p} {h : List Happening} {x : Happening} {v : Record}
  {excused : List Happening → Record → Prop}

/-! ## What stays true -/

theorem Read.mono {k : Cursor} (hk : p.Read h k) (h' : List Happening) : p.Read (h ++ h') k := by
  obtain ⟨s, rows, hpage, hrow⟩ := hk
  refine ⟨s, rows, ?_, hrow⟩
  rw [exchanges_append]
  exact List.mem_append_left _ hpage

theorem Compared.mono (hv : p.Compared h v) (h' : List Happening) : p.Compared (h ++ h') v := by
  obtain ⟨before, s, rows, during, found, kind, after, hkind, he, hrow, hduring⟩ := hv
  refine ⟨before, s, rows, during, found, kind, after ++ exchanges h', hkind, ?_, hrow, hduring⟩
  rw [exchanges_append, he]
  simp

/-- A version is overtaken as long as its row is not written again. -/
theorem Overtaken.snoc (hv : p.Overtaken h v) (hx : ∀ v', x = .wrote v' → v'.id ≠ v.id) :
    p.Overtaken (h ++ [x]) v := by
  obtain ⟨before, after, rfl, hlater, hread⟩ := hv
  refine ⟨before, after ++ [x], by simp, ?_, hread⟩
  intro v' hv'
  rcases List.mem_append.mp hv' with hv' | hv'
  · exact hlater v' hv'
  · exact hx v' (List.mem_singleton.mp hv').symm

theorem Settled.imp {excused' : List Happening → Record → Prop} (hh : p.Settled excused h)
    (himp : ∀ before v, excused before v → p.Compared h v ∨ excused' before v) :
    p.Settled excused' h := by
  intro before tables s rows after he hshort r hr u hu hcutoff
  rcases hh before tables s rows after he hshort r hr u hu hcutoff with hcompared | hexcused
  · exact .inl hcompared
  · exact himp before _ hexcused

/-- One more thing that happens leaves everything settled, if it is not itself a page of which
something is left. -/
theorem Settled.snoc (hh : p.Settled excused h)
    (hx : ∀ tables s rows, x = .asked tables (p.pageRead s rows) → rows.length < p.batch →
      ∀ r ∈ (tables p.base).rows, ∀ u,
      (tables p.base).number? r p.table.utimeColumn = some u → p.utimeAfter < u →
      p.Compared h ((tables p.base).recordOf p.table r) ∨
        excused h ((tables p.base).recordOf p.table r)) :
    p.Settled excused (h ++ [x]) := by
  intro before tables s rows after he hshort r hr u hu hcutoff
  rcases snoc_eq_append_cons he with ⟨rfl, hlast, rfl⟩ | ⟨after', rfl, hbefore⟩
  · exact (hx tables s rows hlast.symm hshort r hr u hu hcutoff).imp_left (·.mono [x])
  · exact (hh before tables s rows after' hbefore hshort r hr u hu hcutoff).imp_left (·.mono [x])

theorem settled_nil : p.Settled excused [] := by
  intro before tables s rows after he
  simp at he

theorem covered_nil : p.Covered excused [] := by
  intro before tables d reply after he
  simp at he

theorem Covered.snoc (hh : p.Covered excused h)
    (hx : ∀ tables d reply, x = .asked tables ⟨.rest d, reply⟩ → p.Settled excused h) :
    p.Covered excused (h ++ [x]) := by
  intro before tables d reply after he
  rcases snoc_eq_append_cons he with ⟨rfl, hlast, rfl⟩ | ⟨after', rfl, hbefore⟩
  · exact hx tables d reply hlast.symm
  · exact hh before tables d reply after' hbefore

theorem Covered.of_append {h' : List Happening} (hh : p.Covered excused (h ++ h')) :
    p.Covered excused h := fun before tables d reply after he =>
  hh before tables d reply (after ++ h') (by simp [he])

end Plan
end Cutover
