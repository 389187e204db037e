import Cutover.Proofs.Sql.Identifier
import Cutover.Proofs.Sql.Template
import Cutover.Proofs.Table.Change
import Cutover.Proofs.Table.Meaning

/-! # The texts of the statements are templates

What is asked of the statements of a table is a `Request`.  Its `Shape` is what is left of it
without the values: which names it brings, which of its optional clauses are there, and how many
arguments.  A statement is the template of the shape (`TableSpec.template`) with the names in place,
so its text says nothing about the values, and is cut into tokens as the template is, whatever the
names are.
-/

namespace Cutover

open Sql Sql.Template

namespace TableSpec

/-! ## Requests -/

/-- A request for a statement. -/
inductive Request where
  | all
  | byId (id : Int64)
  | idsIn (ids : List Int64)
  | page (p : Page)
  | upsert (row : Row) (columns : List String)
  | deleteById (id : Int64)

/-- What is left of a request without its values. -/
inductive Shape where
  | all
  | byId
  | idsIn (count : Nat)
  | page (sort : String) (cutoff cursor idsOnly : Bool) (limit : Nat)
  | upsert (columns : List String)
  | deleteById
  deriving DecidableEq

namespace Request

/-- The shape of a request. -/
def shape : Request → Shape
  | .all => .all
  | .byId _ => .byId
  | .idsIn ids => .idsIn ids.length
  | .page p => .page p.sort (decide (0 < p.utimeAfter)) p.cursor.isSome p.idsOnly p.limit
  | .upsert _ columns => .upsert columns
  | .deleteById _ => .deleteById

/-- The names that a request brings. -/
def names : Request → List String
  | .page p => [p.sort]
  | .upsert _ columns => columns
  | .all | .byId _ | .idsIn _ | .deleteById _ => []

/-- The values of a request. -/
def values (t : TableSpec) : Request → List Value
  | .all => []
  | .byId id | .deleteById id => [.int id]
  | .idsIn ids => ids.map .int
  | .page p => (if 0 < p.utimeAfter then [.int p.utimeAfter] else []) ++
    match p.cursor with
    | none => []
    | some c => if t.sortsById p.sort then [.int c.id] else [.int c.sort, .int c.sort, .int c.id]
  | .upsert row columns => columns.map row.cell

end Request

variable (t : TableSpec)

/-- The command of a request, with its arguments. -/
def bound : Request → Except StoreError BoundCommand
  | .all => .ok ⟨t.selectAll, []⟩
  | .byId id => .ok (t.byId id)
  | .idsIn ids => .ok (t.idsIn ids)
  | .page p => t.page p
  | .upsert row columns => t.upsert row columns
  | .deleteById id => .ok (t.deleteById id)

/-! ## Templates -/

/-- The marks of the first arguments. -/
def marks (n : Nat) : Template := joined ", " ((List.range' 1 n).map fun i => [.mark i])

/-- Names with commas between them. -/
def listed (names : List String) : Template := joined ", " (names.map fun n => [.name n])

/-- Conditions that must all hold. -/
def whereTemplate (conditions : List Template) : Template :=
  if conditions.isEmpty then [] else .text " WHERE " :: joined " AND " conditions

/-- The conditions of a page. -/
def pageConditions (sort : String) (cutoff cursor : Bool) : List Template :=
  let n := if cutoff then 1 else 0
  (if cutoff then [[.name t.utimeColumn, .text " > ", .mark 1]] else []) ++
  (if t.sortsById sort then [] else [[.name sort, .text " IS NOT NULL"]]) ++
  if cursor then
    if t.sortsById sort then [[.name t.idColumn, .text " > ", .mark (n + 1)]]
    else [[.text "(", .name sort, .text " > ", .mark (n + 1), .text " OR (", .name sort,
      .text " = ", .mark (n + 2), .text " AND ", .name t.idColumn, .text " > ", .mark (n + 3),
      .text "))"]]
  else []

/-- What an upsert does on a conflict. -/
def conflictTemplate (d : Dialect) (columns : List String) : Template :=
  let rest := t.overwritten columns
  match d with
  | .mysql => .text " ON DUPLICATE KEY UPDATE " ::
    if rest.isEmpty then [.name t.idColumn, .text " = ", .name t.idColumn]
    else joined ", " (rest.map fun c => [.name c, .text " = VALUES(", .name c, .text ")"])
  | .postgres | .sqlite => .text " ON CONFLICT (" :: .name t.idColumn ::
    if rest.isEmpty then [.text ") DO NOTHING"]
    else .text ") DO UPDATE SET " :: joined ", " (rest.map fun c =>
      [.name c, .text " = ", .excluded c])

/-- The template of a shape. -/
def template (d : Dialect) : Shape → Template
  | .all => [.text "SELECT * FROM ", .name t.name]
  | .byId => [.text "SELECT * FROM ", .name t.name, .text " WHERE ", .name t.idColumn, .text " = ",
      .mark 1]
  | .idsIn count => .text "SELECT " :: .name t.idColumn :: .text " FROM " :: .name t.name ::
      .text " WHERE " :: .name t.idColumn :: .text " IN (" :: marks count ++ [.text ")"]
  | .page sort cutoff cursor idsOnly limit =>
    let own := t.sortsById sort
    .text "SELECT " ::
      (if idsOnly then
        if own then [.name t.idColumn] else [.name t.idColumn, .text ", ", .name sort]
       else [.text "*"]) ++
      .text " FROM " :: .name t.name :: whereTemplate (t.pageConditions sort cutoff cursor) ++
      .text " ORDER BY " ::
      (if own then [.name t.idColumn] else [.name sort, .text ", ", .name t.idColumn]) ++
      [.text " LIMIT ", .number (max limit 1)]
  | .upsert columns => .text "INSERT INTO " :: .name t.name :: .text " (" :: listed columns ++
      .text ") VALUES (" :: marks columns.length ++ .text ")" :: t.conflictTemplate d columns
  | .deleteById => [.text "DELETE FROM ", .name t.name, .text " WHERE ", .name t.idColumn,
      .text " = ", .mark 1]

variable {t} {d : Dialect} {r : Request} {b : BoundCommand}

/-- A fixed text that was put together from two. -/
theorem append_fixed (z x y : String) (h : x ++ y = z) (rest : String) :
    z ++ rest = x ++ (y ++ rest) := by
  rw [← h, String.append_assoc]

theorem render_marks (n : Nat) :
    (marks n).render d = commaSeparated ((List.range' 1 n).map d.placeholder) := by
  rw [marks, render_joined, List.map_map, commaSeparated]
  simp [Function.comp_def, Piece.render]

theorem render_listed (names : List String) : (listed names).render d = commaSeparated names := by
  rw [listed, render_joined, List.map_map, commaSeparated]
  simp [Function.comp_def, Piece.render]

theorem render_conflictTemplate (columns : List String) :
    (t.conflictTemplate d columns).render d =
      (if (t.overwritten columns).isEmpty then Conflict.keep (some t.idColumn)
       else .overwrite (some t.idColumn) (t.overwritten columns)).render d := by
  have hvalues : ∀ cs : List String,
      (joined ", " (cs.map fun c => [.name c, .text " = VALUES(", .name c, .text ")"])).render d =
        commaSeparated (cs.map fun c => c ++ " = VALUES(" ++ c ++ ")") := fun cs => by
    rw [render_joined, List.map_map, commaSeparated]
    simp [Function.comp_def, Piece.render, String.append_assoc]
  have hexcluded : ∀ cs : List String,
      (joined ", " (cs.map fun c => [.name c, .text " = ", .excluded c])).render d =
        commaSeparated (cs.map fun c => c ++ " = excluded." ++ c) := fun cs => by
    have hfixed := append_fixed " = excluded." " = " "excluded." rfl
    rw [render_joined, List.map_map, commaSeparated]
    simp [Function.comp_def, Piece.render, String.append_assoc, hfixed]
  by_cases hover : (t.overwritten columns).isEmpty = true
  · simp only [conflictTemplate, hover, if_true]
    cases d with
    | mysql =>
      show _ = " ON DUPLICATE KEY UPDATE " ++ t.idColumn ++ " = " ++ t.idColumn
      simp only [render_cons, render_nil, Piece.render, String.append_empty, String.append_assoc]
    | postgres | sqlite =>
      show _ = " ON CONFLICT (" ++ t.idColumn ++ ") DO NOTHING"
      simp only [render_cons, render_nil, Piece.render, String.append_empty, String.append_assoc]
  · simp only [conflictTemplate, hover]
    cases d with
    | mysql => exact (render_cons _).trans (congrArg _ (hvalues _))
    | postgres | sqlite =>
      show _ = " ON CONFLICT (" ++ t.idColumn ++ ") DO UPDATE SET " ++
        commaSeparated ((t.overwritten columns).map fun c => c ++ " = excluded." ++ c)
      simp only [render_cons, hexcluded, Piece.render, String.append_assoc, Bool.false_eq_true,
        if_false]

theorem render_whereTemplate {pss : List Template} {cs : List Condition}
    (h : pss.map (Template.render d) = cs.map (Condition.render d)) :
    (whereTemplate pss).render d = renderWhere d cs := by
  have hempty : pss.isEmpty = cs.isEmpty := by
    have hmaps := congrArg List.isEmpty h
    rwa [List.isEmpty_map, List.isEmpty_map] at hmaps
  rw [whereTemplate, renderWhere, hempty, ← h]
  split
  · rfl
  · rw [render_cons, render_joined, Piece.render]

/-- The text of a page's conditions. -/
theorem render_pageConditions (p : Page) :
    (t.pageConditions p.sort (decide (0 < p.utimeAfter)) p.cursor.isSome).map (Template.render d) =
      (t.cutoffConditions p ++ (if t.sortsById p.sort then [] else [Condition.present p.sort]) ++
        t.cursorConditions p p.cutoffArgs.length).map (Condition.render d) := by
  have hor := append_fixed " OR (" " OR " "(" rfl
  simp only [pageConditions, cutoffConditions, cursorConditions, Page.cutoffArgs]
  by_cases hcutoff : 0 < p.utimeAfter <;> by_cases hown : t.sortsById p.sort = true <;>
    cases p.cursor <;>
      simp [hcutoff, hown, Condition.render, Piece.render, String.append_assoc, hor]

/-- **The text of a statement is the template of its shape.** -/
theorem render_template (h : t.bound r = .ok b) :
    b.command.render d = (t.template d r.shape).render d := by
  cases r with
  | all =>
    cases h
    simp [Request.shape, template, selectAll, Command.render, Select.render, renderWhere,
      Piece.render]
  | byId id =>
    cases h
    simp [Request.shape, template, byId, Command.render, Select.render, renderWhere,
      Condition.render, Piece.render, String.append_assoc]
  | idsIn ids =>
    cases h
    simp [Request.shape, template, idsIn, Command.render, Select.render, renderWhere,
      Condition.render, Piece.render, String.append_assoc, render_marks, commaSeparated]
  | page p =>
    have h : t.page p = .ok b := h
    obtain ⟨-, rfl⟩ := page_eq_ok_iff.mp h
    have hwhere := render_whereTemplate (render_pageConditions (t := t) (d := d) p)
    have hstar := append_fixed "SELECT * FROM " "SELECT *" " FROM " rfl
    simp only [Request.shape, template, pageCommand, Command.render, Select.render, ← hwhere,
      render_cons, render_append, Piece.render]
    by_cases hown : t.sortsById p.sort = true <;> by_cases hids : p.idsOnly = true <;>
      simp [hown, hids, Piece.render, commaSeparated, String.append_assoc, hstar]
  | upsert row columns =>
    have h : t.upsert row columns = .ok b := h
    obtain ⟨-, rfl⟩ := upsert_eq_ok_iff.mp h
    show "INSERT INTO " ++ t.name ++ " (" ++ commaSeparated columns ++ ") VALUES (" ++
      commaSeparated ((List.range' 1 columns.length).map d.placeholder) ++ ")" ++
        (if (t.overwritten columns).isEmpty then Conflict.keep (some t.idColumn)
          else .overwrite (some t.idColumn) (t.overwritten columns)).render d = _
    rw [← render_conflictTemplate]
    simp only [Request.shape, template, render_cons, render_append, render_listed, render_marks,
      Piece.render, String.append_assoc]
  | deleteById id =>
    cases h
    simp [Request.shape, template, deleteById, Command.render, renderWhere, Condition.render,
      Piece.render, String.append_assoc]

example : (items.template .sqlite (.page "utime" false true true 10)).render .sqlite =
    "SELECT id, utime FROM items WHERE utime IS NOT NULL AND " ++
      "(utime > ?1 OR (utime = ?2 AND id > ?3)) ORDER BY utime, id LIMIT 10" := by decide +kernel

/-! ## Tokens -/

theorem spelled_marks (n : Nat) : Spelled d 0 (marks n) n := by
  have hchain := chain_range' 0 n
  rw [Nat.zero_add, Nat.zero_add] at hchain
  refine .separated ?_ hchain
  rintro k i m ⟨rfl, rfl⟩
  exact .mark (.nil _) .nil

theorem spelled_listed {k : Nat} {names : List String} (h : ∀ n ∈ names, IsName n) :
    Spelled d k (listed names) k :=
  .separated_of_forall (fun k _ hn => .name hn (.nil k) .nil) h

theorem spelled_pageConditions {sort : String} (h : IsName sort) (cutoff cursor : Bool) :
    ∃ m, Chain (Spelled d) 0 (t.pageConditions sort cutoff cursor) m := by
  -- the cutoff takes the first argument, if it is there; the cursor takes those behind it
  have hcutoff : Chain (Spelled d) 0
      (if cutoff then [[.name t.utimeColumn, .text " > ", .mark 1]] else [])
      (if cutoff then 1 else 0) := by
    split
    · exact .singleton (.name t.utime_valid (.text (.mark (.nil _) .nil)) (.text _))
    · exact .nil 0
  have hpresent : ∀ k, Chain (Spelled d) k
      (if t.sortsById sort then [] else [[.name sort, .text " IS NOT NULL"]]) k := fun k => by
    split
    · exact .nil k
    · exact .singleton (.name h (.last k _) (.text _))
  have hcursor : ∀ k, ∃ m, Chain (Spelled d) k (if cursor then
      if t.sortsById sort then [[.name t.idColumn, .text " > ", .mark (k + 1)]]
      else [[.text "(", .name sort, .text " > ", .mark (k + 1), .text " OR (", .name sort,
        .text " = ", .mark (k + 2), .text " AND ", .name t.idColumn, .text " > ", .mark (k + 3),
        .text "))"]]
      else []) m := fun k => by
    split
    · split
      · exact ⟨_, .singleton (.name t.id_valid (.text (.mark (.nil _) .nil)) (.text _))⟩
      · have hid : Spelled d (k + 2)
            [.name t.idColumn, .text " > ", .mark (k + 3), .text "))"] (k + 3) :=
          .name t.id_valid (.text (.mark (.last _ _) (.text _))) (.text _)
        have hequal : Spelled d (k + 1)
            (.name sort :: .text " = " :: .mark (k + 2) :: .text " AND " :: _) (k + 3) :=
          .name h (.text (.mark (.text hid) (.text _))) (.text _)
        exact ⟨_, .singleton (.text (.name h (.text (.mark (.text hequal) (.text _))) (.text _)))⟩
    · exact ⟨_, .nil k⟩
  obtain ⟨m, hcursor⟩ := hcursor (if cutoff then 1 else 0)
  exact ⟨m, (hcutoff.append (hpresent _)).append hcursor⟩

theorem spelled_whereTemplate {k m : Nat} {pss : List Template} (h : Chain (Spelled d) k pss m) :
    Spelled d k (whereTemplate pss) m := by
  rw [whereTemplate]
  split
  · rename_i hempty
    rw [List.isEmpty_iff.mp hempty] at h
    cases h
    exact .nil k
  · have hjoined := Spelled.separated (s := " AND ") (f := id) (fun _ _ _ h => h) h
    rw [List.map_id] at hjoined
    exact .text hjoined

theorem open_whereTemplate {pss : List Template} : Open d (whereTemplate pss) := by
  rw [whereTemplate]
  split
  · exact .nil
  · exact .text _

theorem spelled_conflictTemplate {k : Nat} {columns : List String} (h : ∀ c ∈ columns, IsName c) :
    Spelled d k (t.conflictTemplate d columns) k := by
  have hover : ∀ c ∈ t.overwritten columns, IsName c := fun c hc => h c (List.mem_filter.mp hc).1
  have hvalues : Spelled d k (joined ", "
      ((t.overwritten columns).map fun c => [.name c, .text " = VALUES(", .name c, .text ")"])) k :=
    .separated_of_forall (fun k _ hc => .name hc (.text (.name hc (.last k _) (.text _))) (.text _))
      hover
  have hexcluded : Spelled d k (joined ", "
      ((t.overwritten columns).map fun c => [.name c, .text " = ", .excluded c])) k :=
    .separated_of_forall (fun k _ hc => .name hc (.text (.excluded hc (.nil k) .nil)) (.text _))
      hover
  cases d with
  | mysql =>
    refine .text ?_
    split
    · exact .name t.id_valid (.text (.name t.id_valid (.nil k) .nil)) (.text _)
    · exact hvalues
  | postgres | sqlite =>
    refine .text ?_
    split
    · exact .name t.id_valid (.last k _) (.text _)
    · exact .name t.id_valid (.text hexcluded) (.text _)

/-- The text of a template whose names are identifiers is cut into the tokens of the template. -/
theorem spelled_template (h : ∀ n ∈ r.names, IsName n) :
    ∃ m, Spelled d 0 (t.template d r.shape) m := by
  have hkey : ∀ {s : String} {k : Nat}, IsFixed s → settles false s.toList = true → Opens s →
      Spelled d k [.name t.name, .text s, .name t.idColumn, .text " = ", .mark (k + 1)] (k + 1) :=
    fun hs hsettles ho => .name t.name_valid (.text (.name t.id_valid (.text (.mark (.nil _) .nil))
      (.text _)) hs hsettles) (.text _ ho)
  cases r with
  | all => exact ⟨_, .text (.name t.name_valid (.nil 0) .nil)⟩
  | byId id => exact ⟨_, .text (hkey (by decide) (by decide) (by decide))⟩
  | deleteById id => exact ⟨_, .text (hkey (by decide) (by decide) (by decide))⟩
  | idsIn ids =>
    have hhead : Spelled d 0
      (.text "SELECT " :: .name t.idColumn :: .text " FROM " :: .name t.name ::
        .text " WHERE " :: .name t.idColumn :: .text " IN (" :: marks ids.length) ids.length :=
      .text (.name t.id_valid (.text (.name t.name_valid (.text (.name t.id_valid
        (.text (spelled_marks _)) (.text _))) (.text _))) (.text _))
    exact ⟨_, hhead.append (.last _ ")") (.text _)⟩
  | page p =>
    have hsort : IsName p.sort := h p.sort List.mem_cons_self
    obtain ⟨m, hchain⟩ := spelled_pageConditions (d := d) (t := t) hsort (decide (0 < p.utimeAfter))
      p.cursor.isSome
    have hcolumns : Spelled d 0 (.text "SELECT " :: if p.idsOnly then
        if t.sortsById p.sort then [.name t.idColumn]
          else [.name t.idColumn, .text ", ", .name p.sort]
        else [.text "*"]) 0 := by
      refine .text ?_
      split
      · split
        · exact .name t.id_valid (.nil 0) .nil
        · exact .name t.id_valid (.text (.name hsort (.nil 0) .nil)) (.text _)
      · exact .last 0 _
    have htable : Spelled d 0 (.text " FROM " :: .name t.name ::
        whereTemplate (t.pageConditions p.sort (decide (0 < p.utimeAfter)) p.cursor.isSome)) m :=
      .text (.name t.name_valid (spelled_whereTemplate hchain) open_whereTemplate)
    have horder : Spelled d m (.text " ORDER BY " ::
        if t.sortsById p.sort then [.name t.idColumn]
        else [.name p.sort, .text ", ", .name t.idColumn]) m := by
      refine .text ?_
      split
      · exact .name t.id_valid (.nil m) .nil
      · exact .name hsort (.text (.name t.id_valid (.nil m) .nil)) (.text _)
    have hlimit : Spelled d m [.text " LIMIT ", .number (max p.limit 1)] m :=
      .text (.number _ (.nil m) .nil)
    exact ⟨m, ((hcolumns.append htable (.text _)).append horder (.text _)).append hlimit (.text _)⟩
  | upsert row columns =>
    have hcolumns : ∀ c ∈ columns, IsName c := h
    have hlisted :
        Spelled d 0 (.text "INSERT INTO " :: .name t.name :: .text " (" :: listed columns) 0 :=
      .text (.name t.name_valid (.text (spelled_listed hcolumns)) (.text _))
    have hmarks : Spelled d 0 (.text ") VALUES (" :: marks columns.length) columns.length :=
      .text (spelled_marks _)
    have hconflict : Spelled d columns.length (.text ")" :: t.conflictTemplate d columns) _ :=
      .text (spelled_conflictTemplate hcolumns)
    exact ⟨_, (hlisted.append hmarks (.text _)).append hconflict (.text _)⟩

/-! ## Names and arguments -/

/-- The names of a table. -/
def names (t : TableSpec) : List String := [t.name, t.idColumn, t.utimeColumn]

/-- A request that has a statement brings identifiers only. -/
theorem isName_of_bound (h : t.bound r = .ok b) : ∀ n ∈ t.names ++ r.names, IsName n := by
  have htable : ∀ n ∈ t.names, IsName n := by
    simp [names, IsName, t.name_valid, t.id_valid, t.utime_valid]
  refine fun n hn => (List.mem_append.mp hn).elim (htable n) fun hn => ?_
  cases r with
  | all | byId _ | idsIn _ | deleteById _ => cases hn
  | page p =>
    have h : t.page p = .ok b := h
    exact List.mem_singleton.mp hn ▸ (page_eq_ok_iff.mp h).1
  | upsert row columns =>
    have h : t.upsert row columns = .ok b := h
    exact ((upsert_eq_ok_iff.mp h).1.2 n hn).1

theorem names_marks (n : Nat) : (marks n).names = [] := by
  simp [marks, List.flatMap_map]

theorem arguments_marks (n : Nat) : (marks n).arguments = List.range' 1 n := by
  simp [marks, List.flatMap_map]

theorem names_listed (names : List String) : (listed names).names = names := by
  simp [listed, List.flatMap_map]

theorem arguments_listed (names : List String) : (listed names).arguments = [] := by
  simp [listed, List.flatMap_map]

theorem names_whereTemplate (pss : List Template) :
    (whereTemplate pss).names = pss.flatMap Template.names := by
  rw [whereTemplate]
  split
  · rename_i h
    rw [List.isEmpty_iff.mp h]
    rfl
  · simp

theorem arguments_whereTemplate (pss : List Template) :
    (whereTemplate pss).arguments = pss.flatMap Template.arguments := by
  rw [whereTemplate]
  split
  · rename_i h
    rw [List.isEmpty_iff.mp h]
    rfl
  · simp

theorem arguments_conflictTemplate (columns : List String) :
    (t.conflictTemplate d columns).arguments = [] := by
  cases d <;> by_cases hover : (t.overwritten columns).isEmpty = true <;>
    simp [conflictTemplate, hover, List.flatMap_map]

theorem names_conflictTemplate (columns : List String) :
    ∀ n ∈ (t.conflictTemplate d columns).names, n = t.idColumn ∨ n ∈ columns := by
  have hover : ∀ n ∈ t.overwritten columns, n ∈ columns := fun n hn => (List.mem_filter.mp hn).1
  intro n
  cases d <;> by_cases hempty : (t.overwritten columns).isEmpty = true <;>
    simp [conflictTemplate, hempty, List.flatMap_map] <;> grind

/-- The names in a text are those of the table and of the request. -/
theorem names_template_subset : (t.template d r.shape).names ⊆ t.names ++ r.names := by
  intro n hn
  simp only [names, List.mem_append, List.mem_cons, List.not_mem_nil, or_false]
  cases r with
  | all | byId _ | idsIn _ | deleteById _ =>
    simp [Request.shape, template, names_marks] at hn
    grind
  | page p =>
    simp only [Request.shape, template, pageConditions] at hn
    simp only [Request.names, List.mem_singleton]
    by_cases hcutoff : 0 < p.utimeAfter <;> by_cases hown : t.sortsById p.sort = true <;>
      by_cases hids : p.idsOnly = true <;> cases hcursor : p.cursor <;>
        simp [hcutoff, hown, hids, hcursor, names_whereTemplate] at hn <;> grind
  | upsert row columns =>
    simp [Request.shape, template, names_listed, names_marks] at hn
    have hconflict := names_conflictTemplate (t := t) (d := d) columns n
    simp only [Request.names]
    grind

/-- A text has one mark for each of its values, in their order. -/
theorem arguments_template (h : t.bound r = .ok b) :
    (t.template d r.shape).arguments = List.range' 1 b.args.length := by
  cases r with
  | all =>
    cases h
    simp [Request.shape, template]
  | byId id =>
    cases h
    simp [Request.shape, template, byId]
  | deleteById id =>
    cases h
    simp [Request.shape, template, deleteById]
  | idsIn ids =>
    cases h
    simp [Request.shape, template, idsIn, arguments_marks]
  | page p =>
    have h : t.page p = .ok b := h
    obtain ⟨-, rfl⟩ := page_eq_ok_iff.mp h
    simp only [Request.shape, template, pageCommand, pageConditions, Page.cutoffArgs, cursorArgs]
    by_cases hcutoff : 0 < p.utimeAfter <;> by_cases hown : t.sortsById p.sort = true <;>
      by_cases hids : p.idsOnly = true <;> cases p.cursor <;>
        simp [hcutoff, hown, hids, arguments_whereTemplate, List.range']
  | upsert row columns =>
    have h : t.upsert row columns = .ok b := h
    obtain ⟨-, rfl⟩ := upsert_eq_ok_iff.mp h
    simp [Request.shape, template, arguments_listed, arguments_marks,
      arguments_conflictTemplate]

/-- The values of a request are its arguments. -/
theorem args_of_bound (h : t.bound r = .ok b) : b.args = r.values t := by
  cases r with
  | all | byId _ | idsIn _ | deleteById _ =>
    cases h
    rfl
  | page p =>
    have h : t.page p = .ok b := h
    obtain ⟨-, rfl⟩ := page_eq_ok_iff.mp h
    rfl
  | upsert row columns =>
    have h : t.upsert row columns = .ok b := h
    obtain ⟨-, rfl⟩ := upsert_eq_ok_iff.mp h
    rfl

/-- **The text of a statement is told by the shape of its request.**  A name is accepted exactly
when it is one or more parts with points between them, each an ASCII letter or underscore before
ASCII letters, digits and underscores.  So the text of a statement is the template of its shape with
such names in place; it is cut into the tokens of the template, in which each name is one word; the
values are the arguments and nothing of them is in the text, which has one mark for each.  Two
requests of one shape have the same text. -/
theorem text_is_told_by_shape :
    (∀ s, checkIdentifier s = .ok () ↔ Identifier.IsDotted s) ∧
    (∀ name idColumn utimeColumn, (∃ t, TableSpec.ofNames name idColumn utimeColumn = .ok t) ↔
      Identifier.IsDotted name ∧ Identifier.IsDotted idColumn ∧ Identifier.IsDotted utimeColumn) ∧
    ∀ (t : TableSpec) (d : Dialect) (r : Request) (b : BoundCommand), t.bound r = .ok b →
      ((b.statement d).sql = (t.template d r.shape).render d ∧
        Sql.tokens? (b.statement d).sql = some (t.template d r.shape).tokens) ∧
      (∀ n ∈ (t.template d r.shape).names, n ∈ t.names ++ r.names ∧ Identifier.IsDotted n) ∧
      ((b.statement d).args = r.values t ∧
        (t.template d r.shape).arguments = List.range' 1 (b.statement d).args.length) ∧
      ∀ r' b', r'.shape = r.shape → t.bound r' = .ok b' →
      (b'.statement d).sql = (b.statement d).sql := by
  refine ⟨fun _ => checkIdentifier_eq_ok_iff, fun _ _ _ => exists_ofNames_iff, ?_⟩
  intro t d r b h
  have hnames := isName_of_bound h
  have htext : (b.statement d).sql = (t.template d r.shape).render d := render_template h
  obtain ⟨m, hspelled⟩ := spelled_template (d := d) (t := t) fun n hn =>
    hnames n (List.mem_append_right _ hn)
  refine ⟨⟨htext, htext ▸ hspelled.tokens?⟩, fun n hn => ?_,
    ⟨args_of_bound h, arguments_template h⟩, ?_⟩
  · have hmem := names_template_subset hn
    exact ⟨hmem, Identifier.isValid_iff.mp (hnames n hmem)⟩
  · intro r' b' hshape h'
    have htext' : (b'.statement d).sql = (t.template d r'.shape).render d := render_template h'
    rw [htext', htext, hshape]

/-- Two pages of items that differ in their cutoffs and cursors. -/
theorem text_is_told_by_shape_sample :
    let first : Page := ⟨"utime", 5, some ⟨7, 1⟩, 10, false⟩
    let second : Page := ⟨"utime", 9, some ⟨-3, 8⟩, 10, false⟩
    items.bound (.page first) = .ok (items.pageCommand first) ∧
      items.bound (.page second) = .ok (items.pageCommand second) ∧
      ((items.pageCommand second).statement .sqlite).sql =
        ((items.pageCommand first).statement .sqlite).sql := by
  intro first second
  have hname : IsName "utime" := by decide
  have hfirst : items.page first = .ok (items.pageCommand first) := page_eq_ok_iff.mpr ⟨hname, rfl⟩
  have hsecond : items.page second = .ok (items.pageCommand second) :=
    page_eq_ok_iff.mpr ⟨hname, rfl⟩
  obtain ⟨-, -, hall⟩ := text_is_told_by_shape
  obtain ⟨-, -, -, hsame⟩ := hall items .sqlite (.page first) _ hfirst
  exact ⟨hfirst, hsecond, hsame (.page second) _ (by decide) hsecond⟩

end TableSpec
end Cutover
