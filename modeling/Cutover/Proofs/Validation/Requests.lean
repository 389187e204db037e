import Cutover.Proofs.Dialogue.Asks
import Cutover.Proofs.Record.Comparison
import Cutover.Proofs.Validation.Pass

/-! # What a validation may ask for

A scan asks for pages, and besides only for what has to do with rows that pages have brought: it
looks their identities up in the other store and publishes differences of theirs, under the
direction that the plan says (`Plan.MayAsk`).  So what is true of the rows of all pages is true of
all that a validation compares and reports (`Plan.asks_pass`).
-/

namespace Cutover

open Dialogue

namespace Plan

/-- The side whose pages the scan of a way reads. -/
def paged (p : Plan) : Way → Side
  | .forward => p.base
  | .backward => p.target

/-- What the scan of a way may ask for when it has visited rows of these identities. -/
inductive MayAsk (p : Plan) (visited : Int64 → Prop) : Way → Interface.Request Scanning → Prop where
  | cancelled (way : Way) : MayAsk p visited way .cancelled
  | loaded (way : Way) : MayAsk p visited way .loaded
  | rest (way : Way) (d : Duration) : MayAsk p visited way (.rest d)
  | page (way : Way) {cursor : Option Cursor} {s : Statement} :
      p.pageStatement cursor (way == .backward) = .ok s →
      MayAsk p visited way (.query (p.paged way) s)
  | targetRow {id : Int64} : visited id →
      MayAsk p visited .forward (.queryRow p.target ((p.table.byId id).statement p.dialect))
  | baseIds {ids : List Int64} : (∀ id ∈ ids, visited id) →
      MayAsk p visited .backward (.query p.base ((p.table.idsIn ids).statement p.dialect))
  | publish (way : Way) {id : Int64} {kind : EventKind} : visited id →
      MayAsk p visited way (.publish ⟨id, kind, p.direction⟩)

/-- The rows that pages bring have identities of these. -/
def Brings (p : Plan) (answers : (r : Interface.Request Scanning) → Scanning.Reply r → Prop)
    (visited : Int64 → Prop) (way : Way) : Prop :=
  ∀ cursor s rows, p.pageStatement cursor (way == .backward) = .ok s →
    answers (.query (p.paged way) s) (some (.ok rows)) →
      ∀ row ∈ rows, ∀ id, row.getInt64 p.table.idColumn = .ok id → visited id

variable {p : Plan} {answers : (r : Interface.Request Scanning) → Scanning.Reply r → Prop}
  {visited : Int64 → Prop} {way : Way}

/-! ## Parts of a pass -/

theorem asks_isCancelled : isCancelled.AsksGiven answers (p.MayAsk visited way) :=
  ⟨.cancelled way, fun _ _ => asksGiven_done _⟩

theorem asks_rest (d : Duration) : (rest d).AsksGiven answers (p.MayAsk visited way) :=
  asksGiven_request_bind (.rest way d) fun _ _ => asksGiven_done _

theorem asks_throttle : p.throttle.AsksGiven answers (p.MayAsk visited way) := by
  unfold throttle
  split
  · exact asksGiven_done _
  · refine asksGiven_request_bind (.loaded way) fun loaded _ => ?_
    split
    · exact asks_rest _
    · exact asksGiven_done _

theorem asks_emit {id : Int64} (hid : visited id) (kind : EventKind) (t : Tally) :
    (p.emit id kind t).AsksGiven answers (p.MayAsk visited way) := by
  refine asksGiven_request_bind (.publish way hid) fun reply _ => ?_
  split <;> exact asksGiven_done _

theorem asks_onFailure (e : StoreError) (s : Progress) :
    (p.onFailure e s).AsksGiven answers (p.MayAsk visited way) := by
  unfold onFailure
  split
  · exact asksGiven_done _
  · refine .bind (asks_rest _) fun slept => ?_
    split <;> exact asksGiven_done _

theorem asks_afterPage (length : Nat) (s : Progress) :
    (p.afterPage length s).AsksGiven answers (p.MayAsk visited way) := by
  unfold afterPage
  split
  · split
    · exact asksGiven_done _
    · refine .bind (asks_rest _) fun slept => ?_
      split <;> exact asksGiven_done _
  · exact asksGiven_done _

/-! ## Forward -/

theorem asks_compareRow {row : Row} (hrow : ∀ id, row.getInt64 p.table.idColumn = .ok id →
      visited id) (t : Tally) :
    (p.compareRow row t).AsksGiven answers (p.MayAsk visited .forward) := by
  unfold compareRow
  split
  · exact asksGiven_done _
  · rename_i base hbase
    have hid : visited base.id := hrow _ (Record.ofRow?_eq_ok_iff.mp hbase).1
    refine asksGiven_request_bind (.targetRow hid) fun found _ => ?_
    split
    · exact asksGiven_done _
    · exact asksGiven_done _
    · split
      · exact asksGiven_done _
      · exact asksGiven_done _
      · exact asks_emit hid _ _

theorem asks_compareRows {rows : List Row}
    (hrows : ∀ row ∈ rows, ∀ id, row.getInt64 p.table.idColumn = .ok id → visited id)
    (s : Progress) : (p.compareRows rows s).AsksGiven answers (p.MayAsk visited .forward) := by
  induction rows generalizing s with
  | nil => exact asksGiven_done _
  | cons r rs ih =>
    refine .bind asks_isCancelled fun stop => ?_
    split
    · exact asksGiven_done _
    · split
      · exact asksGiven_done _
      · refine .bind (asks_compareRow (hrows r List.mem_cons_self) _) fun t => ?_
        exact ih (fun row hrow => hrows row (List.mem_cons_of_mem r hrow)) _

theorem asks_forwardPage (hpages : p.Brings answers visited .forward) (s : Progress) :
    (p.forwardPage s).AsksGiven answers (p.MayAsk visited .forward) := by
  unfold forwardPage
  split
  · exact asksGiven_done _
  · rename_i st hst
    refine asksGiven_request_bind (.page .forward hst) fun page hpage => ?_
    split
    · exact asksGiven_done _
    · exact asks_onFailure _ _
    · rename_i rows
      refine .bind (asks_compareRows (hpages s.cursor st rows hst hpage) _) fun pageEnd => ?_
      split
      · exact asksGiven_done _
      · exact asksGiven_done _
      · exact asks_afterPage _ _

/-! ## Backward -/

theorem asks_reportAbsent (present : List Int64) {ids : List Int64} (hids : ∀ id ∈ ids, visited id)
    (t : Tally) :
    (p.reportAbsent present ids t).AsksGiven answers (p.MayAsk visited .backward) := by
  induction ids generalizing t with
  | nil => exact asksGiven_done _
  | cons id ids ih =>
    have hrest := ih fun id' hid' => hids id' (List.mem_cons_of_mem id hid')
    refine .bind asks_isCancelled fun stop => ?_
    split
    · exact asksGiven_done _
    · split
      · exact hrest _
      · exact .bind (asks_emit (hids id List.mem_cons_self) _ _) hrest

theorem asks_compareIds (length : Nat) {cursors : List Cursor} (hids : ∀ c ∈ cursors, visited c.id)
    (s : Progress) :
    (p.compareIds length cursors s).AsksGiven answers (p.MayAsk visited .backward) := by
  have hmap : ∀ id ∈ cursors.map (·.id), visited id := by
    intro id hid
    obtain ⟨c, hc, rfl⟩ := List.mem_map.mp hid
    exact hids c hc
  refine asksGiven_request_bind (.baseIds hmap) fun found _ => ?_
  split
  · exact asksGiven_done _
  · exact asks_onFailure _ _
  · refine .bind (asks_reportAbsent _ hmap _) fun looked => ?_
    split
    split
    · exact asks_afterPage _ _
    · exact asksGiven_done _

/-- A row with a place in the order of the scan has the identity of its place. -/
theorem getInt64_of_cursorOf {row : Row} {c : Cursor} (h : p.cursorOf row = .ok c) :
    row.getInt64 p.table.idColumn = .ok c.id := by
  unfold cursorOf at h
  cases hid : row.getInt64 p.table.idColumn with
  | error e =>
    rw [hid] at h
    cases h
  | ok id =>
    cases hsort : row.getInt64 p.sort with
    | error e =>
      rw [hid, hsort] at h
      cases h
    | ok sort =>
      rw [hid, hsort] at h
      cases h
      rfl

theorem asks_backwardPage (hpages : p.Brings answers visited .backward) (s : Progress) :
    (p.backwardPage s).AsksGiven answers (p.MayAsk visited .backward) := by
  unfold backwardPage
  split
  · exact asksGiven_done _
  · rename_i st hst
    refine asksGiven_request_bind (.page .backward hst) fun page hpage => ?_
    split
    · exact asksGiven_done _
    · exact asks_onFailure _ _
    · exact asks_afterPage _ _
    · split
      · exact asksGiven_done _
      · rename_i rows _ _ cursors hcursors
        refine asks_compareIds _ (fun c hc => ?_) _
        obtain ⟨row, hrow, hplace⟩ := exists_of_mem_mapM hcursors hc
        exact hpages s.cursor st rows hst hpage row hrow c.id (getInt64_of_cursorOf hplace)

/-- **A pass asks for pages, and otherwise only about rows that pages have brought.** -/
theorem asks_pass (hpages : p.Brings answers visited way) (s : Progress) :
    (p.pass way s).AsksGiven answers (p.MayAsk visited way) := by
  refine .bind asks_isCancelled fun stop => ?_
  split
  · exact asksGiven_done _
  · refine .bind asks_throttle fun goOn => ?_
    split
    · cases way with
      | forward => exact asks_forwardPage hpages s
      | backward => exact asks_backwardPage hpages s
    · exact asksGiven_done _

end Plan
end Cutover
