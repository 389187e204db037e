import Cutover.Duration
import Cutover.Event

/-! # Tallies

What a validation and a repair count.
-/

namespace Cutover

/-- What a validation has seen. -/
structure Tally where
  scanned : Nat := 0
  targetMissing : Nat := 0
  baseMissing : Nat := 0
  notEqual : Nat := 0
  errors : Nat := 0
  deriving DecidableEq, Inhabited

namespace Tally

/-- The differences that were reported. -/
def inconsistencies (t : Tally) : Nat := t.targetMissing + t.baseMissing + t.notEqual

/-- Both tallies together. -/
def merge (a b : Tally) : Tally where
  scanned := a.scanned + b.scanned
  targetMissing := a.targetMissing + b.targetMissing
  baseMissing := a.baseMissing + b.baseMissing
  notEqual := a.notEqual + b.notEqual
  errors := a.errors + b.errors

instance : Add Tally := ⟨merge⟩

theorem merge_inconsistencies (a b : Tally) :
    (a.merge b).inconsistencies = a.inconsistencies + b.inconsistencies := by
  simp only [merge, inconsistencies]
  omega

/-- One more row was looked at. -/
def scan (t : Tally) : Tally := { t with scanned := t.scanned + 1 }

/-- One more call or row went wrong. -/
def fail (t : Tally) : Tally := { t with errors := t.errors + 1 }

/-- One more difference was reported. -/
def report (t : Tally) : EventKind → Tally
  | .targetMissing => { t with targetMissing := t.targetMissing + 1 }
  | .baseMissing => { t with baseMissing := t.baseMissing + 1 }
  | .notEqual => { t with notEqual := t.notEqual + 1 }

end Tally

/-- A validation's tally with the time it took. -/
structure TimedTally where
  tally : Tally := {}
  elapsed : Duration := ⟨0⟩

/-- Both tallies together; the two ran side by side, so the longer time counts. -/
def TimedTally.merge (a b : TimedTally) : TimedTally where
  tally := a.tally.merge b.tally
  elapsed := ⟨max a.elapsed.nanoseconds b.elapsed.nanoseconds⟩

/-- What a repair did to a row. -/
inductive FixOutcome where
  | upserted
  | deleted
  deriving DecidableEq, Repr

/-- The name of an outcome. -/
def FixOutcome.name : FixOutcome → String
  | .upserted => "upserted"
  | .deleted => "deleted"

/-- What a consumer has done: rows written and deleted, messages that can never be handled, and
messages handed back for another delivery. -/
structure FixTally where
  upserted : Nat := 0
  deleted : Nat := 0
  skipped : Nat := 0
  failed : Nat := 0
  deriving DecidableEq, Inhabited

namespace FixTally

/-- All messages, each as often as it was delivered. -/
def total (t : FixTally) : Nat := t.upserted + t.deleted + t.skipped + t.failed

/-- One more row was repaired. -/
def fix (t : FixTally) : FixOutcome → FixTally
  | .upserted => { t with upserted := t.upserted + 1 }
  | .deleted => { t with deleted := t.deleted + 1 }

/-- One more message was passed over. -/
def skip (t : FixTally) : FixTally := { t with skipped := t.skipped + 1 }

/-- One more message was handed back. -/
def fail (t : FixTally) : FixTally := { t with failed := t.failed + 1 }

end FixTally
end Cutover
