import Cutover.Proofs.Validation.Requests

/-! # What a validation publishes

Every event of a validation carries the direction that the plan of the validation says, whatever the
stores and the channel reply and whenever the validation is cancelled.  And whatever the validation
waits for, it stops waiting when it is cancelled.
-/

namespace Cutover

open Dialogue

/-- Whether a request yields to a cancellation, if it takes any time. -/
def Scanning.Request.Yields : Scanning.Request → Prop
  | .awaited _ => False
  | .cancelled | .loaded | .guarded _ => True

namespace Plan

variable {p : Plan}

/-- A request publishes nothing but events of this direction. -/
def Labels (d : Side) (r : Interface.Request Scanning) : Prop :=
  ∀ e ∈ Scanning.Request.published r, e.direction = d

section
variable {visited : Int64 → Prop} {way : Way} {r : Scanning.Request}

/-- What a scan may ask for publishes events of the plan's direction only. -/
theorem MayAsk.labels (h : p.MayAsk visited way r) : Labels p.direction r := by
  intro e he
  cases h with
  | publish _ _ => rw [List.mem_singleton.mp he]
  | _ => cases he

/-- What a scan may ask for yields to a cancellation. -/
theorem MayAsk.yields (h : p.MayAsk visited way r) : r.Yields := by
  cases h <;> trivial

end

/-- What is so of all that a scan may ask for is so of all that it asks for. -/
theorem asks_scan {P : Interface.Request Scanning → Prop} {way : Way}
    (hmay : ∀ r, p.MayAsk (fun _ => True) way r → P r) :
    (p.scan way).Asks P ((p.scan way).start {}) := by
  have hpages : p.Brings (fun _ _ => True) (fun _ => True) way := fun _ _ _ _ _ _ _ _ _ => trivial
  have hpass : ∀ s, (p.pass way s).Asks P := fun s => (asks_pass hpages s).asks hmay
  exact Loop.asks_start (l := p.scan way) hpass {}

/-- What is so of all that the scans of a validation have still to ask for is so after a step. -/
theorem asks_step {P : Interface.Request Scanning → Prop} {σ : Type}
    {gives : Way → Surroundings Scanning σ} {v v' : Validating σ}
    (hasks : ∀ way, (p.scan way).Asks P (v.scanner way)) (h : Validating.Step p gives v v')
    (way : Way) : (p.scan way).Asks P (v'.scanner way) := by
  obtain ⟨other, hscan, hscanners⟩ := h.exists_scan
  by_cases hw : way = other
  · subst hw
    exact (hasks way).step hscan
  · rw [hscanners way hw]
    exact hasks way

/-- **Every event of a validation carries the direction of its plan.** -/
theorem scan_labels (way : Way) :
    (p.scan way).Asks (Labels p.direction) ((p.scan way).start {}) :=
  asks_scan fun _ => MayAsk.labels

/-- **Every call of a validation yields to its cancellation.** -/
theorem scan_yields (way : Way) :
    (p.scan way).Asks Scanning.Request.Yields ((p.scan way).start {}) :=
  asks_scan fun _ => MayAsk.yields

end Plan
end Cutover
