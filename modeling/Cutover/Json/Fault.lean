/-! # Reasons why a document is refused -/

namespace Cutover.Json

/-- A document is refused because it is no JSON, or because what it holds does not have the wanted
shape.  Documents are read from front to back, so of two faults the earlier one is told. -/
inductive Fault where
  | malformed
  | mismatched
  deriving DecidableEq, Repr

/-- What the operator is told: the class of the fault, by the name that the decoder has for it.  The
decoder's own wording, which goes into the place in the document, is left out. -/
def Fault.message : Fault → String
  | .malformed => "syntax"
  | .mismatched => "data"

end Cutover.Json
