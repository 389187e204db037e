/-! # Keyword errors

A word that an operator, a setting or a message spells and that names nothing the cutover knows.
-/

namespace Cutover

/-- A text that names no phase, side or dialect; the text is kept as it was given. -/
inductive KeywordError where
  | phase (text : String)
  | side (text : String)
  | dialect (text : String)
  deriving DecidableEq

/-- What the operator is told. -/
def KeywordError.message : KeywordError → String
  | .phase text => "Invalid phase: " ++ text
  | .side text => "Invalid direction: " ++ text
  | .dialect text => "Invalid dialect: " ++ text

end Cutover
