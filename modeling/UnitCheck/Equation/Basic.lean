/-! # Equations

An equation of a project: a markup text under an id. -/

namespace UnitCheck

/-- A markup text with the name that results are kept under. -/
structure Equation where
  id : String
  text : String
deriving DecidableEq

end UnitCheck
