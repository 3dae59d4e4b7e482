import UnitCheck.Equation.Verdict

/-! # Batches of equations

The verdicts on a list of equations, under their ids. Two equations of one id make no batch. -/

namespace UnitCheck

/-- An id that two equations have. -/
structure DuplicateId where
  id : String
deriving DecidableEq

/-- The wording of the failure. -/
def DuplicateId.message (d : DuplicateId) : String := "duplicate equation id '" ++ d.id ++ "'"

/-- Verdicts by equation id, in the order of the equations. -/
abbrev Verdicts := Table String Verdict

namespace Verdicts

/-- Adds the verdicts on further equations. -/
def extend (scope : Markup.Scope) : Verdicts → List Equation → Except DuplicateId Verdicts
  | t, [] => .ok t
  | t, e :: rest =>
    if t.contains e.id then .error ⟨e.id⟩
    else extend scope (t.insert e.id (Verdict.of scope e.text.toList)) rest

/-- The verdicts on a list of equations. -/
def of (scope : Markup.Scope) (equations : List Equation) : Except DuplicateId Verdicts :=
  extend scope ∅ equations

end Verdicts

/-- How many verdicts there are of each kind. -/
structure Tally where
  good : Nat
  bad : Nat
  unknown : Nat
deriving DecidableEq

/-- The tally of a list of verdicts. -/
def Tally.of (verdicts : List Verdict) : Tally :=
  let count (s : Verdict.Status) := verdicts.countP (·.status = s)
  ⟨count .good, count .bad, count .unknown⟩

end UnitCheck
