import UnitCheck.Variable.Basic
import UnitCheck.Equation.Batch

/-! # Projects

A project has quantities with the units that they are declared in, and equations, no two of one id. -/

namespace UnitCheck

/-- A declaration with what people call the quantity. -/
structure Quantity extends Declaration where
  name : Option String
  description : Option String
deriving DecidableEq

/-- An equation with a title and tags. -/
structure ProjectEquation extends Equation where
  title : Option String
  tags : List String
deriving DecidableEq

/-- A project. -/
structure Project where
  quantities : List Quantity
  equations : List ProjectEquation
  nodup : (equations.map fun e => e.id).Nodup
deriving DecidableEq

namespace Project

/-- The declarations of the quantities. -/
def declarations (p : Project) : List Declaration := p.quantities.map (·.toDeclaration)

/-- The equations without title and tags. -/
def plainEquations (p : Project) : List Equation := p.equations.map (·.toEquation)

end Project

end UnitCheck
