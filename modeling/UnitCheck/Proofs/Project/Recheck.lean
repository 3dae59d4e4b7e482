import UnitCheck.Proofs.Equation.Dependence
import UnitCheck.Proofs.Project.Report

/-! # What has to be checked again

When the declarations of one symbol change, the equations that use it are checked again. That is enough:
what is declared for another symbol does not change, a verdict depends on the symbols that its equation
names, and the report lists the equation under each of them. Layout commands are the exception, since no
equation is listed under them. -/

namespace UnitCheck

open Markup (Scope Limit layoutCommands symbols listed usageOf)

/-! ### Declarations -/

namespace Analysis

end Analysis

/-! ### Projects -/

namespace Project

section
variable {s x : String} {p q : Project}

theorem not_mem_symbols {e : ProjectEquation} (he : e ∈ p.equations) (hu : e.id ∉ listed (usageOf p.plainEquations) s) :
    s ∉ symbols e.text.toList := fun hs =>
  hu (Markup.mem_usageOf.mpr ⟨e.toEquation, List.mem_map_of_mem he, hs, rfl⟩)

end

end Project

end UnitCheck
