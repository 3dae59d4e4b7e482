import UnitCheck.Json.Value
import UnitCheck.Markup.Symbols
import UnitCheck.Project.Basic

/-! # Reports on projects

A report on a project has the verdict on each equation, the declarations that were left out, and which
equations use which symbol. -/

namespace UnitCheck

/-- What a check of a project finds. -/
structure Report where
  verdicts : Verdicts
  diagnostics : List Diagnostic
  usage : Table String (List String)

/-- How many verdicts there are of each kind. -/
def Report.tally (r : Report) : Tally := Tally.of r.verdicts.values

/-- Whether every equation is right. -/
def Report.allGood (r : Report) : Bool := r.tally.good = r.verdicts.size

/-- An error that leaves a check without a result. -/
inductive Escape where
  | emptySymbol
  | duplicateId (d : DuplicateId)
  | stackExhausted
deriving DecidableEq

namespace Project

/-- What the equations of a project are checked against. -/
def scope (limit : Markup.Limit) (p : Project) : Markup.Scope :=
  ⟨(Analysis.of p.declarations).declared, limit⟩

/-- Checks a project. -/
def check (limit : Markup.Limit) (p : Project) : Except DuplicateId Report :=
  (Verdicts.of (p.scope limit) p.plainEquations).map fun verdicts =>
    ⟨verdicts, (Analysis.of p.declarations).diagnostics, Markup.usageOf p.plainEquations⟩

/-- Checks a project on a stack with room for `room` open parentheses in a unit. -/
def checkOn (room : Nat) (limit : Markup.Limit) (p : Project) : Except Escape Report := do
  match Analysis.on? room p.declarations with
  | none => .error .stackExhausted
  | some analysis =>
    let verdicts ← (Verdicts.of ⟨analysis.declared, limit⟩ p.plainEquations).mapError .duplicateId
    return ⟨verdicts, analysis.diagnostics, Markup.usageOf p.plainEquations⟩

end Project

/-- A verdict as JSON, with `null` for what it does not have. -/
def Verdict.toJson (v : Verdict) : Json :=
  .object [("status", .string v.status.name), ("message", .string v.message),
    ("reason", .ofString? (v.reason?.map Code.name)), ("position", .ofInt? v.position?),
    ("lhs", .ofString? (v.sides?.map fun s => s.1.canonical)),
    ("rhs", .ofString? (v.sides?.map fun s => s.2.canonical))]

/-- A diagnostic as JSON. -/
def Diagnostic.toJson (d : Diagnostic) : Json :=
  .object [("symbol", .string d.symbol), ("code", .string d.code.name), ("message", .string d.message),
    ("hint", .string d.hint)]

/-- A report as JSON. -/
def Report.toJson (r : Report) : Json :=
  .object [("results", .object (r.verdicts.map Verdict.toJson).entries),
    ("variable_diagnostics", .array (r.diagnostics.map Diagnostic.toJson)),
    ("usage", .object (r.usage.map Json.strings).entries)]

end UnitCheck
