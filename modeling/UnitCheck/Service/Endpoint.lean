import UnitCheck.Json.Reading
import UnitCheck.Project.Document
import UnitCheck.Project.Report
import UnitCheck.Settings
import UnitCheck.Units.Printer
import UnitCheck.Variable.Text

/-! # The endpoints of the service

An endpoint has a schema, which says what bodies it takes and what its function is called with. The function
returns an answer, or an error escapes from it. How a request comes to the function, and what response is made
of its end, is no part of this. -/

namespace UnitCheck.Service

open Schema (Checked both required defaulted list record string table)

/-- The endpoints that check something. -/
inductive Endpoint where
  | parseUnits
  | validateUnits
  | checkExpression
  | checkEquation
  | checkProject
deriving DecidableEq, Repr

/-- What the function of an endpoint is called with. -/
inductive Call where
  | parseUnits (text : String)
  | validateUnits (units : List (String × String))
  | checkExpression (text : String) (declarations : List Declaration)
  | checkEquation (text : String) (declarations : List Declaration)
  | checkProject (p : Project)

/-! ### Schemas -/

/-- Reads the text of a request to read declarations. -/
def readDeclarations : Json → Checked String := record "UnitsText" (defaulted ["text"] "" string)

/-- Reads the table of a request to check units. -/
def readUnits : Json → Checked (List (String × String)) :=
  record "UnitsTable" (required ["units"] (table string))

/-- Reads the markup text and the variables of a request to check it. -/
def readMarkup : Json → Checked (String × List Declaration) :=
  record "MarkupText" fun ms =>
    (both (required ["latex"] string ms) (defaulted ["vars"] [] (list Quantity.ofJson) ms)).map
      fun (text, quantities) => (text, quantities.map (·.toDeclaration))

/-- Reads the body of a request to an endpoint. -/
def Endpoint.read (body : Json) : Endpoint → Checked Call
  | parseUnits => (readDeclarations body).map .parseUnits
  | validateUnits => (readUnits body).map .validateUnits
  | checkExpression => (readMarkup body).map fun (text, declarations) => .checkExpression text declarations
  | checkEquation => (readMarkup body).map fun (text, declarations) => .checkEquation text declarations
  | checkProject => (Project.ofJson body).map .checkProject

/-! ### Answers -/

/-- The declarations in a text. -/
def declarationsAnswer (text : String) : Json :=
  let listing := Declaration.readText text.toList
  .object [("units", .ofTable listing.units), ("warnings", .strings (listing.warnings.map (·.message)))]

/-- The dimensions of a table of units. -/
def unitsAnswer (a : Analysis) : Json :=
  .object [("ok", .bool a.diagnostics.isEmpty),
    ("dimensions", .ofTable (a.declared.map Dimension.canonical)),
    ("canonical", .ofTable (a.declared.map fun d => String.ofList (Units.format d))),
    ("diagnostics", .array (a.diagnostics.map Diagnostic.toJson))]

/-- The dimension of a markup expression. -/
def expressionAnswer (scope : Markup.Scope) (text : String) : Json :=
  match Markup.parse scope text.toList with
  | .ok d => .object (Json.acceptance d ++ [("reason", .null), ("message", .null), ("position", .null)])
  | .error f =>
    .object [("ok", .bool false), ("dimension", .null), ("reason", .string f.cause.code.name),
      ("message", .string f.cause.message), ("position", .integer f.position)]

/-- The verdict on an equation. -/
def equationAnswer (scope : Markup.Scope) (text : String) : Json := (Verdict.of scope text.toList).toJson

/-- The analysis of declarations on a stack, or the error that escapes where the stack is too small. -/
def analyse (room : Nat) (declarations : List Declaration) : Except Escape Analysis :=
  (Analysis.on? room declarations).elim (.error .stackExhausted) .ok

/-- The function of an endpoint, on a stack with room for `room` open parentheses in a unit. Units to check are taken in
    the order of their symbols. -/
def Call.answer (room : Nat) (limit : Markup.Limit) : Call → Except Escape Json
  | parseUnits text => .ok (declarationsAnswer text)
  | validateUnits units => do
    let pairs := units.mergeSort fun a b => a.1 ≤ b.1
    let declarations ← (Declaration.ofPairs? pairs).elim (.error .emptySymbol) .ok
    return unitsAnswer (← analyse room declarations)
  | checkExpression text declarations => do
    return expressionAnswer ⟨(← analyse room declarations).declared, limit⟩ text
  | checkEquation text declarations => do
    return equationAnswer ⟨(← analyse room declarations).declared, limit⟩ text
  | checkProject p => return (← p.checkOn room limit).toJson

end UnitCheck.Service
