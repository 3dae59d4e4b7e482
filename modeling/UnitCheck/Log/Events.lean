import UnitCheck.Equation.Batch
import UnitCheck.Log.Level
import UnitCheck.Project.Basic
import UnitCheck.Text.Quoted
import UnitCheck.Variable.Basic

/-! # Log lines about readings

What the log says when a text is read. It says nothing about a text that can be read, and a text that is
blank or names a denied command is not worth a line. -/

namespace UnitCheck.Log

/-- A line for those who look for a fault. -/
def debug (text : String) : Line := ⟨.debug, text⟩

/-- The lines about a unit expression. -/
def unitLines (text : String) : List Line :=
  match Units.parse text.toList with
  | .ok _ => []
  | .error f =>
    if f.cause = .emptyText then []
    else
      let normal := String.ofList (Units.normalize text.toList)
      [debug ("Unit expression " ++ Text.quote text ++ " rejected: " ++ f.cause.message ++ "\n" ++
        f.pointer normal)]

/-- The lines about a declaration. -/
def declarationLines (d : Declaration) : List Line :=
  unitLines d.unitText ++
    match d.dimension with
    | .ok _ => []
    | .error f =>
      [debug ("Omitting variable " ++ Text.quote d.symbol ++ ": " ++ f.cause.message ++
        " (" ++ f.cause.code.name ++ ")")]

/-- The lines about a markup text. -/
def markupLines (scope : Markup.Scope) (text : List Char) : List Line :=
  if text.all Text.isBlank || (Markup.findDenied? text).isSome then []
  else
    match Markup.parse scope text with
    | .ok _ => []
    | .error f =>
      [debug ("Markup " ++ Text.quote (String.ofList text) ++ ": " ++ f.cause.message ++
        " (" ++ f.cause.code.name ++ ")")]

/-- The lines about an equation. The right side is read only if the left side could be. -/
def equationLines (scope : Markup.Scope) (text : List Char) : List Line :=
  match Side.split? text with
  | none => []
  | some (left, right) =>
    match Markup.parse scope left.text with
    | .error _ => markupLines scope left.text
    | .ok _ => markupLines scope right.text

/-- The lines about the declarations and equations of a project. -/
def projectLines (scope : Markup.Scope) (p : Project) : List Line :=
  p.declarations.flatMap declarationLines ++ p.equations.flatMap fun e => equationLines scope e.text.toList

end UnitCheck.Log
