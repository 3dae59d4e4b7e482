import UnitCheck.Markup.Parser
import UnitCheck.Units.Parser

/-! # Variables from declarations

A declaration gives a symbol the unit that its quantity is measured in. Declarations are taken in order:
one whose unit can be read writes the dimension of its symbol, over an earlier one if there is one, and
any other leaves the table as it is and is reported. -/

namespace UnitCheck

/-- A symbol and the text of its unit. -/
structure Declaration where
  symbol : String
  unitText : String
  symbol_ne : symbol ≠ ""
deriving DecidableEq

namespace Declaration

/-- The declaration of a symbol; an empty text is none. -/
def of? (symbol unitText : String) : Option Declaration :=
  if h : symbol = "" then none else some ⟨symbol, unitText, h⟩

/-- The declarations of a list of pairs, all of which must have a symbol. -/
def ofPairs? (pairs : List (String × String)) : Option (List Declaration) :=
  pairs.mapM fun (symbol, unitText) => of? symbol unitText

/-- What is wrong with a declaration without a symbol. -/
def emptySymbolMessage : String := "Variable symbol cannot be empty"

/-- The dimension of the declared unit. -/
def dimension (d : Declaration) : Except (Failure Units.Cause) Dimension := Units.parse d.unitText.toList

/-- Whether there is room enough on the stack to read the declared unit. -/
def fits (room : Nat) (d : Declaration) : Bool := Units.fits room d.unitText.toList

end Declaration

/-- A declaration whose unit could not be read. -/
structure Diagnostic where
  declaration : Declaration
  failure : Failure Units.Cause
deriving DecidableEq

namespace Diagnostic

/-- The declared symbol. -/
def symbol (d : Diagnostic) : String := d.declaration.symbol

/-- The kind of failure. -/
def code (d : Diagnostic) : Code := d.failure.cause.code

/-- What is wrong with the unit. -/
def message (d : Diagnostic) : String := d.failure.cause.message

/-- What can be done about it. -/
def hint (d : Diagnostic) : String :=
  match d.code with
  | .empty => "Provide a unit for this symbol, or 1 if it is dimensionless."
  | .unknownUnit => "Use one of: 1, m, s, kg, K, A, mol, cd, N, J, W, Pa."
  | .malformedExponent => "Exponents must be unsigned numbers; write 1/s^2 rather than s^-2."
  | _ => "Check for typos or mismatched parentheses in the unit expression."

end Diagnostic

/-- The variables of a list of declarations, and the declarations that were left out. -/
structure Analysis where
  declared : Markup.Variables
  diagnostics : List Diagnostic

namespace Analysis

instance : EmptyCollection Analysis := ⟨⟨∅, []⟩⟩

/-- Takes one more declaration. -/
def add (a : Analysis) (d : Declaration) : Analysis :=
  match d.dimension with
  | .ok dimension => { a with declared := a.declared.insert d.symbol dimension }
  | .error failure => { a with diagnostics := a.diagnostics ++ [⟨d, failure⟩] }

/-- The analysis of a list of declarations. -/
def of (declarations : List Declaration) : Analysis := declarations.foldl add ∅

/-- The analysis of a list of declarations on a stack with room for `room` open parentheses. There is none if the
    stack is too small for one of the units. -/
def on? (room : Nat) (declarations : List Declaration) : Option Analysis :=
  declarations.foldlM (fun a d => if d.fits room then some (a.add d) else none) ∅

end Analysis

end UnitCheck
