import UnitCheck.Dimension.Printer
import UnitCheck.Failure
import UnitCheck.Json.Value

/-! # Readings as JSON -/

namespace UnitCheck.Json

/-- The members that say which dimension a text has. -/
def acceptance (d : Dimension) : List (String × Json) :=
  [("ok", bool true), ("dimension", string d.canonical)]

/-- The members that say why a text has none. -/
def refusal (code : Code) (message : String) (position : Int) : List (String × Json) :=
  [("ok", bool false), ("reason", string code.name), ("message", string message),
   ("position", integer position)]

end UnitCheck.Json
