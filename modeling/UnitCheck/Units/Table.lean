import UnitCheck.Dimension.Named

/-! # The units

The units that a unit expression may name: one, the seven base units, and the units of force, energy,
power and pressure. -/

namespace UnitCheck.Units

/-- The units by name. -/
def table : List (String × Dimension) :=
  [("1", .one), ("m", .ofBase .length), ("s", .ofBase .time), ("kg", .ofBase .mass),
   ("K", .ofBase .temperature), ("A", .ofBase .current), ("mol", .ofBase .amount),
   ("cd", .ofBase .luminosity), ("N", .force), ("J", .energy), ("W", .power), ("Pa", .pressure)]

/-- The dimension of a unit. -/
def find? (name : String) : Option Dimension := table.lookup name

/-- The unit of a base quantity. -/
def baseUnit : Base → String
  | .mass => "kg"
  | .length => "m"
  | .time => "s"
  | .temperature => "K"
  | .current => "A"
  | .amount => "mol"
  | .luminosity => "cd"

end UnitCheck.Units
