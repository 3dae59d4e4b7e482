import UnitCheck.Units.Table
import UnitCheck.Binary64.Shortest

/-! # Dimensions as unit expressions

A dimension within the tolerance of a derived unit is that unit. Any other is a product of base units,
those of negative exponent behind one `/`; an exponent is written unless it is one. -/

namespace UnitCheck.Units

/-- The units of more than one base quantity. -/
def derived : List (String × Dimension) := table.filter fun u => 1 < u.2.bases.length

/-- A base unit to the power of an exponent's size. -/
def powerText (b : Base) (e : Exponent) : List Char :=
  let size : Binary64.Finite := if e.value.quanta < 0 then -e.value else e.value
  if size = 1 then (baseUnit b).toList else (baseUnit b).toList ++ '^' :: size.compactText

/-- The base units whose exponents have the wanted sign, joined by `*`. -/
def productText (d : Dimension) (wanted : Binary64.Finite → Bool) : List Char :=
  ['*'].intercalate ((Base.all.filter fun b => wanted (d.get b).value).map fun b => powerText b (d.get b))

/-- A dimension as a unit expression. -/
def format (d : Dimension) : List Char :=
  match derived.find? fun u => u.2.near d with
  | some (name, _) => name.toList
  | none =>
    let above := productText d fun x => 0 < x.quanta
    let below := productText d fun x => x.quanta < 0
    (if above.isEmpty then ['1'] else above) ++ (if below.isEmpty then [] else '/' :: below)

end UnitCheck.Units
