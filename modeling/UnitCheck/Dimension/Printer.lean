import UnitCheck.Dimension.Basic
import UnitCheck.Binary64.Shortest
import UnitCheck.Text.Quoted

/-! # Dimensions in canonical form

The symbols in their order with spaces between, each with its exponent behind `^` unless that is one; an
integer is written by its digits alone. A dimension without exponents is `1`. -/

namespace UnitCheck.Dimension

/-- One base quantity with its exponent. -/
def itemText (b : Base) (e : Exponent) : List Char :=
  if e.value = 1 then b.symbol.toList else b.symbol.toList ++ '^' :: e.value.compactText

/-- The canonical text, as characters. -/
def canonicalText (d : Dimension) : List Char :=
  if d.isOne then ['1'] else [' '].intercalate (d.items.map fun (b, e) => itemText b e)

/-- The canonical text. -/
def canonical (d : Dimension) : String := String.ofList d.canonicalText

/-- The canonical text as it is shown among other values. -/
def display (d : Dimension) : String :=
  "Dimension(" ++ Text.quote d.canonical ++ ")"

end UnitCheck.Dimension
