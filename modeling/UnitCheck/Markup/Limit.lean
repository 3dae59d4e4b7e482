/-! # The nesting limit

How many groups may be open at once in a markup text: at least one and at most a hundred. -/

namespace UnitCheck.Markup

/-- A number of nesting levels. -/
structure Limit where
  levels : Nat
  pos : 1 ≤ levels
  le : levels ≤ 100
deriving DecidableEq

namespace Limit

/-- The limit nearest to a number. -/
def clamp (n : Int) : Limit :=
  ⟨(min (max 1 n) 100).toNat, by omega, by omega⟩

/-- The limit where none is set. -/
def standard : Limit := clamp 64

end Limit

end UnitCheck.Markup
