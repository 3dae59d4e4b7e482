import UnitCheck.Dimension.Basic

/-! # Named dimensions

The base quantities as dimensions, and the mechanical quantities derived from them. -/

namespace UnitCheck.Dimension

/-- A base quantity, to the power one. -/
def ofBase (b : Base) : Dimension := ofInts [(b, 1)]

def velocity : Dimension := ofInts [(.length, 1), (.time, -1)]

def acceleration : Dimension := ofInts [(.length, 1), (.time, -2)]

def force : Dimension := ofInts [(.mass, 1), (.length, 1), (.time, -2)]

def energy : Dimension := ofInts [(.mass, 1), (.length, 2), (.time, -2)]

def power : Dimension := ofInts [(.mass, 1), (.length, 2), (.time, -3)]

def pressure : Dimension := ofInts [(.mass, 1), (.length, -1), (.time, -2)]

end UnitCheck.Dimension
