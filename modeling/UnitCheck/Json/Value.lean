import UnitCheck.Binary64.Shortest
import UnitCheck.Table
import UnitCheck.Text.Quoted

/-! # JSON values

The members of an object keep the order in which their names first came. Integers are of any size; a
number with a point or an exponent is a binary64 number, whose sign is kept apart so that a zero has one. -/

namespace UnitCheck

/-- A JSON value. -/
inductive Json where
  | null
  | bool (b : Bool)
  | integer (n : Int)
  | real (negative : Bool) (size : Binary64)
  | string (s : String)
  | array (items : List Json)
  | object (members : List (String × Json))

namespace Json

instance : Inhabited Json := ⟨null⟩

/-- The text of a number, with its sign. -/
def realText (negative : Bool) (size : Binary64) : String :=
  String.ofList (if negative then '-' :: size.text else size.text)

/-- A string, or `null` where there is none. -/
def ofString? : Option String → Json
  | some s => string s
  | none => null

/-- An integer, or `null` where there is none. -/
def ofInt? : Option Int → Json
  | some n => integer n
  | none => null

/-- An array of strings. -/
def strings (ss : List String) : Json := array (ss.map string)

/-- An object of strings. -/
def ofTable (t : Table String String) : Json := object (t.entries.map fun (k, v) => (k, string v))

end Json

end UnitCheck
