import UnitCheck.Dimension.Printer
import UnitCheck.Binary64.Literal
import UnitCheck.Table

/-! # Dimensions from untyped values

Numbers come as integers of any size or as binary64 numbers, and an exponent may also come as a text or
not at all. Three things can be wrong with the parts of a dimension, and they are looked for in this
order: a symbol of no base quantity, an integer that no finite number is near to, an exponent that is not
finite once the parts of each base quantity are summed. -/

namespace UnitCheck

/-- A number as it is given. -/
inductive Number where
  | integer (n : Int)
  | real (x : Binary64)
deriving DecidableEq

/-- The binary64 number nearest to a given number; an integer must not be nearest to infinity. -/
def Number.toBinary64? : Number → Option Binary64
  | integer n =>
    match Binary64.ofInt n with
    | .finite x => some (.finite x)
    | _ => none
  | real x => some x

/-- A value offered as an exponent. -/
inductive Scalar where
  | number (n : Number)
  | text (s : String)
  | absent
deriving DecidableEq

/-- A value as it is shown in a message. -/
def Scalar.display : Scalar → String
  | number (.integer n) => toString n
  | number (.real x) => String.ofList x.text
  | text s => Text.quote s
  | absent => "None"

/-- Why there is no dimension. -/
inductive BuildError where
  | unknownBase (symbol : String)
  | integerTooLarge
  | overflow (o : Overflow)
  | exponentNotFinite (given : Scalar)
deriving DecidableEq

/-- The wording of a failure. -/
def BuildError.message : BuildError → String
  | unknownBase symbol => "Unknown base dimension " ++ Text.quote symbol
  | integerTooLarge => "int too large to convert to float"
  | overflow o =>
    "Exponent of " ++ o.base.symbol ++ " must be finite, got " ++ String.ofList o.value.text
  | exponentNotFinite given => "Dimension exponent must be finite, got " ++ given.display

namespace Dimension

/-- The base quantity of each symbol. -/
def namedBases : List (String × Number) → Except BuildError (List (Base × Number))
  | [] => .ok []
  | (symbol, n) :: rest =>
    match Base.ofSymbol? symbol with
    | none => .error (.unknownBase symbol)
    | some b => (namedBases rest).map ((b, n) :: ·)

/-- The sum of the numbers of each base quantity, in order. -/
def sums : List (Base × Number) → Table Base Binary64 → Except BuildError (Table Base Binary64)
  | [], t => .ok t
  | (b, n) :: rest, t =>
    match n.toBinary64? with
    | none => .error .integerTooLarge
    | some x => sums rest (t.update b fun old => (old.getD (.finite 0)).add x)

/-- The dimension of a list of parts. -/
def ofParts (parts : List (String × Number)) : Except BuildError Dimension := do
  let named ← namedBases parts
  let total ← sums named ∅
  (ofNumbers total.keys fun b => (total.find? b).getD (.finite 0)).mapError .overflow

/-- The dimension of two tables of parts, of which the second takes precedence. -/
def ofTables (parts overrides : List (String × Number)) : Except BuildError Dimension :=
  ofParts ((Table.ofList parts).union (Table.ofList overrides)).entries

/-- The power to a given value, which may not be one that powers are taken to. -/
def raise? (a : Dimension) : Scalar → Except BuildError (Option Dimension)
  | .number n =>
    match n.toBinary64? with
    | none => .error .integerTooLarge
    | some x => .ok (a.pow? x)
  | .text s => .ok ((Binary64.read? s.toList).bind a.pow?)
  | .absent => .ok none

/-- The power to a given value. -/
def raise (a : Dimension) (exponent : Scalar) : Except BuildError Dimension := do
  match ← a.raise? exponent with
  | some d => .ok d
  | none => .error (.exponentNotFinite exponent)

end Dimension

end UnitCheck
