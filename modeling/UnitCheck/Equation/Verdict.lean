import UnitCheck.Equation.Basic
import UnitCheck.Markup.Parser

/-! # Verdicts on equations

An equation has exactly one `=`. Each side is trimmed and read for itself; a failure on a side is
reported at its place in the whole equation, and one on the left side hides the right side. The verdict
is good when both sides have the same dimension within the tolerance. -/

namespace UnitCheck

open UnitCheck.Text (trim trimStart)

/-- One side of an equation, and where it begins. -/
structure Side where
  text : List Char
  offset : Nat
deriving DecidableEq

namespace Side

/-- The side that a piece of an equation holds. -/
def ofPiece (offset : Nat) (piece : List Char) : Side :=
  ⟨trim piece, offset + (piece.length - (trimStart piece).length)⟩

/-- The sides of an equation with one `=`. -/
def split? (text : List Char) : Option (Side × Side) :=
  let left := text.takeWhile (· ≠ '=')
  match text.dropWhile (· ≠ '=') with
  | [] => none
  | _ :: right => if right.contains '=' then none else some (ofPiece 0 left, ofPiece (left.length + 1) right)

/-- The dimension of a side; positions count from the beginning of the equation. -/
def dimension (scope : Markup.Scope) (s : Side) : Except (Failure Markup.Cause) Dimension :=
  (Markup.parse scope s.text).mapError (·.shift s.offset)

end Side

/-- Why there is no telling whether an equation is right. -/
inductive Obstacle where
  | notOneEquals
  | side (failure : Failure Markup.Cause)
deriving DecidableEq

/-- What a check of an equation finds. -/
inductive Verdict where
  | good (left right : Dimension)
  | bad (left right : Dimension)
  | unknown (obstacle : Obstacle)
deriving DecidableEq

namespace Verdict

/-- Checks an equation. -/
def of (scope : Markup.Scope) (text : List Char) : Verdict :=
  match Side.split? text with
  | none => .unknown .notOneEquals
  | some (left, right) =>
    match left.dimension scope, right.dimension scope with
    | .error f, _ => .unknown (.side f)
    | _, .error f => .unknown (.side f)
    | .ok a, .ok b => if a.near b then .good a b else .bad a b

/-- The kinds of verdict. -/
inductive Status where
  | good
  | bad
  | unknown
deriving DecidableEq, Repr

/-- The name of a kind of verdict. -/
def Status.name : Status → String
  | good => "good"
  | bad => "bad"
  | unknown => "unknown"

/-- The kind of the verdict. -/
def status : Verdict → Status
  | good .. => .good
  | bad .. => .bad
  | unknown _ => .unknown

/-- Whether the equation is right. -/
def isGood (v : Verdict) : Bool := v.status = .good

/-- The verdict in words. -/
def message : Verdict → String
  | good left _ => "units ok: " ++ left.canonical
  | bad left right => "unit mismatch: LHS " ++ left.canonical ++ " vs RHS " ++ right.canonical
  | unknown .notOneEquals => "unit check: expected a single '=' in equation"
  | unknown (.side f) => "unit check: " ++ f.cause.message

/-- The kind of failure, if the equation is not right. -/
def reason? : Verdict → Option Code
  | good .. => none
  | bad .. => some .dimensionMismatch
  | unknown .notOneEquals => some .structural
  | unknown (.side f) => some f.cause.code

/-- The dimensions of both sides, if they could be read. -/
def sides? : Verdict → Option (Dimension × Dimension)
  | good left right | bad left right => some (left, right)
  | unknown _ => none

/-- Where a side could not be read. -/
def position? : Verdict → Option Int
  | unknown (.side f) => some f.position
  | _ => none

end Verdict

end UnitCheck
