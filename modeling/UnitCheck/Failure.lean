/-! # Located failures

A failure to read a text has a cause and a position, the offset in the text at which it can be shown. The
causes of each kind of text are a type of their own; what they share is a code, by which programs tell
them apart, and a message for people. -/

namespace UnitCheck

/-- The kinds of failure. -/
inductive Code where
  | empty
  | structural
  | unsupportedConstruct
  | unresolvedSymbol
  | trailingInput
  | malformedExponent
  | dimensionMismatch
  | unknownUnit
  | malformed
  | tooDeeplyNested
deriving DecidableEq, Repr

/-- The name of a kind of failure. -/
def Code.name : Code → String
  | empty => "empty"
  | structural => "structural"
  | unsupportedConstruct => "unsupported-construct"
  | unresolvedSymbol => "unresolved-symbol"
  | trailingInput => "trailing-input"
  | malformedExponent => "malformed-exponent"
  | dimensionMismatch => "dimension-mismatch"
  | unknownUnit => "unknown-unit"
  | malformed => "syntax"
  | tooDeeplyNested => "too-deeply-nested"

/-- A cause and where it lies. -/
structure Failure (κ : Type) where
  cause : κ
  position : Int
deriving DecidableEq

/-- A text with a caret on the next line under a position, if the position is in the text or at its end. -/
def pointer (text : String) (position : Option Int) : String :=
  match position with
  | none => text
  | some p =>
    if 0 ≤ p ∧ p ≤ text.length then
      text ++ "\n" ++ String.ofList (List.replicate p.toNat ' ') ++ "^"
    else text

namespace Failure

variable {κ : Type}

/-- A failure in a text whose beginning lies `offset` characters into another. -/
def shift (f : Failure κ) (offset : Int) : Failure κ := ⟨f.cause, f.position + offset⟩

/-- The text of the failure with a caret under its position. -/
def pointer (f : Failure κ) (text : String) : String := UnitCheck.pointer text (some f.position)

end Failure

end UnitCheck
