import UnitCheck.Dimension.Printer
import UnitCheck.Failure

/-! # Causes of failure in markup -/

namespace UnitCheck.Markup

/-- Why a markup expression has no dimension. -/
inductive Cause where
  | emptyExpression
  | deniedCommand (name : String)
  | layoutCommand (name : String)
  | undeclared (symbol : String)
  | unbalancedBraces
  | tooDeep (levels : Nat)
  | unexpectedEnd
  | unexpectedToken (text : String)
  | unclosedParenthesis
  | fractionOperands
  | subscriptMissing
  | exponentMissing
  | exponentInvalid (text : String)
  | exponentNotFinite
  | exponentOverflow
  | sumMismatch (subtracted : Bool) (first other : Dimension)
  | trailing (text : String)
deriving DecidableEq

namespace Cause

/-- The kind of failure. -/
def code : Cause → Code
  | emptyExpression => .empty
  | deniedCommand _ | layoutCommand _ => .unsupportedConstruct
  | undeclared _ => .unresolvedSymbol
  | unbalancedBraces | unexpectedEnd | unexpectedToken _ | unclosedParenthesis | fractionOperands
  | subscriptMissing => .malformed
  | tooDeep _ => .tooDeeplyNested
  | exponentMissing | exponentInvalid _ | exponentNotFinite | exponentOverflow => .malformedExponent
  | sumMismatch .. => .dimensionMismatch
  | trailing _ => .trailingInput

/-- The wording of a failure. -/
def message : Cause → String
  | emptyExpression => "empty expression"
  | deniedCommand name =>
    "unsupported operator " ++ name ++
      " (derivatives, integrals, sums and transcendental functions are not checked)"
  | layoutCommand name => "unsupported macro " ++ name
  | undeclared symbol => "no units declared for symbol '" ++ symbol ++ "'"
  | unbalancedBraces => "unbalanced braces"
  | tooDeep levels => "expression nested more than " ++ toString levels ++ " levels deep"
  | unexpectedEnd => "unexpected end of expression"
  | unexpectedToken text => "unexpected '" ++ text ++ "'"
  | unclosedParenthesis => "missing closing parenthesis"
  | fractionOperands => "\\frac expects two brace groups"
  | subscriptMissing => "subscript without content"
  | exponentMissing => "only numeric exponents are supported"
  | exponentInvalid text => "exponent '" ++ text ++ "' is not a number"
  | exponentNotFinite => "exponent must be a finite number"
  | exponentOverflow => "dimension exponent overflows"
  | sumMismatch false first other => "cannot add " ++ other.canonical ++ " to " ++ first.canonical
  | sumMismatch true first other => "cannot subtract " ++ other.canonical ++ " from " ++ first.canonical
  | trailing text => "trailing tokens starting at '" ++ text ++ "' (unsupported structure)"

end Cause

end UnitCheck.Markup
