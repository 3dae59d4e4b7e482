import UnitCheck.Failure
import UnitCheck.Text.Blank

/-! # Tokens of a unit expression

A unit expression is first brought into its normal form: `\cdot`, `\times` and the signs `·` and `×`
become `*`, white space goes, and braces become parentheses. The normal form is then cut into maximal
runs of digits and points, maximal runs of letters, and single signs. All positions count characters of
the normal form. -/

namespace UnitCheck.Units

open UnitCheck.Text

/-- One character of the normal form. -/
def normalChar (c : Char) : Char :=
  if c = '·' || c = '×' then '*'
  else if c = '\x7b' then '('
  else if c = '\x7d' then ')'
  else c

/-- The normal form of a unit expression. -/
def normalize : List Char → List Char
  | [] => []
  | '\\' :: 'c' :: 'd' :: 'o' :: 't' :: rest => '*' :: normalize rest
  | '\\' :: 't' :: 'i' :: 'm' :: 'e' :: 's' :: rest => '*' :: normalize rest
  | c :: rest => if isBlank c then normalize rest else normalChar c :: normalize rest

/-- Why a unit expression has no dimension. -/
inductive Cause where
  | emptyText
  | unexpectedCharacter (c : Char)
  | unexpectedEnd
  | unexpectedToken (text : String)
  | unclosedParenthesis
  | unknownUnit (name : String)
  | exponentMissing
  | exponentInvalid (text : String)
  | exponentNotFinite
  | exponentOverflow
  | trailing (rest : String)
deriving DecidableEq

/-- The kind of failure. -/
def Cause.code : Cause → Code
  | emptyText => .empty
  | unexpectedCharacter _ | unexpectedEnd | unexpectedToken _ | unclosedParenthesis => .malformed
  | unknownUnit _ => .unknownUnit
  | exponentMissing | exponentInvalid _ | exponentNotFinite | exponentOverflow => .malformedExponent
  | trailing _ => .trailingInput

/-- The wording of a failure. -/
def Cause.message : Cause → String
  | emptyText => "Unit expression is empty"
  | unexpectedCharacter c => "Unexpected character '" ++ c.toString ++ "' in unit expression"
  | unexpectedEnd => "Unexpected end of unit expression"
  | unexpectedToken text => "Unexpected token '" ++ text ++ "'"
  | unclosedParenthesis => "Missing closing parenthesis"
  | unknownUnit name => "Unknown unit symbol '" ++ name ++ "'"
  | exponentMissing => "Expected a numeric exponent after '^'"
  | exponentInvalid text => "Invalid exponent '" ++ text ++ "'"
  | exponentNotFinite => "Exponent must be finite"
  | exponentOverflow => "Dimension exponent overflows"
  | trailing rest => "Unexpected trailing input '" ++ rest ++ "'"

/-- The kinds of token. -/
inductive Kind where
  | leftParen
  | rightParen
  | times
  | over
  | caret
  | sign
  | number
  | symbol
deriving DecidableEq, Repr

/-- The kind of token that a character belongs to. -/
def kind? (c : Char) : Option Kind :=
  if c = '(' then some .leftParen
  else if c = ')' then some .rightParen
  else if c = '*' then some .times
  else if c = '/' then some .over
  else if c = '^' then some .caret
  else if c = '+' || c = '-' then some .sign
  else if c.isDigit || c = '.' then some .number
  else if c.isAlpha then some .symbol
  else none

/-- Whether characters of the kind run together into one token. -/
def Kind.runs : Kind → Bool
  | number | symbol => true
  | _ => false

/-- A piece of the normal form and where it begins. -/
structure Token where
  kind : Kind
  text : String
  start : Nat
deriving DecidableEq

/-- Cuts a normal form that begins at `start` into tokens. -/
def tokenize (start : Nat) : List Char → Except (Failure Cause) (List Token)
  | [] => .ok []
  | c :: rest =>
    match kind? c with
    | none => .error ⟨.unexpectedCharacter c, start⟩
    | some k =>
      let run := if k.runs then rest.takeWhile (kind? · = some k) else []
      let token : Token := ⟨k, String.ofList (c :: run), start⟩
      (tokenize (start + 1 + run.length) (rest.drop run.length)).map (token :: ·)
termination_by cs => cs.length
decreasing_by simp only [List.length_drop, List.length_cons]; omega

end UnitCheck.Units
