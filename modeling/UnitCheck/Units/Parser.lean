import UnitCheck.Units.Table
import UnitCheck.Units.Token
import UnitCheck.Binary64.Literal

/-! # Unit expressions

The grammar of a unit expression in normal form:

    expression := factor (('*' | '/') factor)*
    factor     := primary ('^' number)?
    primary    := '(' expression ')' | symbol | '1'

Operators are applied from left to right, so `a/b*c` is `(a/b)*c`. A reader takes the tokens that are
left and gives the dimension with the tokens behind it. Each reader is built from the one for the
expressions inside its parentheses; an expression inside has fewer tokens than the one around it, so the
number of tokens bounds how deep they nest, and also how many factors there are. A reader that runs on a
stack has room for so many open parentheses only, and stops at the first for which there is none left. -/

namespace UnitCheck.Units

/-- The reasons for which a reader stops, of which the failures of a text are some. -/
class Reason (ε : Type) where
  ofFailure : Failure Cause → ε

instance : Reason (Failure Cause) := ⟨id⟩

/-- Why a reader that runs on a stack stops. -/
inductive Stop where
  | failure (f : Failure Cause)
  | exhausted
deriving DecidableEq

instance : Reason Stop := ⟨.failure⟩

/-- A failure of the text, as a reason to stop. -/
def refuse {ε α : Type} [Reason ε] (cause : Cause) (position : Nat) : Except ε α :=
  .error (Reason.ofFailure ⟨cause, position⟩)

/-- A dimension and the tokens behind what was read. -/
abbrev Reading := Dimension × List Token

variable {ε : Type} [Reason ε]

/-- Where the next token is, or the end of the text. -/
def position (stop : Nat) : List Token → Nat
  | [] => stop
  | t :: _ => t.start

/-- Reads `(` expression `)`, a unit or the number one. -/
def primary (stop : Nat) (inner : List Token → Except ε Reading) : List Token → Except ε Reading
  | [] => refuse .unexpectedEnd stop
  | t :: rest =>
    match t.kind with
    | .leftParen => do
      let (d, rest) ← inner rest
      match rest with
      | ⟨.rightParen, _, _⟩ :: rest => .ok (d, rest)
      | rest => refuse .unclosedParenthesis (position stop rest)
    | .symbol =>
      match find? t.text with
      | some d => .ok (d, rest)
      | none => refuse (.unknownUnit t.text) t.start
    | .number => if t.text = "1" then .ok (.one, rest) else refuse (.unexpectedToken t.text) t.start
    | _ => refuse (.unexpectedToken t.text) t.start

/-- Raises a dimension to the number that comes next. -/
def raise (stop : Nat) (d : Dimension) : List Token → Except ε Reading
  | ⟨.number, text, start⟩ :: rest =>
    match Binary64.read? text.toList with
    | none => refuse (.exponentInvalid text) start
    | some x =>
      match d.pow? x with
      | none => refuse .exponentNotFinite start
      | some d => .ok (d, rest)
  | rest => refuse .exponentMissing (position stop rest)

/-- Reads a primary with its exponent. -/
def factor (stop : Nat) (inner : List Token → Except ε Reading) (tokens : List Token) : Except ε Reading := do
  let (d, rest) ← primary stop inner tokens
  match rest with
  | ⟨.caret, _, _⟩ :: rest => raise stop d rest
  | rest => .ok (d, rest)

/-- A result of arithmetic, with the tokens behind it. -/
def combined (start : Nat) (result : Except Overflow Dimension) (rest : List Token) : Except ε Reading :=
  match result with
  | .ok d => .ok (d, rest)
  | .error _ => refuse .exponentOverflow start

/-- Reads operators and factors behind a dimension, at most `bound` of them. -/
def factors (stop : Nat) (inner : List Token → Except ε Reading) :
    Nat → Dimension → List Token → Except ε Reading
  | 0, d, tokens => .ok (d, tokens)
  | bound + 1, d, tokens =>
    match tokens with
    | ⟨.times, _, start⟩ :: rest => do
      let (e, rest) ← factor stop inner rest
      let (d, rest) ← combined start (d.mul e) rest
      factors stop inner bound d rest
    | ⟨.over, _, start⟩ :: rest => do
      let (e, rest) ← factor stop inner rest
      let (d, rest) ← combined start (d.div e) rest
      factors stop inner bound d rest
    | tokens => .ok (d, tokens)

/-- Reads factors with operators between them. -/
def product (stop : Nat) (inner : List Token → Except ε Reading) (tokens : List Token) : Except ε Reading := do
  let (d, rest) ← factor stop inner tokens
  factors stop inner rest.length d rest

/-- Reads an expression in which parentheses nest less than `bound` deep; where there are more it stops for the
    reason given. -/
def expression (reason : ε) (stop : Nat) : Nat → List Token → Except ε Reading
  | 0, _ => .error reason
  | bound + 1, tokens => product stop (expression reason stop bound) tokens

/-- The dimension that was read, if that took all the tokens of the normal form. -/
def whole (normal : List Char) : Reading → Except ε Dimension
  | (d, []) => .ok d
  | (_, t :: _) => refuse (.trailing (String.ofList (normal.drop t.start))) t.start

/-- Reads a text, from its normal form on, with a reader of the tokens of a text that ends at an offset. -/
def parseWith (read : Nat → List Token → Except ε Reading) (text : List Char) : Except ε Dimension :=
  let normal := normalize text
  if normal.isEmpty then refuse .emptyText 0
  else do
    let tokens ← (tokenize 0 normal).mapError Reason.ofFailure
    whole normal (← read normal.length tokens)

/-- The dimension of a unit expression. A position in a failure counts characters of the normal form. -/
def parse (text : List Char) : Except (Failure Cause) Dimension :=
  -- Parentheses nest less deep than there are tokens, so no reading comes to the bound.
  parseWith (fun stop tokens => expression ⟨.unexpectedEnd, stop⟩ stop tokens.length tokens) text

/-- The dimension of a unit expression that is read on a stack with room for `room` open parentheses. -/
def parseOn (room : Nat) (text : List Char) : Except Stop Dimension :=
  parseWith (fun stop tokens => expression .exhausted stop (room + 1) tokens) text

/-- Whether there is room enough to read the text. -/
def fits (room : Nat) (text : List Char) : Bool :=
  match parseOn room text with
  | .error .exhausted => false
  | _ => true

/-- How many open parentheses there is room for as a rule. -/
def usualRoom : Nat := 240

end UnitCheck.Units
