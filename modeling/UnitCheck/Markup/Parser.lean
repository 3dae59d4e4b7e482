import UnitCheck.Markup.Cause
import UnitCheck.Markup.Denied
import UnitCheck.Markup.Group
import UnitCheck.Markup.Limit
import UnitCheck.Binary64.Literal
import UnitCheck.Table
import UnitCheck.Text.Blank

/-! # Dimensions of markup

The grammar of an expression:

    expression := ('+' | '-')? term (('+' | '-') term)*
    term       := factor (('*' | '/') factor | factor)*
    factor     := primary ('^' exponent)?
    exponent   := number | group of a number with or without a sign
    primary    := '(' expression ')' | group | '\frac' group group | symbol subscript? | number
    subscript  := '_' (group | token)

A group in braces is an expression of its own: what is between the braces must be read completely. A
reader takes the tokens that are left and gives the dimension with the tokens behind what it read. Each
reader is built from the one for the expressions one level deeper, if there is a level left; so the
number of levels decreases on the way into a group, and the tokens along it. -/

namespace UnitCheck.Markup

/-- The declared variables and their dimensions. -/
abbrev Variables := Table String Dimension

/-- What an expression is read against. -/
structure Scope where
  declared : Variables
  limit : Limit

/-- A dimension and the tokens behind what was read, or a failure. -/
abbrev Reading := Except (Failure Cause) (Dimension × List Token)

/-- Reads an expression; the offset is where its text ends. -/
abbrev Reader := Int → List Token → Reading

/-- Commands that wrap a symbol and name none. -/
def layoutCommands : List String :=
  ["\\sqrt", "\\vec", "\\hat", "\\bar", "\\dot", "\\ddot", "\\mathrm", "\\mathbf"]

/-- Where the next token is, or the end of the text. -/
def position (stop : Int) : List Token → Int
  | [] => stop
  | t :: _ => t.start

/-- A result of arithmetic, with the tokens behind it. -/
def combined (start : Int) (result : Except Overflow Dimension) (rest : List Token) : Reading :=
  match result with
  | .ok d => .ok (d, rest)
  | .error _ => .error ⟨.exponentOverflow, start⟩

/-- Reads all tokens as one expression that ends at `stop`. -/
def complete (read : Reader) (stop : Int) (tokens : List Token) : Except (Failure Cause) Dimension :=
  if tokens.isEmpty then .error ⟨.emptyExpression, stop⟩
  else
    match firstDenied? tokens with
    | some (name, start) => .error ⟨.deniedCommand name, start⟩
    | none => do
      let (d, rest) ← read stop tokens
      match rest with
      | [] => .ok d
      | t :: _ => .error ⟨.trailing t.text, t.start⟩

/-- Reads the group behind the opening brace `brace`. -/
def group (limit : Limit) (inner : Option Reader) (brace : Token) (tokens : List Token) : Reading :=
  match Group.split? 0 tokens with
  | none => .error ⟨.unbalancedBraces, brace.start⟩
  | some g =>
    match inner with
    | none => .error ⟨.tooDeep limit.levels, brace.start⟩
    | some read => (complete read g.close.start g.inner).map (·, g.rest)

/-- Passes over a subscript, if there is one. -/
def skipSubscript : List Token → Except (Failure Cause) (List Token)
  | [] => .ok []
  | mark :: rest =>
    if mark.kind = .subscript then
      match rest with
      | [] => .error ⟨.subscriptMissing, mark.start⟩
      | t :: rest =>
        if t.opensGroup then
          match Group.split? 0 rest with
          | none => .error ⟨.unbalancedBraces, t.start⟩
          | some g => .ok g.rest
        else .ok rest
    else .ok (mark :: rest)

/-- The dimension of a symbol. -/
def symbol (declared : Variables) (t : Token) : Except (Failure Cause) Dimension :=
  match declared.find? t.text with
  | some d => .ok d
  | none =>
    if layoutCommands.contains t.text then .error ⟨.layoutCommand t.text, t.start⟩
    else .error ⟨.undeclared t.text, t.start⟩

/-- Reads an operand of the fraction whose command begins at `start`. -/
def operand (limit : Limit) (inner : Option Reader) (start : Int) : List Token → Reading
  | [] => .error ⟨.fractionOperands, start⟩
  | t :: rest => if t.opensGroup then group limit inner t rest else .error ⟨.fractionOperands, start⟩

/-- Reads a primary. -/
def primary (scope : Scope) (inner : Option Reader) (stop : Int) : List Token → Reading
  | [] => .error ⟨.unexpectedEnd, stop⟩
  | t :: rest =>
    match t.kind with
    | .number => .ok (.one, rest)
    | .identifier => do
      let rest ← skipSubscript rest
      let d ← symbol scope.declared t
      .ok (d, rest)
    | .command =>
      if t.text = "\\frac" then do
        let (above, rest) ← operand scope.limit inner t.start rest
        let (below, rest) ← operand scope.limit inner t.start rest
        combined t.start (above.div below) rest
      else do
        let rest ← skipSubscript rest
        let d ← symbol scope.declared t
        .ok (d, rest)
    | .operator =>
      if t.text = "(" then
        match inner with
        | none => .error ⟨.tooDeep scope.limit.levels, t.start⟩
        | some read => do
          let (d, rest) ← read stop rest
          match rest with
          | [] => .error ⟨.unclosedParenthesis, stop⟩
          | t :: rest =>
            if t.isOperator ")" then .ok (d, rest) else .error ⟨.unclosedParenthesis, t.start⟩
      else if t.opensGroup then group scope.limit inner t rest
      else .error ⟨.unexpectedToken t.text, t.start⟩
    | .subscript => .error ⟨.unexpectedToken t.text, t.start⟩

/-- A number, with one sign in front of it or none. -/
def isSignedNumber : List Token → Bool
  | [t] => t.kind = .number
  | [s, t] => (s.isOperator "+" || s.isOperator "-") && t.kind = .number
  | _ => false

/-- The number that a text writes, as the exponent behind a caret at `start`. -/
def exponentNumber (start : Int) (text : String) : Except (Failure Cause) Binary64 :=
  match Binary64.read? text.toList with
  | some x => .ok x
  | none => .error ⟨.exponentInvalid text, start⟩

/-- Reads the exponent behind a caret at `start`. -/
def exponent (start : Int) : List Token → Except (Failure Cause) (Binary64 × List Token)
  | [] => .error ⟨.exponentMissing, start⟩
  | t :: rest =>
    if t.kind = .number then (exponentNumber start t.text).map (·, rest)
    else if t.opensGroup then
      match Group.split? 0 rest with
      | none => .error ⟨.unbalancedBraces, t.start⟩
      | some g =>
        let text := String.join (g.inner.map (·.text))
        if isSignedNumber g.inner then (exponentNumber start text).map (·, g.rest)
        else .error ⟨.exponentInvalid text, start⟩
    else .error ⟨.exponentMissing, t.start⟩

/-- Reads a primary with its exponent. -/
def factor (scope : Scope) (inner : Option Reader) (stop : Int) (tokens : List Token) : Reading := do
  let (d, rest) ← primary scope inner stop tokens
  match rest with
  | [] => .ok (d, [])
  | t :: rest =>
    if t.isOperator "^" then do
      let (x, rest) ← exponent t.start rest
      match d.pow? x with
      | some d => .ok (d, rest)
      | none => .error ⟨.exponentNotFinite, t.start⟩
    else .ok (d, t :: rest)

/-- Whether a factor can begin with the token, so that it is multiplied without an operator. -/
def Token.startsFactor (t : Token) : Bool :=
  match t.kind with
  | .operator => t.text = "(" || t.opensGroup
  | .subscript => false
  | _ => true

/-- Reads factors behind a dimension, at most `bound` of them. -/
def factors (scope : Scope) (inner : Option Reader) (stop : Int) :
    Nat → Dimension → List Token → Reading
  | 0, d, tokens => .ok (d, tokens)
  | _, d, [] => .ok (d, [])
  | bound + 1, d, t :: rest =>
    if t.isOperator "*" then do
      let (e, rest) ← factor scope inner stop rest
      let (d, rest) ← combined t.start (d.mul e) rest
      factors scope inner stop bound d rest
    else if t.isOperator "/" then do
      let (e, rest) ← factor scope inner stop rest
      let (d, rest) ← combined t.start (d.div e) rest
      factors scope inner stop bound d rest
    else if t.startsFactor then do
      let (e, rest) ← factor scope inner stop (t :: rest)
      let (d, rest) ← combined t.start (d.mul e) rest
      factors scope inner stop bound d rest
    else .ok (d, t :: rest)

/-- Reads a product. -/
def term (scope : Scope) (inner : Option Reader) (stop : Int) (tokens : List Token) : Reading := do
  let (d, rest) ← factor scope inner stop tokens
  factors scope inner stop rest.length d rest

/-- Whether the token is `+` or `-`. -/
def Token.isSign (t : Token) : Bool := t.isOperator "+" || t.isOperator "-"

/-- Reads signs and terms behind the first term of a sum, at most `bound` of them. Each must have the
    dimension of the first. -/
def terms (scope : Scope) (inner : Option Reader) (stop : Int) : Nat → Dimension → List Token → Reading
  | 0, d, tokens => .ok (d, tokens)
  | _, d, [] => .ok (d, [])
  | bound + 1, d, t :: rest =>
    if t.isSign then do
      let (e, rest) ← term scope inner stop rest
      if d.near e then terms scope inner stop bound d rest
      else .error ⟨.sumMismatch (t.text = "-") d e, t.start⟩
    else .ok (d, t :: rest)

/-- The tokens behind a sign that comes first. -/
def dropSign : List Token → List Token
  | [] => []
  | t :: rest => if t.isSign then rest else t :: rest

/-- Reads a sum. -/
def sum (scope : Scope) (inner : Option Reader) : Reader := fun stop tokens => do
  let (d, rest) ← term scope inner stop (dropSign tokens)
  terms scope inner stop rest.length d rest

/-- Reads an expression with a number of nesting levels left. -/
def expression (scope : Scope) : Nat → Reader
  | 0 => sum scope none
  | levels + 1 => sum scope (some (expression scope levels))

/-- The dimension of a list of tokens, all of them one expression that ends at `stop`. -/
def parseTokens (scope : Scope) (stop : Int) (tokens : List Token) : Except (Failure Cause) Dimension :=
  complete (expression scope scope.limit.levels) stop tokens

/-- Where a list of tokens ends. -/
def endOf (tokens : List Token) : Int :=
  match tokens.getLast? with
  | some t => t.stop
  | none => 0

/-- The dimension of a markup text. -/
def parse (scope : Scope) (text : List Char) : Except (Failure Cause) Dimension :=
  if text.all Text.isBlank then .error ⟨.emptyExpression, 0⟩
  else
    match findDenied? text with
    | some (name, start) => .error ⟨.deniedCommand name, start⟩
    | none => parseTokens scope text.length (tokenize text)

end UnitCheck.Markup
