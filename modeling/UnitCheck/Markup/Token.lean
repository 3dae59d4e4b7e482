/-! # Tokens of a markup text

Markup is cut into commands (a backslash with a run of letters), single letters, runs of digits and
points, operators and subscript marks. The commands `\cdot` and `\times` are the operator `*`; `\left`
and `\right` are left out, and so is every character that belongs to none of these. A token keeps the
offsets of its first character and of the one behind its last. -/

namespace UnitCheck.Markup

/-- The kinds of token. -/
inductive Kind where
  | identifier
  | command
  | number
  | operator
  | subscript
deriving DecidableEq, Repr

/-- The name of a kind of token. -/
def Kind.name : Kind → String
  | identifier => "identifier"
  | command => "command"
  | number => "number"
  | operator => "operator"
  | subscript => "subscript"

/-- A token. The offsets may count from any origin, so a list of tokens can be part of a longer one. -/
structure Token where
  kind : Kind
  text : String
  start : Int
  stop : Int
deriving DecidableEq

namespace Token

/-- Whether the token is the operator `s`. -/
def isOperator (t : Token) (s : String) : Bool := t.kind = .operator && t.text = s

/-- Whether the token opens a brace group. -/
def opensGroup (t : Token) : Bool := t.isOperator "\x7b"

/-- Whether the token closes a brace group. -/
def closesGroup (t : Token) : Bool := t.isOperator "\x7d"

end Token

/-- An ASCII letter. -/
def isLetter (c : Char) : Bool := c.isAlpha

/-- A character of a number. -/
def isNumberChar (c : Char) : Bool := c.isDigit || c = '.'

/-- The operators that are one character. -/
def operatorChars : List Char := "=+-*/^()\x7b\x7d".toList

/-- The commands that mean multiplication. -/
def multiplicationCommands : List String := ["\\cdot", "\\times"]

/-- The commands that only size the bracket behind them. -/
def sizingCommands : List String := ["\\left", "\\right"]

/-- The token that a command name makes. -/
def commandPiece (name : String) : Option (Kind × String) :=
  if multiplicationCommands.contains name then some (.operator, "*")
  else if sizingCommands.contains name then none
  else some (.command, name)

/-- The piece of text that begins with `c`: the kind and text of its token, if it makes one, and how many
    characters behind `c` belong to it. -/
def piece (c : Char) (rest : List Char) : Option (Kind × String) × Nat :=
  if c = '\\' then
    let name := rest.takeWhile isLetter
    (if name.isEmpty then none else commandPiece (String.ofList (c :: name)), name.length)
  else if isNumberChar c then
    let digits := rest.takeWhile isNumberChar
    (some (.number, String.ofList (c :: digits)), digits.length)
  else if isLetter c then (some (.identifier, String.ofList [c]), 0)
  else if operatorChars.contains c then (some (.operator, String.ofList [c]), 0)
  else if c = '_' then (some (.subscript, String.ofList [c]), 0)
  else (none, 0)

/-- The tokens of a text that begins at offset `start`. -/
def tokenizeFrom (start : Int) : List Char → List Token
  | [] => []
  | c :: rest =>
    let (token, more) := piece c rest
    let stop := start + 1 + more
    let after := tokenizeFrom stop (rest.drop more)
    match token with
    | some (kind, text) => ⟨kind, text, start, stop⟩ :: after
    | none => after
termination_by cs => cs.length
decreasing_by simp only [List.length_drop, List.length_cons]; omega

/-- The tokens of a text. -/
def tokenize (text : List Char) : List Token := tokenizeFrom 0 text

end UnitCheck.Markup
