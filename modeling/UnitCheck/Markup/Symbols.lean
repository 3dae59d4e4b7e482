import UnitCheck.Markup.Token
import UnitCheck.Equation.Basic
import UnitCheck.Table

/-! # Symbols and where they are used

The symbols of a markup text are its letters and its commands, except those that name an operator or wrap
a symbol. A subscript is part of the symbol that it stands at, so what it holds is passed over; a group
that never closes runs to the end of the text. -/

namespace UnitCheck.Markup

/-- Commands that are no symbols. -/
def nonSymbolCommands : List String :=
  ["\\frac", "\\sqrt", "\\nabla", "\\partial", "\\sin", "\\cos", "\\tan", "\\log", "\\ln", "\\exp", "\\sum",
   "\\int", "\\mathrm", "\\mathbf", "\\vec", "\\hat", "\\bar", "\\dot", "\\ddot"]

/-- Whether the token names a symbol. -/
def Token.isSymbol (t : Token) : Bool :=
  (t.kind = .identifier || t.kind = .command) && !nonSymbolCommands.contains t.text

/-- The tokens behind the brace that closes `depth` open groups. -/
def dropGroups : Nat → List Token → List Token
  | 0, tokens => tokens
  | _, [] => []
  | depth + 1, t :: rest =>
    if t.opensGroup then dropGroups (depth + 2) rest
    else if t.closesGroup then dropGroups depth rest
    else dropGroups (depth + 1) rest

/-- The tokens behind the content of a subscript. -/
def dropSubscript : List Token → List Token
  | [] => []
  | t :: rest => if t.opensGroup then dropGroups 1 rest else rest

theorem length_dropGroups_le (depth : Nat) (tokens : List Token) :
    (dropGroups depth tokens).length ≤ tokens.length := by
  induction tokens generalizing depth with
  | nil => cases depth <;> simp [dropGroups]
  | cons t rest ih =>
    cases depth with
    | zero => simp [dropGroups]
    | succ depth =>
      simp only [dropGroups, List.length_cons]
      split
      · exact Nat.le_succ_of_le (ih _)
      · split <;> exact Nat.le_succ_of_le (ih _)

theorem length_dropSubscript_le (tokens : List Token) : (dropSubscript tokens).length ≤ tokens.length := by
  cases tokens with
  | nil => simp [dropSubscript]
  | cons t rest =>
    simp only [dropSubscript, List.length_cons]
    split
    · exact Nat.le_succ_of_le (length_dropGroups_le 1 rest)
    · exact Nat.le_succ _

/-- Every naming of a symbol outside subscripts, in order. -/
def mentions : List Token → List String
  | [] => []
  | t :: rest =>
    if t.kind = .subscript then mentions (dropSubscript rest)
    else if t.isSymbol then t.text :: mentions rest
    else mentions rest
termination_by tokens => tokens.length
decreasing_by
  · exact Nat.lt_succ_of_le (length_dropSubscript_le rest)
  · simp
  · simp

/-- The symbols of a text, each once, in the order of their first mention. -/
def symbols (text : List Char) : List String := (mentions (tokenize text)).eraseDups

/-- Adds an equation to those that use each of its symbols. -/
def addUsage (usage : Table String (List String)) (e : Equation) : Table String (List String) :=
  (symbols e.text.toList).foldl (fun u s => u.update s fun ids => ids.getD [] ++ [e.id]) usage

/-- The ids of the equations that use each symbol. -/
def usageOf (equations : List Equation) : Table String (List String) := equations.foldl addUsage ∅

end UnitCheck.Markup
