import UnitCheck.Markup.Token

/-! # Denied commands

Commands of analysis and of transcendental functions are refused. A command is refused when it begins
with a denied one, so `\int` stands also for `\intop` and `\integral`. They can be looked for in a text,
each for itself, or among its tokens. -/

namespace UnitCheck.Markup

/-- The denied commands. -/
def deniedCommands : List String :=
  ["\\partial", "\\nabla", "\\int", "\\sum", "\\sin", "\\cos", "\\tan", "\\log", "\\ln", "\\exp"]

/-- The denied command that a text begins with. -/
def deniedAtStart? (text : List Char) : Option String :=
  deniedCommands.find? fun name => name.toList.isPrefixOf text

/-- The offset at which a word first stands in a text. -/
def offset? (word : List Char) : List Char → Option Nat
  | [] => if word.isEmpty then some 0 else none
  | c :: rest => if word.isPrefixOf (c :: rest) then some 0 else (offset? word rest).map (· + 1)

/-- The denied commands that stand in a text, each with the offset at which it first does. -/
def hits (text : List Char) : List (Nat × String) :=
  deniedCommands.filterMap fun name => (offset? name.toList text).map (·, name)

/-- The hit that comes first; of two at one offset, the one whose name does. -/
def earlier (a b : Nat × String) : Nat × String :=
  if b.1 < a.1 ∨ (b.1 = a.1 ∧ b.2 < a.2) then b else a

/-- The earliest of some hits. -/
def earliest? : List (Nat × String) → Option (Nat × String)
  | [] => none
  | hit :: more => some (more.foldl earlier hit)

/-- The first denied command in a text, and where it is. -/
def findDenied? (text : List Char) : Option (String × Int) :=
  (earliest? (hits text)).map fun (offset, name) => (name, offset)

/-- The denied command that a token is refused for. -/
def Token.denied? (t : Token) : Option String :=
  if t.kind = .command then deniedAtStart? t.text.toList else none

/-- The first refused command among tokens, and where its token begins. -/
def firstDenied? (tokens : List Token) : Option (String × Int) :=
  tokens.findSome? fun t => t.denied?.map (·, t.start)

end UnitCheck.Markup
