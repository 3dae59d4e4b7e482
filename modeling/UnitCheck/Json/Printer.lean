import UnitCheck.Json.Value

/-! # Writing JSON

Texts are ASCII: any other character is written by its code in UTF-16, as are the controls without an
escape of their own. A value is written on one line, or with an item on each line and two blanks for
each level. -/

namespace UnitCheck.Json

/-- A code unit as an escape. -/
def unitEscape (n : Nat) : List Char := '\\' :: 'u' :: Text.hexadecimal 4 n

/-- A character of a string. -/
def escapeChar (c : Char) : List Char :=
  let n := c.toNat
  if c = '"' then ['\\', '"']
  else if c = '\\' then ['\\', '\\']
  else if c = '\n' then ['\\', 'n']
  else if c = '\r' then ['\\', 'r']
  else if c = '\t' then ['\\', 't']
  else if n = 0x08 then ['\\', 'b']
  else if n = 0x0c then ['\\', 'f']
  else if 0x20 ≤ n && n ≤ 0x7e then [c]
  else if n < 0x10000 then unitEscape n
  else unitEscape (0xd800 + (n - 0x10000) / 0x400) ++ unitEscape (0xdc00 + (n - 0x10000) % 0x400)

/-- A string in quotes. -/
def stringText (s : String) : String := String.ofList ('"' :: s.toList.flatMap escapeChar ++ ['"'])

/-- The text of a number. JSON has no word for what is not finite; these are the usual ones. -/
def numberText (negative : Bool) : Binary64 → String
  | .nan => "NaN"
  | .infinite s => if negative != s then "-Infinity" else "Infinity"
  | size => realText negative size

mutual

/-- A value on one line. -/
def compact : Json → String
  | null => "null"
  | bool b => if b then "true" else "false"
  | integer n => toString n
  | real negative size => numberText negative size
  | string s => stringText s
  | array items => "[" ++ ", ".intercalate (compactItems items) ++ "]"
  | object members => "\x7b" ++ ", ".intercalate (compactMembers members) ++ "\x7d"

/-- The items of an array, each on one line. -/
def compactItems : List Json → List String
  | [] => []
  | item :: rest => compact item :: compactItems rest

/-- The members of an object, each on one line. -/
def compactMembers : List (String × Json) → List String
  | [] => []
  | (name, value) :: rest => (stringText name ++ ": " ++ compact value) :: compactMembers rest

end

/-- The blanks that begin a line of a level. -/
def indentation (level : Nat) : String := String.ofList (List.replicate (2 * level) ' ')

/-- Pieces between brackets, each on a line of its own one level below. -/
def block (opening closing : String) (level : Nat) (pieces : List String) : String :=
  if pieces.isEmpty then opening ++ closing
  else
    let line := "\n" ++ indentation (level + 1)
    opening ++ line ++ ("," ++ line).intercalate pieces ++ "\n" ++ indentation level ++ closing

mutual

/-- A value with an item on each line, inside `level` others. -/
def indented (level : Nat) : Json → String
  | array items => block "[" "]" level (indentedItems (level + 1) items)
  | object members => block "\x7b" "\x7d" level (indentedMembers (level + 1) members)
  | null => "null"
  | bool b => if b then "true" else "false"
  | integer n => toString n
  | real negative size => numberText negative size
  | string s => stringText s

/-- The items of an array at a level. -/
def indentedItems (level : Nat) : List Json → List String
  | [] => []
  | item :: rest => indented level item :: indentedItems level rest

/-- The members of an object at a level. -/
def indentedMembers (level : Nat) : List (String × Json) → List String
  | [] => []
  | (name, value) :: rest => (stringText name ++ ": " ++ indented level value) :: indentedMembers level rest

end

/-- A value with an item on each line. -/
def pretty (value : Json) : String := indented 0 value

end UnitCheck.Json
