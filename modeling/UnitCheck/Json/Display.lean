import UnitCheck.Json.Value

/-! # Values in log lines

A value in a log line is on one line, with its strings in quotation marks and its words capitalised;
`None` stands for the value that is none. -/

namespace UnitCheck.Json

mutual

/-- A value as a log line shows it. -/
def display : Json → String
  | null => "None"
  | bool b => if b then "True" else "False"
  | integer n => toString n
  | real negative size => realText (negative && size != .nan) size
  | string s => Text.quote s
  | array items => "[" ++ ", ".intercalate (displayItems items) ++ "]"
  | object members => "\x7b" ++ ", ".intercalate (displayMembers members) ++ "\x7d"

/-- The items of an array as a log line shows them. -/
def displayItems : List Json → List String
  | [] => []
  | item :: rest => display item :: displayItems rest

/-- The members of an object as a log line shows them. -/
def displayMembers : List (String × Json) → List String
  | [] => []
  | (name, value) :: rest => (Text.quote name ++ ": " ++ display value) :: displayMembers rest

end

end UnitCheck.Json
