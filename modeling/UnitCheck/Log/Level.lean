/-! # Log levels

A line of the log has a level, and a log that is set to a level keeps the lines of that level and above. -/

namespace UnitCheck.Log

/-- The levels of a log. -/
inductive Level where
  | notSet
  | debug
  | info
  | warning
  | error
  | critical
deriving DecidableEq, Repr

namespace Level

/-- The rank of a level. -/
def rank : Level → Nat
  | notSet => 0
  | debug => 10
  | info => 20
  | warning => 30
  | error => 40
  | critical => 50

/-- The name of a level. -/
def name : Level → String
  | notSet => "NOTSET"
  | debug => "DEBUG"
  | info => "INFO"
  | warning => "WARNING"
  | error => "ERROR"
  | critical => "CRITICAL"

/-- The names that a level can be set by. -/
def names : List (String × Level) :=
  [("NOTSET", notSet), ("DEBUG", debug), ("INFO", info), ("WARN", warning), ("WARNING", warning),
   ("ERROR", error), ("CRITICAL", critical), ("FATAL", critical)]

/-- A letter in upper case, if its upper case is an ASCII letter: besides the small ASCII letters these
    are the dotless i and the long s. -/
def upperChar (c : Char) : Char :=
  if c = '\u0131' then 'I' else if c = '\u017f' then 'S' else c.toUpper

/-- The level of a name in any case. -/
def ofName? (s : String) : Option Level := names.lookup (String.ofList (s.toList.map upperChar))

end Level

/-- A line of the log. -/
structure Line where
  level : Level
  text : String
deriving DecidableEq

namespace Line

/-- The line as it is written. -/
def render (l : Line) : String := "[" ++ l.level.name ++ "] " ++ l.text

/-- The written form of the lines that a log of a level keeps. -/
def kept (level : Level) (lines : List Line) : List String :=
  (lines.filter fun l => level.rank ≤ l.level.rank).map render

end Line

end UnitCheck.Log
