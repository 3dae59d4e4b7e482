import UnitCheck.Json.Parser
import UnitCheck.Log.Level
import UnitCheck.Text.Control

/-! # What a command leaves behind

A command writes lines on its output and on its error output, where the lines of the log stand among its
own, and ends with an exit code: 0, 1 if what it was asked about is not right, or 2 if the command line is
not. What it writes keeps its control sequences only on a terminal; the log keeps them everywhere. -/

namespace UnitCheck.Command

/-- A line on the error output. -/
inductive ErrorLine where
  | message (text : String)
  | log (text : String)
deriving DecidableEq

/-- What a command leaves behind. -/
structure Result where
  exit : Nat
  output : List String
  errors : List ErrorLine
deriving DecidableEq

/-- The lines that a log of a level keeps. -/
def logLines (level : Log.Level) (lines : List Log.Line) : List ErrorLine :=
  (Log.Line.kept level lines).map .log

/-- A text as it is written on a stream. -/
def written (terminal : Bool) (text : String) : String := if terminal then text else Text.plain text

/-- A line as it is written on the error output. -/
def ErrorLine.written (terminal : Bool) : ErrorLine → String
  | message text => Command.written terminal text
  | log text => text

namespace Result

/-- The lines written on the output. -/
def outputLines (terminal : Bool) (r : Result) : List String := r.output.map (written terminal)

/-- The lines written on the error output. -/
def errorLines (terminal : Bool) (r : Result) : List String := r.errors.map (·.written terminal)

end Result

/-- Why a command breaks off. What it has written by then is no result. -/
inductive Breakdown where
  | nullInPath
  | document (e : Json.Excess)
  | stackExhausted
deriving DecidableEq

/-- The wording of a breakdown. -/
def Breakdown.message : Breakdown → String
  | nullInPath => "embedded null byte"
  | document e => e.message
  | stackExhausted => "maximum recursion depth exceeded"

end UnitCheck.Command
