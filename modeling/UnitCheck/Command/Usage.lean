import UnitCheck.Command.Options
import UnitCheck.Text.Quoted

/-! # The commands and their usage

The four commands with their options, arguments and help texts, and the faults in a command line. -/

namespace UnitCheck.Command

/-- The commands. -/
inductive Subcommand where
  | units
  | expr
  | check
  | dims
deriving DecidableEq, Repr

/-- The option for help. -/
def helpOption : OptionSpec := ⟨"--help", none, false⟩

/-- The options in front of the command. -/
def commonOptions : List OptionSpec := [⟨"--verbose", some 'v', false⟩, helpOption]

namespace Subcommand

/-- The commands in alphabetical order. -/
def all : List Subcommand := [check, dims, expr, units]

/-- The word for a command. -/
def name : Subcommand → String
  | units => "units"
  | expr => "expr"
  | check => "check"
  | dims => "dims"

/-- The command of a word. -/
def ofName? (s : String) : Option Subcommand := all.find? fun c => c.name = s

/-- What the argument of a command is called. -/
def argument : Subcommand → String
  | units => "EXPRESSION"
  | expr => "LATEX"
  | check => "PROJECT_PATH"
  | dims => "UNIT_TEXTS..."

/-- The options of a command. -/
def options : Subcommand → List OptionSpec
  | units | dims => [helpOption]
  | expr => [⟨"--var", none, true⟩, helpOption]
  | check => [⟨"--strict", none, false⟩, helpOption]

/-- What a command does. -/
def summary : Subcommand → String
  | units => "Parse a unit EXPRESSION such as kg*m/s^2."
  | expr => "Infer the dimension of a markup expression LATEX."
  | check => "Check every equation in the project JSON at PROJECT_PATH."
  | dims => "Print the canonical dimension string of each UNIT_TEXT."

/-- The lines about the options of a command. -/
def optionLines : Subcommand → List String
  | units | dims => ["  --help  Show this message and exit."]
  | expr =>
    ["  --var SYMBOL=UNIT  Declare a variable, e.g. --var 'm=kg'. Repeatable.",
     "  --help             Show this message and exit."]
  | check =>
    ["  --strict  Exit non-zero when any equation is not good.",
     "  --help    Show this message and exit."]

end Subcommand

/-- What a command line begins with, up to a command or without one. -/
def commandPath : Option Subcommand → String
  | none => "physgraph"
  | some c => "physgraph " ++ c.name

/-- How a command line goes on behind its beginning. -/
def pattern : Option Subcommand → String
  | none => "[OPTIONS] COMMAND [ARGS]..."
  | some c => "[OPTIONS] " ++ c.argument

/-- How a command is used. -/
def usageLine (c : Option Subcommand) : String := "Usage: " ++ commandPath c ++ " " ++ pattern c

/-- The help text of a command, or the one about all of them, by lines. -/
def helpLines : Option Subcommand → List String
  | none =>
    [usageLine none, "", "  physgraph dimensional analysis tools.", "", "Options:",
     "  -v, --verbose  Enable debug logging.", "  --help         Show this message and exit.", "",
     "Commands:"] ++
    Subcommand.all.map fun c =>
      "  " ++ c.name ++ String.ofList (List.replicate (7 - c.name.length) ' ') ++ c.summary
  | some c => [usageLine (some c), "", "  " ++ c.summary, "", "Options:"] ++ c.optionLines

/-- What is wrong with a command line. -/
inductive UsageFault where
  | option (f : OptionFault)
  | missingCommand
  | unknownCommand (name : String) (close : List String)
  | missingArgument (name : String)
  | extraArguments (words : List String)
  | noFile (path : String)
  | isDirectory (path : String)
  | variableWithoutUnit (value : String)
  | variableWithoutSymbol (value : String)
deriving DecidableEq

/-- A message with the words that may have been meant behind it. -/
def suggestion (message : String) : List String → String
  | [] => message
  | [w] => message ++ " Did you mean " ++ Text.quote w ++ "?"
  | ws => message ++ " (Did you mean one of: " ++ ", ".intercalate (ws.map Text.quote) ++ "?)"

/-- The wording of a fault among the options. -/
def OptionFault.message : OptionFault → String
  | unknown name close =>
    suggestion ("No such option " ++ Text.quote name ++ ".") close
  | valueMissing name => "Option " ++ Text.quote name ++ " requires an argument."
  | valueUnexpected name => "Option " ++ Text.quote name ++ " does not take a value."

namespace UsageFault

/-- The wording of a fault. -/
def message : UsageFault → String
  | option f => f.message
  | missingCommand => "Missing command."
  | unknownCommand name close =>
    suggestion ("No such command " ++ Text.quote name ++ ".") close
  | missingArgument name => "Missing argument '" ++ name ++ "'."
  | extraArguments [word] => "Got unexpected extra argument (" ++ word ++ ")"
  | extraArguments words => "Got unexpected extra arguments (" ++ " ".intercalate words ++ ")"
  | noFile path => "Invalid value for 'PROJECT_PATH': File " ++ Text.quote path ++ " does not exist."
  | isDirectory path => "Invalid value for 'PROJECT_PATH': File " ++ Text.quote path ++ " is a directory."
  | variableWithoutUnit value =>
    "Invalid value for --var: expected SYMBOL=UNIT, got " ++ Text.quote value
  | variableWithoutSymbol value => "Invalid value for --var: empty symbol in " ++ Text.quote value

/-- Whether the usage is shown above a fault. It is not where only the value of an option is at fault. -/
def showsUsage : UsageFault → Bool
  | option (.valueMissing _) | option (.valueUnexpected _) => false
  | _ => true

/-- A fault in the command line of a command, by lines. -/
def lines (c : Option Subcommand) (f : UsageFault) : List String :=
  (if f.showsUsage then
    [usageLine c, "Try '" ++ commandPath c ++ " --help' for help.", ""]
  else []) ++ ["Error: " ++ f.message]

end UsageFault

end UnitCheck.Command
