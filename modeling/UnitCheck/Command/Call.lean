import UnitCheck.Command.Usage

/-! # Calls

A command line read as a call of a command, without looking at any file. -/

namespace UnitCheck.Command

/-- A command with its options and arguments. -/
structure Call where
  verbose : Bool
  command : Subcommand
  words : Words
deriving DecidableEq

/-- Why a command line is no call. -/
inductive NoCall where
  | nothing
  | help (c : Option Subcommand)
  | fault (c : Option Subcommand) (f : UsageFault)
deriving DecidableEq

/-- Takes the words behind the word for a command apart. -/
def Call.ofWords (verbose : Bool) (c : Subcommand) (rest : List String) : Except NoCall Call :=
  match takeApart c.options true rest with
  | .error f => .error (.fault (some c) (.option f))
  | .ok words => if words.has "--help" then .error (.help (some c)) else .ok ⟨verbose, c, words⟩

/-- What to say of words of which the first is no command. It is taken for an option if it looks like one. -/
def noCommand (word : String) (rest : List String) : NoCall :=
  match takeApart commonOptions false (word :: rest) with
  | .error f => .fault none (.option f)
  | .ok words =>
    if words.has "--help" then .help none
    else .fault none (.unknownCommand word (Text.closeWords word (Subcommand.all.map Subcommand.name)))

/-- Reads a command line. -/
def Call.of (line : List String) : Except NoCall Call :=
  if line.isEmpty then .error .nothing
  else
    match takeApart commonOptions false line with
    | .error f => .error (.fault none (.option f))
    | .ok common =>
      if common.has "--help" then .error (.help none)
      else
        match common.others with
        | [] => .error (.fault none .missingCommand)
        | word :: rest =>
          match Subcommand.ofName? word with
          | some c => Call.ofWords (common.has "--verbose") c rest
          | none => .error (noCommand word rest)

/-- The file that a command line has read. -/
def pathOf? (line : List String) : Option String :=
  match Call.of line with
  | .ok call => if call.command = .check then call.words.others.head? else none
  | .error _ => none

end UnitCheck.Command
