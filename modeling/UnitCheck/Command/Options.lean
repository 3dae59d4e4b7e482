import UnitCheck.Text.Similar

/-! # Options on a command line

An option is a word that begins with two hyphens, or a letter behind a single hyphen, where several
letters may stand in one word. An option that takes a value has it behind `=` in the same word, or else in
the next word, whatever that is; a letter stands for an option without value. The word `--` ends the
options, and a lone hyphen is no option. Where words may be mixed, options are found behind other words
too; where not, they end at the first other word. -/

namespace UnitCheck.Command

/-- An option that a command has. -/
structure OptionSpec where
  name : String
  letter : Option Char
  takesValue : Bool
deriving DecidableEq

/-- Why the words of a command line cannot be taken apart. -/
inductive OptionFault where
  | unknown (name : String) (close : List String)
  | valueMissing (name : String)
  | valueUnexpected (name : String)
deriving DecidableEq

/-- The options among the words of a command line, with their values, and the other words. -/
structure Words where
  options : List (String × String)
  others : List String
deriving DecidableEq

namespace Words

/-- Whether an option is there. -/
def has (w : Words) (name : String) : Bool := w.options.any fun o => o.1 = name

/-- The values of an option, in order. -/
def valuesOf (w : Words) (name : String) : List String :=
  (w.options.filter fun o => o.1 = name).map Prod.snd

/-- Puts options before the others. -/
def addOptions (os : List (String × String)) (w : Words) : Words := { w with options := os ++ w.options }

/-- Puts a word that is no option before the others. -/
def addOther (word : String) (w : Words) : Words := { w with others := word :: w.others }

end Words

/-- The options of the letters in a word. -/
def letterOptions (specs : List OptionSpec) : List Char → Except OptionFault (List (String × String))
  | [] => .ok []
  | c :: rest =>
    match specs.find? fun s => s.letter = some c with
    | none => .error (.unknown (String.ofList ['-', c]) [])
    | some s => (letterOptions specs rest).map ((s.name, "") :: ·)

/-- A word before its first `=`, and what is behind that. -/
def splitAssignment (cs : List Char) : List Char × Option (List Char) :=
  match cs.dropWhile (· ≠ '=') with
  | [] => (cs, none)
  | _ :: value => (cs.takeWhile (· ≠ '='), some value)

/-- Takes the words of a command line apart. -/
def takeApart (specs : List OptionSpec) (mixed : Bool) : List String → Except OptionFault Words
  | [] => .ok ⟨[], []⟩
  | word :: rest =>
    match word.toList with
    | ['-', '-'] => .ok ⟨[], rest⟩
    | '-' :: c :: letters =>
      let (name, value) := splitAssignment word.toList
      let name := String.ofList name
      match specs.find? fun s => s.name = name with
      | some s =>
        match s.takesValue, value with
        | true, some v => (takeApart specs mixed rest).map (·.addOptions [(name, String.ofList v)])
        | true, none =>
          match rest with
          | [] => .error (.valueMissing name)
          | v :: rest => (takeApart specs mixed rest).map (·.addOptions [(name, v)])
        | false, some _ => .error (.valueUnexpected name)
        | false, none => (takeApart specs mixed rest).map (·.addOptions [(name, "")])
      | none =>
        if c = '-' then .error (.unknown name (Text.closeWords name (specs.map (·.name))))
        else
          match letterOptions specs (c :: letters) with
          | .error f => .error f
          | .ok os => (takeApart specs mixed rest).map (·.addOptions os)
    | _ => if mixed then (takeApart specs mixed rest).map (·.addOther word) else .ok ⟨[], word :: rest⟩

end UnitCheck.Command
