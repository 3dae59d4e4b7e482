import UnitCheck.Variable.Basic
import UnitCheck.Text.Lines
import UnitCheck.Text.Quoted

/-! # Declarations in a text

A text of declarations has one on a line, a symbol and a unit with a colon between. A line without text
or with `#` in front says nothing. Behind the colon `#` begins a comment, and commas and semicolons at
the end of the unit are dropped. A line that is no declaration gives a warning that names it. -/

namespace UnitCheck.Declaration

open UnitCheck.Text

/-- Why a line was passed over. -/
inductive LineFault where
  | missingColon (line : String)
  | emptySymbol
  | emptyUnit (symbol : String)
deriving DecidableEq

/-- A line that was passed over, by its number from one. -/
structure Warning where
  line : Nat
  fault : LineFault
deriving DecidableEq

/-- The wording of a warning. -/
def Warning.message (w : Warning) : String :=
  "Line " ++ toString w.line ++ ": " ++
    match w.fault with
    | .missingColon line => "missing ':', ignored: " ++ quote line
    | .emptySymbol => "empty variable symbol."
    | .emptyUnit symbol => "empty unit for " ++ quote symbol ++ "."

/-- What a line says. -/
inductive Line where
  | silent
  | declares (d : Declaration)
  | faulty (f : LineFault)

/-- The unit behind the colon of a declaration, without its comment and its final punctuation. -/
def unitPart (text : List Char) : List Char :=
  dropEnd (fun c => isBlank c || c = ',' || c = ';') (trim (text.takeWhile (· ≠ '#')))

/-- Reads a line. -/
def readLine (raw : List Char) : Line :=
  match trim raw with
  | [] => .silent
  | '#' :: _ => .silent
  | line =>
    match line.dropWhile (· ≠ ':') with
    | [] => .faulty (.missingColon (String.ofList line))
    | _ :: behind =>
      let symbol := String.ofList (trim (line.takeWhile (· ≠ ':')))
      let unitText := String.ofList (unitPart behind)
      if h : symbol = "" then .faulty .emptySymbol
      else if unitText = "" then .faulty (.emptyUnit symbol)
      else .declares ⟨symbol, unitText, h⟩

/-- The declarations of a text and the warnings about its other lines. -/
structure Listing where
  declarations : List Declaration
  warnings : List Warning

/-- Reads lines, the first of which has the number `number`. -/
def readLines (number : Nat) : List (List Char) → Listing
  | [] => ⟨[], []⟩
  | raw :: rest =>
    let after := readLines (number + 1) rest
    match readLine raw with
    | .silent => after
    | .declares d => { after with declarations := d :: after.declarations }
    | .faulty f => { after with warnings := ⟨number, f⟩ :: after.warnings }

/-- Reads a text of declarations. -/
def readText (text : List Char) : Listing := readLines 1 (lines text)

/-- The unit text of each symbol. -/
def Listing.units (l : Listing) : Table String String :=
  Table.ofList (l.declarations.map fun d => (d.symbol, d.unitText))

end UnitCheck.Declaration
