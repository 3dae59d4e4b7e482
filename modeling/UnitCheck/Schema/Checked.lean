import UnitCheck.Equation.Batch
import UnitCheck.Json.Value

/-! # Checked documents

A JSON value is read into a record field by field. Every field is read, and all that is wrong is
reported, each issue with the path from the whole document to the value that it is about. A field may
have two names, of which the first counts if both are there. -/

namespace UnitCheck.Schema

/-- A step on the path to a value. -/
inductive Step where
  | name (s : String)
  | index (n : Nat)
deriving DecidableEq

/-- What is wrong with a value. -/
inductive Problem where
  | missing
  | notString
  | emptyString
  | notList
  | notDictionary
  | notRecord (type : String)
  | duplicateId (d : DuplicateId)
deriving DecidableEq

namespace Problem

/-- The name of a kind of problem. -/
def kind : Problem → String
  | missing => "missing"
  | notString => "string_type"
  | emptyString => "string_too_short"
  | notList => "list_type"
  | notDictionary => "dict_type"
  | notRecord _ => "model_type"
  | duplicateId _ => "value_error"

/-- The wording of a problem. -/
def message : Problem → String
  | missing => "Field required"
  | notString => "Input should be a valid string"
  | emptyString => "String should have at least 1 character"
  | notList => "Input should be a valid list"
  | notDictionary => "Input should be a valid dictionary"
  | notRecord type => "Input should be a valid dictionary or instance of " ++ type
  | duplicateId d => "Value error, " ++ d.message

end Problem

/-- A problem and the path to where it is. -/
structure Issue where
  path : List Step
  problem : Problem
deriving DecidableEq

/-- A value that was read, or all that is wrong with it. -/
abbrev Checked (α : Type) := Except (List Issue) α

variable {α β : Type}

/-- A problem with the value at hand. -/
def refuse (p : Problem) : Checked α := .error [⟨[], p⟩]

/-- What was read one step further on. -/
def inside (s : Step) (r : Checked α) : Checked α :=
  r.mapError fun issues => issues.map fun i => { i with path := s :: i.path }

/-- Two readings, with the issues of both. -/
def both (a : Checked α) (b : Checked β) : Checked (α × β) :=
  match a, b with
  | .ok x, .ok y => .ok (x, y)
  | .ok _, .error f => .error f
  | .error e, .ok _ => .error e
  | .error e, .error f => .error (e ++ f)

/-- A list of readings, with the issues of all. -/
def each : List (Checked α) → Checked (List α)
  | [] => .ok []
  | r :: rest => (both r (each rest)).map fun (x, xs) => x :: xs

/-- Reads a string. -/
def string : Json → Checked String
  | .string s => .ok s
  | _ => refuse .notString

/-- Reads a string with a character in it. -/
def nonemptyString : Json → Checked { s : String // s ≠ "" }
  | .string s => if h : s = "" then refuse .emptyString else .ok ⟨s, h⟩
  | _ => refuse .notString

/-- Reads a string or `null`. -/
def optionalString : Json → Checked (Option String)
  | .null => .ok none
  | j => (string j).map some

/-- Reads items, the first of which has the index `index`. -/
def items (read : Json → Checked α) (index : Nat) : List Json → List (Checked α)
  | [] => []
  | j :: rest => inside (.index index) (read j) :: items read (index + 1) rest

/-- Reads a list. -/
def list (read : Json → Checked α) : Json → Checked (List α)
  | .array js => each (items read 0 js)
  | _ => refuse .notList

/-- Reads a table, whose keys may be any. -/
def table (read : Json → Checked α) : Json → Checked (List (String × α))
  | .object members => each (members.map fun (k, j) => (inside (.name k) (read j)).map (k, ·))
  | _ => refuse .notDictionary

/-- The members of an object. -/
abbrev Members := List (String × Json)

/-- Reads a record of a type from the members of an object. -/
def record (type : String) (read : Members → Checked α) : Json → Checked α
  | .object members => read members
  | _ => refuse (.notRecord type)

/-- The member under the first of some names that there is one under. -/
def member? (members : Members) (names : List String) : Option (String × Json) :=
  names.findSome? fun n => (members.lookup n).map (n, ·)

/-- Reads a field that must be there. If it is not, the first of its names is reported. -/
def required (names : List String) (read : Json → Checked α) (members : Members) : Checked α :=
  match member? members names with
  | some (n, j) => inside (.name n) (read j)
  | none => .error [⟨(names.head?.map Step.name).toList, .missing⟩]

/-- Reads a field that has a value even if it is not there. -/
def defaulted (names : List String) (value : α) (read : Json → Checked α) (members : Members) :
    Checked α :=
  match member? members names with
  | some (n, j) => inside (.name n) (read j)
  | none => .ok value

end UnitCheck.Schema
