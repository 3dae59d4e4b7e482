import UnitCheck.Project.Basic
import UnitCheck.Schema.Checked

/-! # Project documents

A project as a JSON document: an object with the lists `vars` and `eqs`, either of which may be missing.
The symbol of a quantity is under `symbol` or `latex`, its unit under `unitText` or `units`, and the text
of an equation under `text` or `latex`. A project is written under the second of these names. -/

namespace UnitCheck

open Schema

/-- Reads a quantity. -/
def Quantity.ofJson : Json → Checked Quantity :=
  record "ProjectVariable" fun ms =>
    (both (required ["symbol", "latex"] nonemptyString ms)
      (both (defaulted ["unitText", "units"] "" string ms)
        (both (defaulted ["name"] none optionalString ms)
          (defaulted ["description"] none optionalString ms)))).map
      fun (symbol, unitText, name, description) => ⟨⟨symbol.1, unitText, symbol.2⟩, name, description⟩

/-- Writes a quantity. -/
def Quantity.toJson (q : Quantity) : Json :=
  .object [("latex", .string q.symbol), ("units", .string q.unitText), ("name", .ofString? q.name),
    ("description", .ofString? q.description)]

/-- Reads an equation. -/
def ProjectEquation.ofJson : Json → Checked ProjectEquation :=
  record "ProjectEquation" fun ms =>
    (both (required ["id"] string ms)
      (both (required ["text", "latex"] string ms)
        (both (defaulted ["title"] none optionalString ms)
          (defaulted ["tags"] [] (list string) ms)))).map
      fun (id, text, title, tags) => ⟨⟨id, text⟩, title, tags⟩

/-- Writes an equation. -/
def ProjectEquation.toJson (e : ProjectEquation) : Json :=
  .object [("id", .string e.id), ("latex", .string e.text), ("title", .ofString? e.title),
    ("tags", .strings e.tags)]

/-- The first string that is among those before it or among `seen`. -/
def firstRepeat? (seen : List String) : List String → Option String
  | [] => none
  | s :: rest => if s ∈ seen then some s else firstRepeat? (s :: seen) rest

theorem nodup_of_firstRepeat? {seen ss : List String} (h : firstRepeat? seen ss = none) :
    ss.Nodup ∧ ∀ s ∈ ss, s ∉ seen := by
  induction ss generalizing seen with
  | nil => simp
  | cons s rest ih =>
    simp only [firstRepeat?] at h
    split at h
    · cases h
    · rename_i hs
      obtain ⟨hn, hr⟩ := ih h
      refine ⟨List.nodup_cons.mpr ⟨fun hm => hr s hm (List.mem_cons_self ..), hn⟩, fun t ht => ?_⟩
      rcases List.mem_cons.mp ht with rfl | ht
      · exact hs
      · exact fun hm => hr t ht (List.mem_cons_of_mem _ hm)

/-- Equations of which no two have one id. -/
abbrev DistinctEquations := { es : List ProjectEquation // (es.map fun e => e.id).Nodup }

/-- Reads a list of equations of which no two have one id. -/
def ProjectEquation.listOfJson (j : Json) : Checked DistinctEquations :=
  match list ProjectEquation.ofJson j with
  | .error issues => .error issues
  | .ok es =>
    match h : firstRepeat? [] (es.map fun e => e.id) with
    | some id => refuse (.duplicateId ⟨id⟩)
    | none => .ok ⟨es, (nodup_of_firstRepeat? h).1⟩

namespace Project

/-- Reads a project. -/
def ofJson : Json → Checked Project :=
  record "Project" fun ms =>
    (both (defaulted ["vars"] [] (list Quantity.ofJson) ms)
      (defaulted ["eqs"] (⟨[], List.nodup_nil⟩ : DistinctEquations) ProjectEquation.listOfJson ms)).map
      fun (quantities, equations) => ⟨quantities, equations.1, equations.2⟩

/-- Writes a project. -/
def toJson (p : Project) : Json :=
  .object [("vars", .array (p.quantities.map Quantity.toJson)),
    ("eqs", .array (p.equations.map ProjectEquation.toJson))]

end Project

end UnitCheck
