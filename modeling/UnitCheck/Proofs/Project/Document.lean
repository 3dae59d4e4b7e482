import UnitCheck.Project.Document
import UnitCheck.Proofs.Outcome
import UnitCheck.Proofs.Project.Report

/-! # Projects written as documents

A document may give a field under either of two names, as `null`, or not at all, and hold members that no
field reads. Whatever it was read from, a project is written under one name for each field and with every
field there, and what is written is read as the same project. -/

namespace UnitCheck

namespace Schema

variable {α : Type} {read : Json → Checked α} {write : α → Json}

theorem each_ok (xs : List α) : each (xs.map .ok) = .ok xs := by
  induction xs with
  | nil => rfl
  | cons x xs ih =>
    rw [List.map_cons, each, ih]
    rfl

theorem items_written (h : ∀ x, read (write x) = .ok x) (index : Nat) (xs : List α) :
    items read index (xs.map write) = xs.map .ok := by
  induction xs generalizing index with
  | nil => rfl
  | cons x xs ih =>
    rw [List.map_cons, items, h, ih]
    rfl

theorem list_written (h : ∀ x, read (write x) = .ok x) (xs : List α) :
    list read (.array (xs.map write)) = .ok xs := by
  rw [list, items_written h, each_ok]

theorem optionalString_written (s : Option String) : optionalString (.ofString? s) = .ok s := by
  cases s <;> rfl

theorem strings_written (ss : List String) : list string (.strings ss) = .ok ss := by
  have hread : ∀ s, string (.string s) = .ok s := fun _ => rfl
  exact list_written hread ss

section
variable {members : Members} {names : List String} {name : String} {j : Json} {x : α}

theorem required_found (h : member? members names = some (name, j)) (hr : read j = .ok x) :
    required names read members = .ok x := by
  rw [required, h]
  exact congrArg (inside (.name name)) hr

theorem defaulted_found (h : member? members names = some (name, j)) (hr : read j = .ok x) (value : α) :
    defaulted names value read members = .ok x := by
  rw [defaulted, h]
  exact congrArg (inside (.name name)) hr

end

end Schema

open Schema

theorem Quantity.ofJson_toJson (q : Quantity) : Quantity.ofJson q.toJson = .ok q := by
  have hsymbol : nonemptyString (.string q.symbol) = .ok ⟨q.symbol, q.symbol_ne⟩ := dif_neg q.symbol_ne
  rw [toJson, Quantity.ofJson, record, required_found rfl hsymbol,
    defaulted_found (x := q.unitText) rfl rfl, defaulted_found rfl (optionalString_written q.name),
    defaulted_found rfl (optionalString_written q.description)]
  rfl

namespace ProjectEquation

theorem ofJson_toJson (e : ProjectEquation) : ProjectEquation.ofJson e.toJson = .ok e := by
  rw [toJson, ProjectEquation.ofJson, record, required_found (x := e.id) rfl rfl, required_found (x := e.text) rfl rfl,
    defaulted_found rfl (optionalString_written e.title), defaulted_found rfl (strings_written e.tags)]
  rfl

theorem firstRepeat?_eq_none {seen ss : List String} (hn : ss.Nodup) (hs : ∀ s ∈ ss, s ∉ seen) :
    firstRepeat? seen ss = none := by
  induction ss generalizing seen with
  | nil => rfl
  | cons s ss ih =>
    obtain ⟨hfresh, hn⟩ := List.nodup_cons.mp hn
    obtain ⟨hseen, hss⟩ := List.forall_mem_cons.mp hs
    rw [firstRepeat?, if_neg hseen]
    refine ih hn fun u hu hmem => ?_
    rcases List.mem_cons.mp hmem with rfl | hmem
    · exact hfresh hu
    · exact hss u hu hmem

theorem listOfJson_written (es : DistinctEquations) : listOfJson (.array (es.1.map toJson)) = .ok es := by
  have hnone : firstRepeat? [] (es.1.map fun e => e.id) = none := firstRepeat?_eq_none es.2 (by simp)
  unfold listOfJson
  rw [list_written ofJson_toJson]
  dsimp only
  split
  · rename_i id hsome
    cases hnone.symm.trans hsome
  · rfl

end ProjectEquation

namespace Project

theorem ofJson_toJson (p : Project) : ofJson p.toJson = .ok p := by
  rw [toJson, ofJson, record, defaulted_found rfl (list_written Quantity.ofJson_toJson p.quantities),
    defaulted_found rfl (ProjectEquation.listOfJson_written ⟨p.equations, p.nodup⟩)]
  rfl

/-- A project that a document was read as is written as a document that is read as the same project, and checks of both
    find the same, whatever runs they are part of. -/
theorem ofJson_written {document : Json} {p : Project} (h : ofJson document = .ok p) :
    ∃ again, ofJson p.toJson = .ok again ∧ ofJson document = .ok again ∧
      ∀ c c' fresh fresh' limit, ∃ r, (Run.checkProject c fresh limit p).result = .ok r ∧
        (Run.checkProject c' fresh' limit again).result = .ok r := by
  refine ⟨p, ofJson_toJson p, h, fun c c' fresh fresh' limit => ?_⟩
  obtain ⟨r, hr, -⟩ := exists_report limit p
  exact ⟨r, (Run.result_checkProject c fresh limit p).trans hr, (Run.result_checkProject c' fresh' limit p).trans hr⟩

/-- A document with fields under both names, under one, as `null` and left out, and with members of no field. -/
def variedDocument : Json :=
  .object [("note", .null),
    ("vars", .array [
      .object [("latex", .string "y"), ("symbol", .string "x"), ("unitText", .string "m"), ("units", .string "s"),
        ("name", .null), ("colour", .integer 3)],
      .object [("latex", .string "t"), ("description", .string "time")]]),
    ("eqs", .array [
      .object [("id", .string "a"), ("latex", .string "x = t"), ("text", .string "x = x"),
        ("tags", .strings ["kept", "kept"])],
      .object [("title", .null), ("latex", .string "t = x"), ("id", .string "b")]])]

theorem ofJson_written_varied :
    ∃ p again, ofJson variedDocument = .ok p ∧ ofJson p.toJson = .ok again ∧ ofJson variedDocument = .ok again ∧
      p.declarations.map (fun d => (d.symbol, d.unitText)) = [("x", "m"), ("t", "")] ∧
      p.plainEquations = [⟨"a", "x = x"⟩, ⟨"b", "t = x"⟩] ∧
      ∃ r, (Run.checkProject .initial "first" .standard p).result = .ok r ∧
        (Run.checkProject .initial "second" .standard again).result = .ok r := by
  have hread : ofJson variedDocument = .ok
      ⟨[⟨⟨"x", "m", by decide⟩, none, none⟩, ⟨⟨"t", "", by decide⟩, none, some "time"⟩],
        [⟨⟨"a", "x = x"⟩, none, ["kept", "kept"]⟩, ⟨⟨"b", "t = x"⟩, none, []⟩], by decide⟩ :=
    toOption_eq_some.mp (by decide +kernel)
  obtain ⟨again, hagain, hsame, hreports⟩ := ofJson_written hread
  exact ⟨_, again, hread, hagain, hsame, rfl, rfl, hreports .initial .initial "first" "second" .standard⟩

end Project

end UnitCheck
