import Mathlib.Data.List.Forall2
import UnitCheck.Proofs.Outcome
import UnitCheck.Service.Endpoint

/-! # Models of answers

The service declares for each endpoint what its answers look like: which fields they have, and what stands in a
field. The function of an endpoint gives no answers but these. -/

namespace UnitCheck.Service

section Model
variable (P : Json → Prop)

def IsBool (j : Json) : Prop := ∃ b, j = .bool b

def IsString (j : Json) : Prop := ∃ s, j = .string s

def IsInteger (j : Json) : Prop := ∃ n, j = .integer n

/-- `null`, or what the model says. -/
def IsOptional (j : Json) : Prop := j = .null ∨ P j

/-- An array of what the model says. -/
def IsList (j : Json) : Prop := ∃ items, j = .array items ∧ ∀ item ∈ items, P item

/-- An object of what the model says, under any keys, none of them twice. -/
def IsTable (j : Json) : Prop :=
  ∃ members, j = .object members ∧ (members.map Prod.fst).Nodup ∧ ∀ m ∈ members, P m.2

/-- An object with the fields of a record, in their order. -/
def IsRecord (fields : List (String × (Json → Prop))) (j : Json) : Prop :=
  ∃ members, j = .object members ∧ List.Forall₂ (fun f m => m.1 = f.1 ∧ f.2 m.2) fields members

end Model

def IsVerdict : Json → Prop :=
  IsRecord [("status", fun j => j = .string "good" ∨ j = .string "bad" ∨ j = .string "unknown"),
    ("message", IsString), ("reason", IsOptional IsString), ("position", IsOptional IsInteger),
    ("lhs", IsOptional IsString), ("rhs", IsOptional IsString)]

def IsDiagnostic : Json → Prop :=
  IsRecord [("symbol", IsString), ("code", IsString), ("message", IsString), ("hint", IsOptional IsString)]

/-- The model of the answers of an endpoint. -/
def Endpoint.Model : Endpoint → Json → Prop
  | parseUnits => IsRecord [("units", IsTable IsString), ("warnings", IsList IsString)]
  | validateUnits =>
    IsRecord [("ok", IsBool), ("dimensions", IsTable IsString), ("canonical", IsTable IsString),
      ("diagnostics", IsList IsDiagnostic)]
  | checkExpression =>
    IsRecord [("ok", IsBool), ("dimension", IsOptional IsString), ("reason", IsOptional IsString),
      ("message", IsOptional IsString), ("position", IsOptional IsInteger)]
  | checkEquation => IsVerdict
  | checkProject =>
    IsRecord [("results", IsTable IsVerdict), ("variable_diagnostics", IsList (IsTable (IsOptional IsString))),
      ("usage", IsTable (IsList IsString))]

/-! ### Answers fit their models -/

section Fields
variable {P : Json → Prop}

theorem isString (s : String) : IsString (.string s) := ⟨s, rfl⟩

theorem isOptional (j : Json) (h : P j) : IsOptional P j := Or.inr h

theorem isOptional_ofString? (s : Option String) : IsOptional IsString (.ofString? s) := by
  cases s with
  | none => exact Or.inl rfl
  | some s => exact Or.inr ⟨s, rfl⟩

theorem isOptional_ofInt? (n : Option Int) : IsOptional IsInteger (.ofInt? n) := by
  cases n with
  | none => exact Or.inl rfl
  | some n => exact Or.inr ⟨n, rfl⟩

theorem isList_map {α : Type} {f : α → Json} (h : ∀ a, P (f a)) (as : List α) : IsList P (.array (as.map f)) := by
  refine ⟨_, rfl, ?_⟩
  intro item hitem
  obtain ⟨a, -, rfl⟩ := List.mem_map.mp hitem
  exact h a

theorem isTable_entries (t : Table String Json) (h : ∀ e ∈ t.entries, P e.2) : IsTable P (.object t.entries) :=
  ⟨_, rfl, t.nodup, h⟩

theorem isTable_map {α : Type} {f : α → Json} (h : ∀ a, P (f a)) (t : Table String α) :
    IsTable P (.object (t.map f).entries) := by
  refine isTable_entries _ ?_
  rintro e he
  rw [Table.entries_map] at he
  obtain ⟨x, -, rfl⟩ := List.mem_map.mp he
  exact h x.2

theorem isTable_ofTable (t : Table String String) : IsTable IsString (.ofTable t) := isTable_map isString t

theorem isList_strings (ss : List String) : IsList IsString (.strings ss) := isList_map isString ss

end Fields

theorem isVerdict (v : Verdict) : IsVerdict v.toJson := by
  have hstatus : Json.string v.status.name = .string "good" ∨ Json.string v.status.name = .string "bad" ∨
      Json.string v.status.name = .string "unknown" := by
    cases v.status
    · exact Or.inl rfl
    · exact Or.inr (Or.inl rfl)
    · exact Or.inr (Or.inr rfl)
  exact ⟨_, rfl, .cons ⟨rfl, hstatus⟩ <| .cons ⟨rfl, isString _⟩ <| .cons ⟨rfl, isOptional_ofString? _⟩ <|
    .cons ⟨rfl, isOptional_ofInt? _⟩ <| .cons ⟨rfl, isOptional_ofString? _⟩ <|
    .cons ⟨rfl, isOptional_ofString? _⟩ .nil⟩

theorem isDiagnostic (d : Diagnostic) : IsDiagnostic d.toJson :=
  ⟨_, rfl, .cons ⟨rfl, isString _⟩ <| .cons ⟨rfl, isString _⟩ <| .cons ⟨rfl, isString _⟩ <|
    .cons ⟨rfl, isOptional _ (isString _)⟩ .nil⟩

theorem isTable_diagnostic (d : Diagnostic) : IsTable (IsOptional IsString) d.toJson := by
  refine ⟨_, rfl, by simp, ?_⟩
  intro m hm
  simp only [List.mem_cons, List.not_mem_nil, or_false] at hm
  rcases hm with rfl | rfl | rfl | rfl <;> exact isOptional _ (isString _)

theorem declarationsAnswer_model (text : String) : Endpoint.parseUnits.Model (declarationsAnswer text) :=
  ⟨_, rfl, .cons ⟨rfl, isTable_ofTable _⟩ <| .cons ⟨rfl, isList_map (fun _ => isString _) _⟩ .nil⟩

theorem unitsAnswer_model (a : Analysis) : Endpoint.validateUnits.Model (unitsAnswer a) :=
  ⟨_, rfl, .cons ⟨rfl, _, rfl⟩ <| .cons ⟨rfl, isTable_ofTable _⟩ <| .cons ⟨rfl, isTable_ofTable _⟩ <|
    .cons ⟨rfl, isList_map isDiagnostic _⟩ .nil⟩

theorem expressionAnswer_model (scope : Markup.Scope) (text : String) :
    Endpoint.checkExpression.Model (expressionAnswer scope text) := by
  unfold expressionAnswer
  cases Markup.parse scope text.toList with
  | ok d =>
    exact ⟨_, rfl, .cons ⟨rfl, _, rfl⟩ <| .cons ⟨rfl, isOptional _ (isString _)⟩ <| .cons ⟨rfl, Or.inl rfl⟩ <|
      .cons ⟨rfl, Or.inl rfl⟩ <| .cons ⟨rfl, Or.inl rfl⟩ .nil⟩
  | error f =>
    exact ⟨_, rfl, .cons ⟨rfl, _, rfl⟩ <| .cons ⟨rfl, Or.inl rfl⟩ <| .cons ⟨rfl, isOptional _ (isString _)⟩ <|
      .cons ⟨rfl, isOptional _ (isString _)⟩ <| .cons ⟨rfl, Or.inr ⟨_, rfl⟩⟩ .nil⟩

theorem report_model (r : Report) : Endpoint.checkProject.Model r.toJson :=
  ⟨_, rfl, .cons ⟨rfl, isTable_map isVerdict _⟩ <| .cons ⟨rfl, isList_map isTable_diagnostic _⟩ <|
    .cons ⟨rfl, isTable_map isList_strings _⟩ .nil⟩

/-- The endpoint whose function it is. -/
def Call.endpoint : Call → Endpoint
  | parseUnits _ => .parseUnits
  | validateUnits _ => .validateUnits
  | checkExpression _ _ => .checkExpression
  | checkEquation _ _ => .checkEquation
  | checkProject _ => .checkProject

theorem Endpoint.endpoint_of_read {e : Endpoint} {body : Json} {call : Call} (h : e.read body = .ok call) :
    call.endpoint = e := by
  cases e <;> obtain ⟨x, -, rfl⟩ := map_eq_ok.mp h <;> rfl

/-- What a function returns fits the model of its endpoint. -/
theorem Call.answer_model {room : Nat} {limit : Markup.Limit} {call : Call} {j : Json}
    (h : call.answer room limit = .ok j) : call.endpoint.Model j := by
  cases call with
  | parseUnits text =>
    cases h
    exact declarationsAnswer_model text
  | validateUnits units =>
    obtain ⟨declarations, -, h⟩ := bind_eq_ok.mp h
    obtain ⟨a, -, h⟩ := bind_eq_ok.mp h
    cases h
    exact unitsAnswer_model a
  | checkExpression text declarations =>
    obtain ⟨a, -, h⟩ := bind_eq_ok.mp h
    cases h
    exact expressionAnswer_model _ text
  | checkEquation text declarations =>
    obtain ⟨a, -, h⟩ := bind_eq_ok.mp h
    cases h
    exact isVerdict _
  | checkProject p =>
    obtain ⟨r, -, h⟩ := bind_eq_ok.mp h
    cases h
    exact report_model r

end UnitCheck.Service
