import UnitCheck.Proofs.Project.Recheck
import UnitCheck.Proofs.Service.Model
import UnitCheck.Proofs.Variable.Declared
import UnitCheck.Proofs.Variable.Room

/-! # Which calls are answered

A function that is called with what a body of its schema holds returns an answer: whatever the texts in it are, what
is wrong with them is part of the answer. Two things could still go wrong where the stack has room. Equations of one
id make no batch, but a project has none. A pair without a symbol makes no declaration, and this one does happen: the
schema of quantities refuses an empty symbol, the one of the table of units takes any key.

What status a response has is up to the framework that calls the functions. Of that one only two things are relied
on: an answer that fits its model is sent with status 200, and an error that escapes is one of the service. -/

namespace UnitCheck.Service

/-- The framework that the service is built on: the status of the response to a body that is posted to an endpoint,
    where the functions of the endpoints are given. -/
structure Framework where
  post : (Call → Except Escape Json) → Endpoint → Json → Nat

/-- What the framework is documented to do with a body that fits the schema of its endpoint. -/
structure Framework.Documented (F : Framework) : Prop where
  returned : ∀ {function e body call j}, e.read body = .ok call → function call = .ok j → e.Model j →
    F.post function e body = 200
  escaped : ∀ {function e body call x}, e.read body = .ok call → function call = .error x →
    F.post function e body = 500

namespace Call

/-- The unit texts that are read for a call. -/
def units : Call → List String
  | parseUnits _ => []
  | validateUnits units => units.map Prod.snd
  | checkExpression _ declarations | checkEquation _ declarations => declarations.map (·.unitText)
  | checkProject p => p.declarations.map (·.unitText)

/-- The stack has room for every unit of a call. -/
def HasRoom (room : Nat) (call : Call) : Prop := ∀ text ∈ call.units, ¬Units.TooDeep room text.toList

/-- The call is one to check a table of units in which one has no symbol. -/
def LacksSymbol : Call → Prop
  | validateUnits units => "" ∈ units.map Prod.fst
  | _ => False

variable {room : Nat} {limit : Markup.Limit} {call : Call}

theorem not_tooDeep_of_map {ds : List Declaration}
    (h : ∀ text ∈ ds.map (·.unitText), ¬Units.TooDeep room text.toList) : ∀ d ∈ ds, ¬d.TooDeep room :=
  fun _ hd => h _ (List.mem_map_of_mem hd)

theorem analyse_eq {ds : List Declaration} (h : ∀ text ∈ ds.map (·.unitText), ¬Units.TooDeep room text.toList) :
    analyse room ds = .ok (Analysis.of ds) := by
  rw [analyse, Analysis.on?_of_fits (not_tooDeep_of_map h)]
  rfl

/-- The table of units in the order in which it is taken has the same symbols and texts. -/
theorem perm_sorted (units : List (String × String)) : (units.mergeSort fun a b => a.1 ≤ b.1).Perm units :=
  List.mergeSort_perm units _

theorem answer_of_lacksSymbol (h : call.LacksSymbol) : call.answer room limit = .error .emptySymbol := by
  cases call with
  | validateUnits units =>
    have hnone : Declaration.ofPairs? (units.mergeSort fun a b => a.1 ≤ b.1) = none :=
      Declaration.ofPairs?_eq_none.mpr (((perm_sorted units).map Prod.fst).mem_iff.mpr h)
    rw [answer, hnone]
    rfl
  | parseUnits | checkExpression | checkEquation | checkProject => exact h.elim

theorem exists_answer (hroom : call.HasRoom room) (hs : ¬call.LacksSymbol) : ∃ j, call.answer room limit = .ok j := by
  cases call with
  | parseUnits text => exact ⟨_, rfl⟩
  | validateUnits units =>
    rcases hds : Declaration.ofPairs? (units.mergeSort fun a b => a.1 ≤ b.1) with _ | ds
    · have hmem := Declaration.ofPairs?_eq_none.mp hds
      exact absurd (((perm_sorted units).map Prod.fst).mem_iff.mp hmem) hs
    · have hmap := Declaration.map_of_ofPairs? hds
      have hfits : ∀ text ∈ ds.map (·.unitText), ¬Units.TooDeep room text.toList := by
        intro text htext
        obtain ⟨d, hd, rfl⟩ := List.mem_map.mp htext
        have hpair : (d.symbol, d.unitText) ∈ units := (perm_sorted units).mem_iff.mp (hmap ▸ List.mem_map_of_mem hd)
        exact hroom _ (List.mem_map.mpr ⟨_, hpair, rfl⟩)
      rw [answer, hds]
      exact ⟨_, bind_eq_ok.mpr ⟨ds, rfl, bind_eq_ok.mpr ⟨_, analyse_eq hfits, rfl⟩⟩⟩
  | checkExpression text ds => exact ⟨_, bind_eq_ok.mpr ⟨_, analyse_eq hroom, rfl⟩⟩
  | checkEquation text ds => exact ⟨_, bind_eq_ok.mpr ⟨_, analyse_eq hroom, rfl⟩⟩
  | checkProject p =>
    obtain ⟨r, hr, -, -⟩ := Project.exists_check limit p
    have hreport : p.checkOn room limit = .ok r := by
      rw [Project.checkOn_of_fits limit (not_tooDeep_of_map hroom), hr]
      rfl
    exact ⟨_, bind_eq_ok.mpr ⟨r, hreport, rfl⟩⟩

end Call

/-- A function that is called with what a body of its schema holds, and has room for the units in it, returns and is
    answered with status 200. Only one to check a unit without a symbol does not: an error escapes from that one, and
    the answer is an error of the service. -/
theorem status_post (F : Framework) (hF : F.Documented) (room : Nat) (limit : Markup.Limit) (e : Endpoint) (body : Json)
    (call : Call) (hread : e.read body = .ok call) (hroom : call.HasRoom room) :
    ((∃ j, call.answer room limit = .ok j) ↔ ¬call.LacksSymbol) ∧
      (F.post (Call.answer room limit) e body = 200 ↔ ¬call.LacksSymbol) ∧
      (F.post (Call.answer room limit) e body = 500 ↔ call.LacksSymbol) := by
  by_cases hs : call.LacksSymbol
  · have hcall : call.answer room limit = .error .emptySymbol := Call.answer_of_lacksSymbol hs
    rw [hF.escaped hread hcall, hcall]
    simp [hs]
  · obtain ⟨j, hj⟩ : ∃ j, call.answer room limit = .ok j := Call.exists_answer hroom hs
    have hmodel : e.Model j := Endpoint.endpoint_of_read hread ▸ Call.answer_model hj
    rw [hF.returned hread hj hmodel, hj]
    simp [hs]

/-- A framework that does what is documented and has no other statuses but the one for a body that does not fit. -/
def standIn : Framework where
  post function e body :=
    match e.read body with
    | .error _ => 422
    | .ok call =>
      match function call with
      | .ok _ => 200
      | .error _ => 500

theorem standIn_documented : standIn.Documented where
  returned := by
    intro function e body call j hread hcall _
    simp only [standIn, hread, hcall]
  escaped := by
    intro function e body call x hread hcall
    simp only [standIn, hread, hcall]

/-- A body to check the units of a table. -/
def unitsBody (units : List (String × String)) : Json :=
  .object [("units", .object (units.map fun u => (u.1, .string u.2)))]

/-- A unit that is not known is part of the answer. -/
theorem status_post_unknown :
    Endpoint.validateUnits.read (unitsBody [("v", "m/s"), ("w", "furlong")]) =
        .ok (.validateUnits [("v", "m/s"), ("w", "furlong")]) ∧
      (Call.validateUnits [("v", "m/s"), ("w", "furlong")]).HasRoom Units.usualRoom ∧
      standIn.post (Call.answer Units.usualRoom .standard) .validateUnits
        (unitsBody [("v", "m/s"), ("w", "furlong")]) = 200 := by
  have hread : Endpoint.validateUnits.read (unitsBody [("v", "m/s"), ("w", "furlong")]) =
      .ok (.validateUnits [("v", "m/s"), ("w", "furlong")]) := rfl
  have hroom : (Call.validateUnits [("v", "m/s"), ("w", "furlong")]).HasRoom Units.usualRoom := by
    intro text htext
    refine Units.not_tooDeep_of_count ?_
    simp only [Call.units, List.map_cons, List.map_nil, List.mem_cons, List.not_mem_nil, or_false] at htext
    rcases htext with rfl | rfl <;> decide
  have hs : "" ∉ [("v", "m/s"), ("w", "furlong")].map Prod.fst := by decide
  exact ⟨hread, hroom, (status_post standIn standIn_documented _ _ _ _ _ hread hroom).2.1.mpr hs⟩

/-- A unit without a symbol fits the schema of the table of units, but it is no declaration, so the function does not
    return. -/
theorem status_post_unnamed :
    Endpoint.validateUnits.read (unitsBody [("", "m")]) = .ok (.validateUnits [("", "m")]) ∧
      (Call.validateUnits [("", "m")]).HasRoom Units.usualRoom ∧
      (Call.validateUnits [("", "m")]).answer Units.usualRoom .standard = .error .emptySymbol ∧
      standIn.post (Call.answer Units.usualRoom .standard) .validateUnits (unitsBody [("", "m")]) = 500 := by
  have hread : Endpoint.validateUnits.read (unitsBody [("", "m")]) = .ok (.validateUnits [("", "m")]) := rfl
  have hcall : (Call.validateUnits [("", "m")]).answer Units.usualRoom .standard = .error .emptySymbol :=
    Call.answer_of_lacksSymbol (show "" ∈ [("", "m")].map Prod.fst by decide)
  have hroom : (Call.validateUnits [("", "m")]).HasRoom Units.usualRoom := by
    intro text htext
    obtain rfl : text = "m" := List.mem_singleton.mp htext
    exact Units.not_tooDeep_of_count (by decide)
  exact ⟨hread, hroom, hcall, standIn_documented.escaped hread hcall⟩

end UnitCheck.Service
