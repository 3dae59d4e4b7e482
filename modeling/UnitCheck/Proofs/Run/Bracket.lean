import UnitCheck.Proofs.Project.Report
import UnitCheck.Proofs.Variable.Declared

/-! # The run of one check

A check binds an id, and puts back what was in force before when it ends, in failure as well. A project has
no fault that could make its check fail, so the same is said of drafts, of which nothing was made sure. The
line about a batch is written while the id is bound, and only if the check gets that far. -/

namespace UnitCheck

open Markup (Limit usageOf)

/-! ### Drafts -/

/-- A project of which nothing was made sure: pairs of a symbol and a unit, and equations. -/
structure Draft where
  pairs : List (String × String)
  equations : List Equation

namespace Draft

/-- What makes a check fail. -/
inductive Fault where
  | emptySymbol
  | duplicateId (d : DuplicateId)
deriving DecidableEq

/-- Checks a draft. The symbols are looked at first. -/
def check (limit : Limit) (d : Draft) : Except Fault Report :=
  match Declaration.ofPairs? d.pairs with
  | none => .error .emptySymbol
  | some declarations =>
    let analysis := Analysis.of declarations
    ((Verdicts.of ⟨analysis.declared, limit⟩ d.equations).mapError .duplicateId).map fun verdicts =>
      ⟨verdicts, analysis.diagnostics, usageOf d.equations⟩

end Draft

/-- The draft that a project is. -/
def Project.draft (p : Project) : Draft := ⟨p.declarations.map fun d => (d.symbol, d.unitText), p.plainEquations⟩

theorem Project.check_draft (limit : Limit) (p : Project) :
    p.draft.check limit = (p.check limit).mapError .duplicateId := by
  rw [Draft.check, draft, Declaration.ofPairs?_map]
  unfold check scope
  dsimp only
  cases Verdicts.of ⟨(Analysis.of p.declarations).declared, limit⟩ p.plainEquations <;> rfl

/-! ### Log lines -/

namespace Table
variable {κ α : Type} [DecidableEq κ] {k : κ} {v : α}

theorem entries_foldl_cons {es : List (κ × α)} (h : k ∉ es.map Prod.fst) {t u : Table κ α}
    (ht : t.entries = (k, v) :: u.entries) :
    (es.foldl (fun t e => t.insert e.1 e.2) t).entries =
      (k, v) :: (es.foldl (fun t e => t.insert e.1 e.2) u).entries := by
  induction es generalizing t u with
  | nil => exact ht
  | cons e es ih =>
    obtain ⟨hne, hes⟩ := not_or.mp (List.mem_cons.not.mp h)
    refine ih hes ?_
    have hinsert : (t.insert e.1 e.2).entries = insertEntry e.1 e.2 t.entries := rfl
    rw [hinsert, ht, insertEntry, if_neg hne]
    rfl

theorem entries_ofList_cons {es : List (κ × α)} (h : k ∉ es.map Prod.fst) :
    (ofList ((k, v) :: es)).entries = (k, v) :: (ofList es).entries :=
  entries_foldl_cons h rfl

end Table

namespace Run

open Context

/-- The line about an event that a run with this id, or with none, writes. -/
def lineOf (id : Option String) (message : String) (extra : List (String × Json)) : Log.Line :=
  ⟨.info, message ++ " " ++ (Json.object (("run_id", .ofString? id) :: (Table.ofList extra).entries)).display⟩

/-- If nothing else is said under its name, a line bears the id that is in force. -/
theorem event_eq_lineOf (c : Context) (message : String) {extra : List (String × Json)}
    (h : "run_id" ∉ extra.map Prod.fst) : c.event message extra = lineOf c.current message extra := by
  rw [event, eventText, lineOf, Table.entries_ofList_cons h]

theorem batch_eq_lineOf (c : Context) (r : Report) :
    c.event "dimcheck.batch" (batchExtra r) = lineOf c.current "dimcheck.batch" (batchExtra r) := by
  refine event_eq_lineOf c _ ?_
  simp [batchExtra]

/-! ### Binding and putting back -/

namespace Context

/-- Only tokens that were given have been used. -/
def Sound (c : Context) : Prop := ∀ n ∈ c.spent, n < c.issued

variable {c : Context}

theorem sound_initial : initial.Sound := nofun

theorem Sound.bind (h : c.Sound) (id : Option String) : (c.bind id).2.Sound := by
  cases id with
  | none => exact h
  | some id => exact fun n hn => Nat.lt_succ_of_lt (h n hn)

/-- The context behind a binding that was undone at once. -/
def touched (c : Context) : Context := { c with issued := c.issued + 1, spent := c.issued :: c.spent }

theorem Sound.touched (h : c.Sound) : c.touched.Sound := by
  intro n hn
  rcases List.mem_cons.mp hn with rfl | hn
  · exact Nat.lt_succ_self _
  · exact Nat.lt_succ_of_lt (h n hn)

/-- The token of a new binding is unused, so it can put back what was in force. -/
theorem Sound.reset_bind (h : c.Sound) (id : String) :
    (c.bind (some id)).2.reset (c.bind (some id)).1 = .ok c.touched := by
  have hfresh : c.issued ∉ c.spent := fun hmem => Nat.lt_irrefl _ (h _ hmem)
  exact if_neg hfresh

/-- The id of a run is the one in force, if there is one in it, or else the fresh one. -/
theorem runId_cases (c : Context) (fresh : String) :
    (c.current = some (c.runId fresh) ∧ c.runId fresh ≠ "") ∨
      ((c.current = none ∨ c.current = some "") ∧ c.runId fresh = fresh) := by
  rw [runId]
  cases hc : c.current with
  | none => exact Or.inr ⟨Or.inl rfl, rfl⟩
  | some id =>
    by_cases hid : id = ""
    · exact Or.inr ⟨Or.inr (by rw [hid]), if_pos hid⟩
    · have hrun : (if id = "" then fresh else id) = id := if_neg hid
      exact Or.inl ⟨congrArg some hrun.symm, fun h => hid (hrun.symm.trans h)⟩

end Context

/-! ### Checks -/

/-- The run around a check with this result: the lines that it logs, and the context behind it. -/
def around {ε : Type} (c : Context) (fresh : String) (result : Except ε Report) : List Log.Line × Context :=
  let (token, inner) := c.bind (some (c.runId fresh))
  let events := match result with
    | .ok r => [inner.event "dimcheck.batch" (batchExtra r)]
    | .error _ => []
  match inner.reset token with
  | .ok outer => (events, outer)
  | .error _ => (events, inner)

/-- What a check of a draft leaves. -/
structure DraftOutcome where
  result : Except Draft.Fault Report
  events : List Log.Line
  context : Context

/-- Checks a draft as a run of its own, or as part of the one in force. -/
def checkDraft (c : Context) (fresh : String) (limit : Limit) (d : Draft) : DraftOutcome :=
  let run := around c fresh (d.check limit)
  ⟨d.check limit, run.1, run.2⟩

section
variable {c : Context} {ε δ : Type}

theorem around_eq (h : c.Sound) (fresh : String) (result : Except ε Report) :
    around c fresh result =
      (match result with
        | .ok r => [lineOf (some (c.runId fresh)) "dimcheck.batch" (batchExtra r)]
        | .error _ => [], c.touched) := by
  have hreset := h.reset_bind (c.runId fresh)
  unfold around
  dsimp only
  rw [hreset]
  cases result with
  | error _ => rfl
  | ok r => exact congrArg (fun line => ([line], c.touched)) (batch_eq_lineOf _ r)

theorem around_mapError (fresh : String) (result : Except ε Report) (f : ε → δ) :
    around c fresh (result.mapError f) = around c fresh result := by
  cases result <;> rfl

/-- The check of a project is that of its draft. -/
theorem checkDraft_draft (c : Context) (fresh : String) (limit : Limit) (p : Project) :
    checkDraft c fresh limit p.draft =
      ⟨(checkProject c fresh limit p).result.mapError .duplicateId, (checkProject c fresh limit p).events,
        (checkProject c fresh limit p).context⟩ := by
  have hproject : checkProject c fresh limit p =
      ⟨p.check limit, (around c fresh (p.check limit)).1, (around c fresh (p.check limit)).2⟩ := by
    unfold checkProject around
    dsimp only
    cases (c.bind (some (c.runId fresh))).2.reset (c.bind (some (c.runId fresh))).1 <;>
      cases p.check limit <;> rfl
  rw [hproject, checkDraft, Project.check_draft, around_mapError]

/-- What a check leaves if it was a run of its own, or part of the one in force: the id is the same as before, and only
    a check that does not fail writes a line, which bears the id in force or, if there is none in it, the fresh one. -/
structure Contained (c : Context) (fresh : String) (result : Except ε Report) (events : List Log.Line)
    (context : Context) : Prop where
  current : context.current = c.current
  quiet : ∀ e, result = .error e → events = []
  batch : ∀ r, result = .ok r → ∃ id, events = [lineOf (some id) "dimcheck.batch" (batchExtra r)] ∧
    ((c.current = some id ∧ id ≠ "") ∨ ((c.current = none ∨ c.current = some "") ∧ id = fresh))

theorem contained_around (h : c.Sound) (fresh : String) (result : Except ε Report) :
    Contained c fresh result (around c fresh result).1 (around c fresh result).2 := by
  rw [around_eq h]
  refine ⟨rfl, ?_, ?_⟩
  · rintro e rfl
    rfl
  · rintro r rfl
    exact ⟨c.runId fresh, rfl, runId_cases c fresh⟩

theorem contained_checkDraft (h : c.Sound) (fresh : String) (limit : Limit) (d : Draft) :
    Contained c fresh (checkDraft c fresh limit d).result (checkDraft c fresh limit d).events
      (checkDraft c fresh limit d).context :=
  contained_around h fresh (d.check limit)

theorem contained_checkProject (h : c.Sound) (fresh : String) (limit : Limit) (p : Project) :
    (∃ r, (checkProject c fresh limit p).result = .ok r) ∧
      Contained c fresh (checkProject c fresh limit p).result (checkProject c fresh limit p).events
        (checkProject c fresh limit p).context := by
  obtain ⟨r, hr, -⟩ := Project.exists_report limit p
  have hresult : (checkProject c fresh limit p).result = .ok r := (result_checkProject c fresh limit p).trans hr
  have hdraft := contained_checkDraft h fresh limit p.draft
  rw [checkDraft_draft, hresult] at hdraft
  rw [hresult]
  refine ⟨⟨r, rfl⟩, hdraft.current, nofun, ?_⟩
  rintro r' ⟨⟩
  exact hdraft.batch r rfl

end

end Run

end UnitCheck
