import UnitCheck.Command.Run
import UnitCheck.Proofs.Outcome
import UnitCheck.Proofs.Project.Report
import UnitCheck.Proofs.Variable.Room
import UnitCheck.Service.Endpoint

/-! # Checking a project

A report holds the verdict on each equation that a check of it alone gives, and the command `check` makes
its exit code of them. -/

namespace UnitCheck

namespace Command

/-- The command line is a call of `check` for a file, which holds a project. -/
structure CheckCall (w : World) (line : List String) (call : Call) (path text : String) (p : Project) : Prop where
  read : Call.of line = .ok call
  check : call.command = .check
  argument : call.words.others = [path]
  noNull : path.toList.contains '\x00' = false
  file : w.entry path = .file text
  project : loadProject text = .ok p

section
variable {w : World} {line : List String} {call : Call} {path text : String} {p : Project}

theorem exists_checkLoaded (level : Log.Level) (limit : Markup.Limit) (runId path : String) (strict : Bool)
    (p : Project) :
    ∃ r log, p.check limit = .ok r ∧ checkLoaded level limit runId path strict p = reportResult log strict r := by
  obtain ⟨r, hr, -⟩ := Project.exists_report limit p
  have hresult : (Run.checkProject .initial runId limit p).result = .ok r := (Run.result_checkProject ..).trans hr
  refine ⟨r, ?_⟩
  rw [checkLoaded, hresult]
  exact ⟨_, hr, rfl⟩

theorem CheckCall.fileText_eq (h : CheckCall w line call path text p) :
    fileText w call.words.others = .ok (path, text) := by
  rw [h.argument, fileText, h.noNull, h.file]
  rfl

theorem CheckCall.run_eq (h : CheckCall w line call path text p) :
    run w line = runCheck w.room (if call.verbose then .debug else (Settings.of w.environment).level)
      (Settings.of w.environment).limit w.freshRunId path text (call.words.has "--strict") := by
  rw [run, h.read]
  simp only [Call.run, h.check, h.fileText_eq, ok_bind]
  cases runCheck w.room _ _ _ _ _ _ <;> rfl

theorem CheckCall.exists_run (h : CheckCall w line call path text p)
    (hfits : ∀ d ∈ p.declarations, ¬d.TooDeep w.room) :
    ∃ r log, p.check (Settings.of w.environment).limit = .ok r ∧
      run w line = .ok (reportResult log (call.words.has "--strict") r) := by
  obtain ⟨r, log, hr, hloaded⟩ :=
    exists_checkLoaded (if call.verbose then .debug else (Settings.of w.environment).level)
      (Settings.of w.environment).limit w.freshRunId path (call.words.has "--strict") p
  refine ⟨r, log, hr, ?_⟩
  rw [h.run_eq, runCheck, h.project]
  dsimp only
  rw [if_pos (Declaration.all_fits_iff.mpr hfits), hloaded]

theorem CheckCall.run_of_tooDeep (h : CheckCall w line call path text p)
    (hdeep : ∃ d ∈ p.declarations, d.TooDeep w.room) : run w line = .error .stackExhausted := by
  obtain ⟨d, hd, hdeep⟩ := hdeep
  rw [h.run_eq, runCheck, h.project]
  exact if_neg fun hall => Declaration.all_fits_iff.mp hall d hd hdeep

theorem exit_reportResult {log : List ErrorLine} {strict : Bool} {r : Report} :
    (reportResult log strict r).exit = 0 ↔ (strict = true → r.allGood = true) := by
  cases strict <;> cases h : r.allGood <;> simp [reportResult, h]

end

end Command

/-- Where the stack has room for its units, a project has a report with one verdict for each equation, in their order,
    and it is the one that the equation is given by itself, so other equations make no difference. The exit code of a
    strict check says whether all of them are right. Where there is no room for one of the units, there is neither a
    report nor an exit code. -/
theorem Project.check_singly (p : Project) :
    (∀ room, (∀ d ∈ p.declarations, ¬d.TooDeep room) → ∀ limit, ∃ r, p.checkOn room limit = .ok r ∧
      (∀ c fresh, (Run.checkProject c fresh limit p).result = .ok r) ∧
      r.verdicts.entries = p.equations.map (fun e => (e.id, Verdict.of (p.scope limit) e.text.toList)) ∧
      (∀ e ∈ p.equations, ∃ v, r.verdicts.find? e.id = some v ∧
        ∀ room, (∀ d ∈ p.declarations, ¬d.TooDeep room) →
          (Service.Call.checkEquation e.text p.declarations).answer room limit = .ok v.toJson) ∧
      r.tally.good + r.tally.bad + r.tally.unknown = p.equations.length ∧
      ∀ q room r', Project.checkOn room limit q = .ok r' → q.declarations = p.declarations →
        ∀ e ∈ p.equations, ∀ e' ∈ q.equations, e'.text = e.text → r'.verdicts.find? e'.id = r.verdicts.find? e.id) ∧
    (∀ room, (∃ d ∈ p.declarations, d.TooDeep room) → ∀ limit, p.checkOn room limit = .error .stackExhausted) ∧
    ∀ w line call path text, Command.CheckCall w line call path text p →
      ((∀ d ∈ p.declarations, ¬d.TooDeep w.room) → ∃ result, Command.run w line = .ok result ∧
        (result.exit = 0 ↔ (call.words.has "--strict" = true → ∀ e ∈ p.equations,
          (Verdict.of (p.scope (Settings.of w.environment).limit) e.text.toList).isGood = true))) ∧
      ((∃ d ∈ p.declarations, d.TooDeep w.room) → Command.run w line = .error .stackExhausted) := by
  refine ⟨fun room hfits limit => ?_, fun room hdeep limit => checkOn_of_tooDeep limit hdeep,
    fun w line call path text h => ⟨fun hfits => ?_, fun hdeep => h.run_of_tooDeep hdeep⟩⟩
  · obtain ⟨r, hr, -⟩ := exists_report limit p
    have hon : p.checkOn room limit = .ok r := by
      rw [checkOn_of_fits limit hfits, hr]
      rfl
    refine ⟨r, hon, fun c fresh => (Run.result_checkProject ..).trans hr, entries_of_check hr, ?_, sum_tally hr, ?_⟩
    · intro e he
      refine ⟨_, find?_of_check hr he, fun room hfits => ?_⟩
      rw [Service.Call.answer, Service.analyse, Analysis.on?_of_fits hfits]
      rfl
    · intro q room r' hr' hd e he e' he' htext
      have hscope : q.scope limit = p.scope limit := by rw [scope, scope, hd]
      rw [find?_of_check hr he, find?_of_check (check_of_checkOn hr') he', htext, hscope]
  · obtain ⟨r, log, hr, hrun⟩ := h.exists_run hfits
    refine ⟨_, hrun, ?_⟩
    rw [Command.exit_reportResult, allGood_iff hr]

namespace Command

theorem area_ne_empty : "A" ≠ "" := by decide

theorem side_ne_empty : "x" ≠ "" := by decide

/-- A project with a right equation and a wrong one. -/
def areas : Project where
  quantities := [⟨⟨"A", "m^2", area_ne_empty⟩, none, none⟩, ⟨⟨"x", "m", side_ne_empty⟩, none, none⟩]
  equations := [⟨⟨"right", "A = x x"⟩, none, []⟩, ⟨⟨"wrong", "A = x"⟩, none, []⟩]
  nodup := by decide

/-- The project without its right equation, and with another id for the other one. -/
def lessAreas : Project := { areas with equations := [⟨⟨"only", "A = x"⟩, none, []⟩], nodup := by decide }

def areasText : String :=
  "\x7b\"vars\": [\x7b\"symbol\": \"A\", \"units\": \"m^2\"\x7d, \x7b\"symbol\": \"x\", \"units\": \"m\"\x7d], " ++
    "\"eqs\": [\x7b\"id\": \"right\", \"text\": \"A = x x\"\x7d, \x7b\"id\": \"wrong\", \"text\": \"A = x\"\x7d]\x7d"

def areasWorld : World := ⟨.empty, fun _ => .file areasText, "run", Units.usualRoom⟩

theorem checkCall_areas :
    CheckCall areasWorld ["check", "--strict", "areas.json"] ⟨false, .check, ⟨[("--strict", "")], ["areas.json"]⟩⟩
      "areas.json" areasText areas where
  read := toOption_eq_some.mp (by decide +kernel)
  check := rfl
  argument := rfl
  noNull := by decide
  file := rfl
  project := toOption_eq_some.mp (by decide +kernel)

theorem fits_areas : ∀ d ∈ areas.declarations, ¬d.TooDeep Units.usualRoom := by
  intro d hd
  refine Units.not_tooDeep_of_count ?_
  have hdeclarations : areas.declarations = [⟨"A", "m^2", area_ne_empty⟩, ⟨"x", "m", side_ne_empty⟩] := rfl
  rw [hdeclarations] at hd
  simp only [List.mem_cons, List.not_mem_nil, or_false] at hd
  rcases hd with rfl | rfl <;> decide

theorem check_singly_areas :
    (∃ r r', areas.checkOn Units.usualRoom .standard = .ok r ∧ lessAreas.checkOn Units.usualRoom .standard = .ok r' ∧
      r'.verdicts.find? "only" = r.verdicts.find? "wrong") ∧
    ∃ result, run areasWorld ["check", "--strict", "areas.json"] = .ok result ∧ result.exit ≠ 0 := by
  obtain ⟨hreport, -, hcommand⟩ := areas.check_singly
  refine ⟨?_, ?_⟩
  · obtain ⟨r, hr, -, -, -, -, hother⟩ := hreport _ fits_areas .standard
    obtain ⟨r', hr', -⟩ := lessAreas.check_singly.1 Units.usualRoom fits_areas .standard
    have hwrong : ⟨⟨"wrong", "A = x"⟩, none, []⟩ ∈ areas.equations := by decide
    have honly : ⟨⟨"only", "A = x"⟩, none, []⟩ ∈ lessAreas.equations := by decide
    exact ⟨r, r', hr, hr', hother lessAreas _ r' hr' rfl _ hwrong _ honly rfl⟩
  · obtain ⟨result, hrun, hexit⟩ := (hcommand _ _ _ _ _ checkCall_areas).1 fits_areas
    refine ⟨result, hrun, fun h => ?_⟩
    have hwrong := hexit.mp h rfl ⟨⟨"wrong", "A = x"⟩, none, []⟩ (by decide)
    have hverdict : (Verdict.of (areas.scope (Settings.of areasWorld.environment).limit)
        "A = x".toList).isGood = false := by decide +kernel
    rw [hverdict] at hwrong
    cases hwrong

/-- A quantity whose unit is a metre in three hundred parentheses, and an equation that is right. -/
def wrapped : Project where
  quantities := [⟨⟨"x", String.ofList Units.wrappedMetre, side_ne_empty⟩, none, none⟩]
  equations := [⟨⟨"e", "x = x"⟩, none, []⟩]
  nodup := by decide

/-- There is nothing wrong with the project but how deep its unit nests, and it has no report. -/
theorem check_singly_wrapped :
    Units.parse Units.wrappedMetre = .ok (.ofBase .length) ∧
      wrapped.checkOn Units.usualRoom .standard = .error .stackExhausted := by
  refine ⟨Units.wrappedMetre_tooDeep.1, Project.checkOn_of_tooDeep _ ⟨_, List.mem_singleton_self _, ?_⟩⟩
  rw [Declaration.TooDeep, String.toList_ofList]
  exact Units.wrappedMetre_tooDeep.2

end Command

end UnitCheck
