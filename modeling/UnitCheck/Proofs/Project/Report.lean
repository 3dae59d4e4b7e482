import UnitCheck.Proofs.Equation.Batch
import UnitCheck.Run.Context

/-! # What a report says

Every project has a report. Its verdicts are those on the equations, each checked by itself. -/

namespace UnitCheck

namespace Project

variable {limit : Markup.Limit} {p : Project} {r : Report}

theorem exists_report (limit : Markup.Limit) (p : Project) :
    ∃ r, p.check limit = .ok r ∧ r.usage = Markup.usageOf p.plainEquations ∧
      r.verdicts.entries = p.equations.map fun e => (e.id, Verdict.of (p.scope limit) e.text.toList) := by
  have hn : (p.plainEquations.map (·.id)).Nodup := by
    have := p.nodup
    simpa [plainEquations, List.map_map, Function.comp_def] using this
  obtain ⟨u, hu, hentries⟩ := Verdicts.exists_of_nodup (p.scope limit) hn
  rw [plainEquations, List.map_map] at hentries
  exact ⟨⟨u, _, _⟩, by rw [check, hu]; rfl, rfl, hentries⟩

section
variable (h : p.check limit = .ok r)
include h

theorem entries_of_check :
    r.verdicts.entries = p.equations.map fun e => (e.id, Verdict.of (p.scope limit) e.text.toList) := by
  obtain ⟨r', hr', -, hentries⟩ := exists_report limit p
  cases h.symm.trans hr'
  exact hentries

theorem find?_of_check {e : ProjectEquation} (he : e ∈ p.equations) :
    r.verdicts.find? e.id = some (Verdict.of (p.scope limit) e.text.toList) := by
  refine Table.find?_of_mem ?_
  rw [entries_of_check h]
  exact List.mem_map.mpr ⟨e, he, rfl⟩

theorem values_of_check :
    r.verdicts.values = p.equations.map fun e => Verdict.of (p.scope limit) e.text.toList := by
  rw [Table.values, entries_of_check h, List.map_map]
  rfl

theorem sum_tally : r.tally.good + r.tally.bad + r.tally.unknown = p.equations.length := by
  rw [Report.tally, Tally.sum_of, values_of_check h, List.length_map]

theorem allGood_iff :
    r.allGood = true ↔ ∀ e ∈ p.equations, (Verdict.of (p.scope limit) e.text.toList).isGood = true := by
  have hsize : r.verdicts.size = r.verdicts.values.length := (List.length_map _).symm
  rw [Report.allGood, decide_eq_true_iff, hsize, Report.tally, Tally.good_eq_length, values_of_check h,
    List.forall_mem_map]

end

theorem exists_check (limit : Markup.Limit) (p : Project) :
    ∃ r, p.check limit = .ok r ∧ r.usage = Markup.usageOf p.plainEquations ∧
      ∀ e ∈ p.equations, r.verdicts.find? e.id = some (Verdict.of (p.scope limit) e.text.toList) := by
  obtain ⟨r, hr, husage, -⟩ := exists_report limit p
  exact ⟨r, hr, husage, fun e he => find?_of_check hr he⟩

end Project

/-- The id that a run is given makes no difference to its result. -/
theorem Run.result_checkProject (c : Run.Context) (fresh : String) (limit : Markup.Limit) (p : Project) :
    (Run.checkProject c fresh limit p).result = p.check limit := by
  unfold Run.checkProject
  dsimp only
  split <;> rfl

end UnitCheck
