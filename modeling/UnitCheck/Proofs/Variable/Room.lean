import UnitCheck.Project.Report
import UnitCheck.Proofs.Units.Stack

/-! # Declarations and the stack

On a stack with room for all of their units, declarations have the analysis that they have without an end of the
stack, and a project has the same report. One unit that is too deep leaves neither. -/

namespace UnitCheck

namespace Declaration

/-- There is no room for the declared unit. -/
def TooDeep (room : Nat) (d : Declaration) : Prop := Units.TooDeep room d.unitText.toList

theorem fits_iff {room : Nat} {d : Declaration} : d.fits room = true ↔ ¬d.TooDeep room := Units.fits_iff

theorem all_fits_iff {room : Nat} {ds : List Declaration} :
    ds.all (·.fits room) = true ↔ ∀ d ∈ ds, ¬d.TooDeep room := by
  simp only [List.all_eq_true, fits_iff]

end Declaration

namespace Analysis
variable {room : Nat} {ds : List Declaration}

theorem foldlM_fits (a : Analysis) :
    ds.foldlM (fun a d => if d.fits room then some (a.add d) else none) a =
      if ds.all (·.fits room) then some (ds.foldl add a) else none := by
  induction ds generalizing a with
  | nil => rfl
  | cons d ds ih =>
    rw [List.foldlM_cons, List.all_cons]
    cases hd : d.fits room with
    | false => rfl
    | true => exact ih (a.add d)

theorem on?_of_fits (h : ∀ d ∈ ds, ¬d.TooDeep room) : on? room ds = some (of ds) := by
  rw [on?, foldlM_fits, if_pos (Declaration.all_fits_iff.mpr h)]
  rfl

theorem on?_of_tooDeep (h : ∃ d ∈ ds, d.TooDeep room) : on? room ds = none := by
  obtain ⟨d, hd, hdeep⟩ := h
  rw [on?, foldlM_fits, if_neg fun hall => Declaration.all_fits_iff.mp hall d hd hdeep]

end Analysis

namespace Project
variable {room : Nat} {p : Project}

theorem checkOn_of_fits (limit : Markup.Limit) (h : ∀ d ∈ p.declarations, ¬d.TooDeep room) :
    p.checkOn room limit = (p.check limit).mapError .duplicateId := by
  rw [checkOn, Analysis.on?_of_fits h]
  dsimp only
  rw [check, scope]
  cases Verdicts.of ⟨(Analysis.of p.declarations).declared, limit⟩ p.plainEquations <;> rfl

theorem checkOn_of_tooDeep (limit : Markup.Limit) (h : ∃ d ∈ p.declarations, d.TooDeep room) :
    p.checkOn room limit = .error .stackExhausted := by
  rw [checkOn, Analysis.on?_of_tooDeep h]

theorem check_of_checkOn {limit : Markup.Limit} {r : Report} (h : p.checkOn room limit = .ok r) :
    p.check limit = .ok r := by
  by_cases hfits : ∀ d ∈ p.declarations, ¬d.TooDeep room
  · rw [checkOn_of_fits limit hfits] at h
    exact mapError_eq_ok.mp h
  · rw [checkOn_of_tooDeep limit (by simpa using hfits)] at h
    cases h

end Project

end UnitCheck
