import UnitCheck.Proofs.Dimension.Laws
import UnitCheck.Proofs.Equation.InPlace
import UnitCheck.Proofs.Outcome

/-! # Equations with their sides exchanged

A side has the same dimension wherever in the equation it stands, or has none in either place, since only
the place of a failure counts from the beginning of the equation. To be near is symmetric. So exchanging
the sides keeps a verdict and exchanges the dimensions in it. When neither side can be read, each equation
reports the side that comes first in it, so the failures may differ. -/

namespace UnitCheck

open Markup Text

theorem Side.dimension_eq_ok {scope : Scope} {offset : Nat} {piece : List Char} {d : Dimension} :
    (ofPiece offset piece).dimension scope = .ok d ↔ parse scope (trim piece) = .ok d := by
  rw [dimension, mapError_eq_ok, ofPiece]

namespace Verdict

section
variable {scope : Scope} {left right : List Char}

theorem of_readable {a b : Dimension} (hl : '=' ∉ left) (hr : '=' ∉ right) (ha : parse scope (trim left) = .ok a)
    (hb : parse scope (trim right) = .ok b) :
    of scope (left ++ '=' :: right) = if a.near b then .good a b else .bad a b := by
  rw [of_split? (Side.split?_append hl hr), Side.dimension_eq_ok.mpr ha, Side.dimension_eq_ok.mpr hb, ofSides]

theorem of_unreadable (scope : Scope) (hl : '=' ∉ left) (hr : '=' ∉ right)
    (h : ∀ a b, parse scope (trim left) = .ok a → parse scope (trim right) ≠ .ok b) :
    ∃ f, of scope (left ++ '=' :: right) = .unknown (.side f) := by
  rw [of_split? (Side.split?_append hl hr)]
  cases hx : (Side.ofPiece 0 left).dimension scope with
  | error f => exact ⟨f, rfl⟩
  | ok a =>
    cases hy : (Side.ofPiece (left.length + 1) right).dimension scope with
    | error f => exact ⟨f, rfl⟩
    | ok b => exact absurd (Side.dimension_eq_ok.mp hy) (h a b (Side.dimension_eq_ok.mp hx))

/-- An equation and the one with its sides exchanged are both right, both wrong, or neither can be told. -/
theorem of_exchanged (scope : Scope) (hl : '=' ∉ left) (hr : '=' ∉ right) :
    (∃ a b, of scope (left ++ '=' :: right) = .good a b ∧ of scope (right ++ '=' :: left) = .good b a) ∨
      (∃ a b, of scope (left ++ '=' :: right) = .bad a b ∧ of scope (right ++ '=' :: left) = .bad b a) ∨
        ∃ f g, of scope (left ++ '=' :: right) = .unknown (.side f) ∧
          of scope (right ++ '=' :: left) = .unknown (.side g) := by
  by_cases h : ∃ a b, parse scope (trim left) = .ok a ∧ parse scope (trim right) = .ok b
  · obtain ⟨a, b, ha, hb⟩ := h
    rw [of_readable hl hr ha hb, of_readable hr hl hb ha, Dimension.near_comm b a]
    cases a.near b with
    | true => exact Or.inl ⟨a, b, rfl, rfl⟩
    | false => exact Or.inr (Or.inl ⟨a, b, rfl, rfl⟩)
  · obtain ⟨f, hf⟩ := of_unreadable scope hl hr fun a b ha hb => h ⟨a, b, ha, hb⟩
    obtain ⟨g, hg⟩ := of_unreadable scope hr hl fun b a hb ha => h ⟨a, b, ha, hb⟩
    exact Or.inr (Or.inr ⟨f, g, hf, hg⟩)

end

/-- A scope in which `x` is a length. -/
def lengthScope : Scope := ⟨.ofList [("x", .ofBase .length)], .standard⟩

theorem of_exchanged_lengthArea :
    '=' ∉ "x".toList ∧ '=' ∉ " x x ".toList ∧
      ∃ a b, of lengthScope "x= x x ".toList = .bad a b ∧ of lengthScope " x x =x".toList = .bad b a := by
  have hl : '=' ∉ "x".toList := by decide
  have hr : '=' ∉ " x x ".toList := by decide
  have hstatus : (of lengthScope ("x".toList ++ '=' :: " x x ".toList)).status = .bad := by decide +kernel
  refine ⟨hl, hr, ?_⟩
  rcases of_exchanged lengthScope hl hr with ⟨a, b, h, -⟩ | h | ⟨f, g, h, -⟩
  · rw [h] at hstatus
    cases hstatus
  · exact h
  · rw [h] at hstatus
    cases hstatus

end Verdict

end UnitCheck
