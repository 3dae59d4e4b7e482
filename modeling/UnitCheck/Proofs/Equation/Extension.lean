import UnitCheck.Dimension.Named
import UnitCheck.Proofs.Equation.InPlace

/-! # Further declarations

A verdict stands when further variables are declared. What is read with fewer declarations is read in the
same way with more, up to the first symbol that only the larger table has. There the reading with fewer
ends, in a failure for want of that declaration, and no other failure is lifted. -/

namespace UnitCheck

namespace Markup

/-- Every declaration of the first table is in the second, unchanged. -/
def Extends (declared declared' : Variables) : Prop := ∀ s d, declared.find? s = some d → declared'.find? s = some d

/-- The change to more declarations, with all offsets kept: it lifts the failures that a symbol has. -/
def declareMore : Change :=
  ⟨id, id, fun cause => cause.code = .unresolvedSymbol ∨ cause.code = .unsupportedConstruct⟩

section
variable {declared declared' : Variables} {limit : Limit}

theorem Extends.symbol_follows (h : Extends declared declared') (t : Token) :
    Follows declareMore id (symbol declared t) (symbol declared' (t.place declareMore)) := by
  cases hf : declared.find? t.text with
  | some d =>
    rw [symbol, symbol, hf, Token.place_text, h _ _ hf]
    exact .ok d
  | none =>
    rw [symbol, hf]
    dsimp only
    split
    · exact .lifted (Or.inr rfl) _
    · exact .lifted (Or.inl rfl) _

theorem Extends.parseTokens_follows (h : Extends declared declared') (stop : Int) (tokens : List Token) :
    Follows declareMore id (parseTokens ⟨declared, limit⟩ stop tokens) (parseTokens ⟨declared', limit⟩ stop tokens) :=
  parseTokens_follows_same rfl rfl stop tokens (Or.inl ⟨rfl, rfl⟩) fun _ t _ _ => h.symbol_follows t

/-- A text is read with more declarations as with fewer, unless the reading with fewer fails at a symbol or at a
    denied command. -/
theorem Extends.parse_follows (h : Extends declared declared') (text : List Char) :
    Follows declareMore id (parse ⟨declared, limit⟩ text) (parse ⟨declared', limit⟩ text) := by
  rw [parse, parse]
  refine .ite (fun _ => .error _) fun _ => ?_
  cases findDenied? text with
  | some hit => exact .error _
  | none => exact h.parseTokens_follows _ _

end

end Markup

open Markup

theorem Side.dimension_extends {declared declared' : Variables} (limit : Limit) (h : Extends declared declared')
    (s : Side) :
    s.dimension ⟨declared', limit⟩ = s.dimension ⟨declared, limit⟩ ∨
      ∃ f, s.dimension ⟨declared, limit⟩ = .error f ∧ declareMore.lifts f.cause := by
  rw [Side.dimension, Side.dimension]
  rcases (h.parse_follows s.text).eq_or_lifted rfl with heq | ⟨f, hf, hl⟩
  · rw [heq]
    exact Or.inl rfl
  · rw [hf]
    exact Or.inr ⟨_, rfl, hl⟩

namespace Verdict

/-- Whether the verdict hangs on a symbol that is not declared, or on a command that is not supported. -/
def Open (v : Verdict) : Prop := v.reason? = some .unresolvedSymbol ∨ v.reason? = some .unsupportedConstruct

theorem open_of_lifts {f : Failure Cause} (h : declareMore.lifts f.cause) : Open (.unknown (.side f)) :=
  h.imp (congrArg some) (congrArg some)

/-- Further declarations leave a verdict as it is, unless it hangs on a symbol that is not declared or on a command
    that is not supported. -/
theorem of_extends (declared declared' : Variables) (limit : Limit) (text : List Char)
    (h : Extends declared declared') (hv : ¬Open (of ⟨declared, limit⟩ text)) :
    of ⟨declared', limit⟩ text = of ⟨declared, limit⟩ text := by
  cases hs : Side.split? text with
  | none => rw [of, of, hs]
  | some sides =>
    obtain ⟨left, right⟩ := sides
    rw [of_split? hs] at hv
    rw [of_split? hs, of_split? hs]
    rcases left.dimension_extends limit h with hl | ⟨f, hf, hl⟩
    · rw [hl]
      cases ha : left.dimension ⟨declared, limit⟩ with
      | error f => rfl
      | ok a =>
        rw [ha] at hv
        rcases right.dimension_extends limit h with hr | ⟨g, hg, hr⟩
        · rw [hr]
        · rw [hg] at hv
          exact absurd (open_of_lifts hr) hv
    · rw [hf] at hv
      exact absurd (open_of_lifts hl) hv

/-- A length alone. -/
def lengthAlone : Variables := .ofList [("x", .ofBase .length)]

/-- The sum on the left fails, and that hides the symbol on the right that only the second table has. -/
theorem of_extends_mismatch :
    Extends lengthAlone (lengthAlone.insert "y" (.ofBase .time)) ∧
      ¬Open (of ⟨lengthAlone, .standard⟩ "x + 1 = y".toList) ∧
        of ⟨lengthAlone.insert "y" (.ofBase .time), .standard⟩ "x + 1 = y".toList =
          .unknown (.side ⟨.sumMismatch false (.ofBase .length) .one, 2⟩) := by
  have hextends : Extends lengthAlone (lengthAlone.insert "y" (.ofBase .time)) := fun s d hd => by
    have hne : s ≠ "y" := by
      rintro rfl
      cases hd
    rwa [Table.find?_insert, if_neg hne]
  have hof : of ⟨lengthAlone, .standard⟩ "x + 1 = y".toList =
      .unknown (.side ⟨.sumMismatch false (.ofBase .length) .one, 2⟩) := by decide +kernel
  have hclosed : ¬Open (of ⟨lengthAlone, .standard⟩ "x + 1 = y".toList) := by
    rw [hof]
    simp [Open, reason?, Cause.code]
  exact ⟨hextends, hclosed, (of_extends _ _ _ _ hextends hclosed).trans hof⟩

end Verdict

end UnitCheck
