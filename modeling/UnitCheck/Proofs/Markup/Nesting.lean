import Mathlib.Data.List.Basic
import UnitCheck.Dimension.Named
import UnitCheck.Proofs.Markup.Offsets
import UnitCheck.Proofs.Markup.Ranges
import UnitCheck.Settings

/-! # Nesting

The reader of tokens has a number of levels left, and each group is read with one level less. The reader that moves a
cursor compares the depth of the cursor with the limit, and a run of it counts the groups that were entered and not
left. From nothing open, the count never exceeds the limit, comes back to nothing when the run succeeds, and has
reached the limit when a failure is for want of levels. Such a failure is the only one that a higher limit lifts. -/

namespace UnitCheck

namespace Markup

/-- What the count of a run is that begins with nothing open. -/
theorem Ends.counted {limit : Limit} {α : Type} {x : Except (Failure Cause) α} {run : Progress α}
    (h : Ends limit 0 Eq x run) :
    run.outcome = some x ∧ (∀ n ∈ run.counts, n ≤ limit.levels) ∧ (∀ a, run.outcome = some (.ok a) → run.count = 0) ∧
      ∀ f, run.outcome = some (.error f) → f.cause.code = .tooDeeplyNested → run.count = limit.levels := by
  cases h with
  | ok bounded h => exact ⟨by rw [h], bounded, fun _ _ => rfl, fun f hf => (by cases hf)⟩
  | error bounded full =>
    refine ⟨rfl, bounded, fun a ha => (by cases ha), fun f hf hcode => ?_⟩
    cases hf
    exact (full fun hshallow => hshallow hcode).trans (Nat.zero_max _)

/-! ### Higher limits -/

/-- The change to a higher limit, with all offsets kept: it lifts the failures for want of levels. -/
def deepen : Change := ⟨id, id, fun cause => cause.code = .tooDeeplyNested⟩

theorem parseTokens_deepen {declared : Variables} {low high : Limit} (h : low.levels ≤ high.levels) (stop : Int)
    (tokens : List Token) :
    Follows deepen id (parseTokens ⟨declared, low⟩ stop tokens) (parseTokens ⟨declared, high⟩ stop tokens) :=
  parseTokens_follows_same rfl rfl stop tokens (Or.inr ⟨h, rfl⟩) fun _ _ _ _ => symbol_follows rfl

/-- What is read without want of levels is read in the same way under a higher limit. -/
theorem parseTokens_eq_of_shallow {declared : Variables} {low high : Limit} {stop : Int} {tokens : List Token}
    (h : low.levels ≤ high.levels) (hr : OnError Shallow (parseTokens ⟨declared, low⟩ stop tokens)) :
    parseTokens ⟨declared, high⟩ stop tokens = parseTokens ⟨declared, low⟩ stop tokens := by
  rcases (parseTokens_deepen h stop tokens).eq_or_lifted rfl with heq | ⟨f, hf, hl⟩
  · exact heq
  · exact absurd hl (hr f hf)

end Markup

/-! ### The limit that is set -/

namespace Settings

/-- The number of levels that is asked for: the one given for a check, or the one in the environment, or else 64. -/
def asked (environment : Environment) (given : Option Int) : Int :=
  given.getD (((environment.find? "PHYSGRAPH_MAX_DEPTH").bind fun text => Text.readInteger? text.toList).getD 64)

theorem levels_clamp (n : Int) : ((Markup.Limit.clamp n).levels : Int) = min (max 1 n) 100 :=
  Int.toNat_of_nonneg (by omega)

theorem levels_limitOf (text : String) :
    ((limitOf text).levels : Int) = min (max 1 ((Text.readInteger? text.toList).getD 64)) 100 := by
  unfold limitOf
  cases Text.readInteger? text.toList with
  | some n => exact levels_clamp n
  | none => rfl

theorem levels_limitFor (environment : Environment) (given : Option Int) :
    (((of environment).limitFor given).levels : Int) = min (max 1 (asked environment given)) 100 := by
  cases given with
  | some n => exact levels_clamp n
  | none =>
    simp only [limitFor, asked, of, Option.map_none, Option.getD_none]
    cases environment.find? "PHYSGRAPH_MAX_DEPTH" with
    | some text => exact levels_limitOf text
    | none => rfl

end Settings

namespace Markup

/-- The limit only cuts off. What is read without want of levels is read in the same way under a higher limit. The
    groups that are open never exceed the limit, all of them are left when the reading succeeds, and there are as many
    as may be when it ends for want of levels. Whatever is set or given, the limit is the nearest one from 1 to 100. -/
theorem limit_cutsOff :
    (∀ declared low high stop tokens, low.levels ≤ high.levels →
      (∀ f, parseTokens ⟨declared, low⟩ stop tokens = .error f → f.cause.code ≠ .tooDeeplyNested) →
        parseTokens ⟨declared, high⟩ stop tokens = parseTokens ⟨declared, low⟩ stop tokens) ∧
    (∀ (scope : Scope) (stop : Int) (tokens : List Token),
      let run := (Span.whole tokens stop).complete scope (6 * tokens.length + 5) ⟨0, 0⟩ 0
      run.outcome = some (parseTokens scope stop tokens) ∧
      (∀ n ∈ run.counts, n ≤ scope.limit.levels) ∧
      (∀ d, run.outcome = some (.ok d) → run.count = 0) ∧
      ∀ f, run.outcome = some (.error f) → f.cause.code = .tooDeeplyNested → run.count = scope.limit.levels) ∧
    ∀ environment given, let limit := (Settings.of environment).limitFor given
      1 ≤ limit.levels ∧ limit.levels ≤ 100 ∧
      (limit.levels : Int) = min (max 1 (Settings.asked environment given)) 100 := by
  refine ⟨fun declared low high stop tokens => parseTokens_eq_of_shallow, fun scope stop tokens => ?_,
    fun environment given => ?_⟩
  · have hrun : Ends scope.limit 0 Eq (parseTokens scope stop tokens)
        ((Span.whole tokens stop).complete scope (6 * tokens.length + 5) ⟨0, 0⟩ 0) := by
      have h := (Span.whole tokens stop).complete_mirrors_inside scope 0 0 _ (Nat.le_refl (6 * tokens.length + 5))
      rw [Span.whole_rest] at h
      exact h
    exact hrun.counted
  · exact ⟨Limit.pos _, Limit.le _, Settings.levels_limitFor environment given⟩

/-- Operands of a fraction, parentheses and braces in one another. -/
def mixedNesting : List Token := tokenize "\\frac{(x)}{{t}} + (x)".toList

def lengthAndTime : Variables := .ofList [("x", .ofBase .length), ("t", .ofBase .time)]

/-- One level is too few, and with two the reading fails for another reason, as it does with more. -/
theorem limit_cutsOff_mixed :
    let reading := fun n : Int => parseTokens ⟨lengthAndTime, .clamp n⟩ 21 mixedNesting
    reading 1 = .error ⟨.tooDeep 1, 6⟩ ∧ (Limit.clamp 2).levels ≤ (Limit.clamp 100).levels ∧
      (∀ f, reading 2 = .error f → f.cause.code ≠ .tooDeeplyNested) ∧ reading 100 = reading 2 := by
  intro reading
  have hone : reading 1 = .error ⟨.tooDeep 1, 6⟩ := by decide +kernel
  have hle : (Limit.clamp 2).levels ≤ (Limit.clamp 100).levels := by decide
  have hcode : (match reading 2 with
      | .ok _ => none
      | .error f => some f.cause.code) = some .dimensionMismatch := by decide +kernel
  have hother : ∀ f, reading 2 = .error f → f.cause.code ≠ .tooDeeplyNested := by
    intro f hf ht
    rw [hf] at hcode
    cases ht.symm.trans (Option.some.inj hcode)
  exact ⟨hone, hle, hother, limit_cutsOff.1 lengthAndTime (.clamp 2) (.clamp 100) 21 mixedNesting hle hother⟩

end Markup

end UnitCheck
