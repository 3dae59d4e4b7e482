import UnitCheck.Proofs.Variable.Rewritten

/-! # Line by line

What a line of a text says depends on the line alone, and where the line stands is in its warning only. So a
text behind another one says what it says by itself, with its warnings further down by the lines before it.
How many these are is not the sum of the lines of both texts: a line feed between them may end the last line
of the first text, begin an empty one, or be the second half of a line end. -/

namespace UnitCheck.Declaration

open UnitCheck.Text

/-- A line of blanks, or a comment. -/
def Silent (raw : List Char) : Prop := trim raw = [] ∨ (trim raw).head? = some '#'

/-- The warning that a line is, with its number. -/
def Line.warning? (number : Nat) : Line → Option Warning
  | .faulty f => some ⟨number, f⟩
  | .silent | .declares _ => none

/-- The warning about a line further down. -/
def Warning.later (w : Warning) (further : Nat) : Warning := { w with line := w.line + further }

theorem Warning.message_later (w : Warning) (further : Nat) :
    ∃ what, w.message = "Line " ++ toString w.line ++ ": " ++ what ∧
      (w.later further).message = "Line " ++ toString (w.line + further) ++ ": " ++ what :=
  ⟨_, rfl, rfl⟩

theorem readLine_eq_silent {raw : List Char} : readLine raw = .silent ↔ Silent raw := by
  unfold readLine Silent
  split
  · rename_i h
    simp [h]
  · rename_i h
    simp [h]
  · rename_i hnil hhash
    have hhead : (trim raw).head? ≠ some '#' := fun h => by
      obtain ⟨tail, htail⟩ := List.head?_eq_some_iff.mp h
      exact hhash tail htail
    refine iff_of_false ?_ (not_or.mpr ⟨hnil, hhead⟩)
    dsimp only
    intro hline
    split at hline
    · cases hline
    · split at hline
      · cases hline
      · split at hline
        · cases hline
        · cases hline

/-- A line says nothing, or is one declaration, or has one warning with the number of the line. -/
theorem readLine_cases (raw : List Char) (number : Nat) :
    (Silent raw ∧ (readLine raw).declaration? = none ∧ (readLine raw).warning? number = none) ∨
    (¬Silent raw ∧ ∃ d, (readLine raw).declaration? = some d ∧ (readLine raw).warning? number = none) ∨
    (¬Silent raw ∧ ∃ f, (readLine raw).declaration? = none ∧ (readLine raw).warning? number = some ⟨number, f⟩) := by
  rw [← readLine_eq_silent]
  cases readLine raw with
  | silent => exact Or.inl ⟨rfl, rfl, rfl⟩
  | declares d => exact Or.inr (Or.inl ⟨nofun, d, rfl, rfl⟩)
  | faulty f => exact Or.inr (Or.inr ⟨nofun, f, rfl, rfl⟩)

theorem warnings_readLines (number : Nat) (ls : List (List Char)) :
    (readLines number ls).warnings = (ls.zipIdx number).filterMap fun line => (readLine line.1).warning? line.2 := by
  induction ls generalizing number with
  | nil => rfl
  | cons raw ls ih =>
    rw [readLines, List.zipIdx_cons, List.filterMap_cons]
    cases readLine raw with
    | silent | declares => exact ih (number + 1)
    | faulty f => exact congrArg (⟨number, f⟩ :: ·) (ih (number + 1))

theorem warning?_later (line : Line) (number further : Nat) :
    line.warning? (number + further) = (line.warning? number).map (·.later further) := by
  cases line <;> rfl

theorem warnings_later (number further : Nat) (ls : List (List Char)) :
    (readLines (number + further) ls).warnings = (readLines number ls).warnings.map (·.later further) := by
  rw [warnings_readLines, warnings_readLines, List.map_filterMap]
  induction ls generalizing number with
  | nil => rfl
  | cons raw ls ih =>
    have hnext : number + further + 1 = number + 1 + further := by omega
    simp only [List.zipIdx_cons, List.filterMap_cons, warning?_later, hnext, ih]

/-- The end of the last line makes no difference: an empty line says nothing. -/
theorem readText_feed (text : List Char) :
    (readText (text ++ ['\n'])).declarations = (readText text).declarations ∧
      (readText (text ++ ['\n'])).warnings = (readText text).warnings := by
  have hsilent : readLine [] = .silent := rfl
  simp only [readText, declarations_readLines, warnings_readLines]
  rcases lines_feed text with h | h
  · rw [h]
    exact ⟨rfl, rfl⟩
  · rw [h, List.zipIdx_append, List.filterMap_append, List.filterMap_append]
    simp [hsilent, Line.declaration?, Line.warning?]

theorem readText_append (a b : List Char) :
    (readText (a ++ '\n' :: b)).declarations = (readText a).declarations ++ (readText b).declarations ∧
      (readText (a ++ '\n' :: b)).warnings =
        (readText a).warnings ++ (readText b).warnings.map (·.later (lines (a ++ ['\n'])).length) := by
  obtain ⟨hdeclarations, hwarnings⟩ := readText_feed a
  rw [← hdeclarations, ← hwarnings]
  refine ⟨?_, ?_⟩
  · simp only [readText, declarations_readLines]
    rw [lines_append_feed, List.filterMap_append]
  · simp only [readText]
    rw [← warnings_later, lines_append_feed, warnings_readLines, warnings_readLines, warnings_readLines,
      List.zipIdx_append, List.filterMap_append]

/-- A text with another one behind it, on lines of its own, has the declarations and the warnings of both, those of the
    second text further down by the lines before it. In each text they are what the lines say, in their order: each line
    says nothing, because it is blank or a comment, or is one declaration, or has one warning with its number. -/
theorem readText_linewise :
    (∀ a b, (readText (a ++ '\n' :: b)).declarations = (readText a).declarations ++ (readText b).declarations ∧
      (readText (a ++ '\n' :: b)).warnings =
        (readText a).warnings ++ (readText b).warnings.map (·.later (lines (a ++ ['\n'])).length)) ∧
    (∀ (w : Warning) (further : Nat), ∃ what, w.message = "Line " ++ toString w.line ++ ": " ++ what ∧
      (w.later further).message = "Line " ++ toString (w.line + further) ++ ": " ++ what) ∧
    (∀ text, (readText text).declarations = (lines text).filterMap (fun raw => (readLine raw).declaration?) ∧
      (readText text).warnings = ((lines text).zipIdx 1).filterMap fun line => (readLine line.1).warning? line.2) ∧
    ∀ raw number,
      (Silent raw ∧ (readLine raw).declaration? = none ∧ (readLine raw).warning? number = none) ∨
      (¬Silent raw ∧ ∃ d, (readLine raw).declaration? = some d ∧ (readLine raw).warning? number = none) ∨
      (¬Silent raw ∧ ∃ f, (readLine raw).declaration? = none ∧ (readLine raw).warning? number = some ⟨number, f⟩) :=
  ⟨readText_append, Warning.message_later,
    fun text => ⟨declarations_readLines 1 (lines text), warnings_readLines 1 (lines text)⟩, readLine_cases⟩

/-- The carriage return and the line feed between the texts end one line, so the colon is missing on the second. -/
example : (readText ("m: kg\r".toList ++ '\n' :: "x kg".toList)).warnings = [⟨2, .missingColon "x kg"⟩] := by
  decide +kernel

end UnitCheck.Declaration
