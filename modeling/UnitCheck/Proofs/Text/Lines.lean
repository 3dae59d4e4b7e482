import Mathlib.Data.List.Basic
import UnitCheck.Text.Lines

/-! # Texts written line by line

A line holds no line end. So lines without line ends are the lines of the text that has them one after the
other with line feeds between them, or with one behind each. -/

namespace UnitCheck.Text

/-- A line that holds no line end. -/
def OneLine (line : List Char) : Prop := ∀ c ∈ line, isLineEnd c = false

theorem oneLine_cons {c : Char} {line : List Char} : OneLine (c :: line) ↔ isLineEnd c = false ∧ OneLine line :=
  List.forall_mem_cons

theorem lines_cons {c : Char} (h : isLineEnd c = false) (rest : List Char) :
    lines (c :: rest) = prependChar c (lines rest) := by
  have hr : c ≠ '\r' := by
    rintro rfl
    exact absurd h (by decide)
  rw [lines.eq_3 c rest fun _ hc _ => hr hc, if_neg (by simp [h])]

theorem oneLine_of_mem_lines (text : List Char) : ∀ line ∈ lines text, OneLine line := by
  fun_induction lines text with
  | case1 => simp
  | case2 rest ih => simpa [OneLine] using ih
  | case3 c rest _ _ ih => simpa [OneLine] using ih
  | case4 c rest _ hc ih =>
    rw [Bool.not_eq_true] at hc
    cases hl : lines rest with
    | nil => simp [prependChar, OneLine, hc]
    | cons first more =>
      rw [hl] at ih
      obtain ⟨hfirst, hmore⟩ := List.forall_mem_cons.mp ih
      exact List.forall_mem_cons.mpr ⟨oneLine_cons.mpr ⟨hc, hfirst⟩, hmore⟩

theorem lines_append {line : List Char} (h : OneLine line) (rest : List Char) :
    lines (line ++ '\n' :: rest) = line :: lines rest := by
  induction line with
  | nil => rfl
  | cons c line ih =>
    obtain ⟨hc, hline⟩ := oneLine_cons.mp h
    rw [List.cons_append, lines_cons hc, ih hline, prependChar]

theorem lines_of_oneLine {line : List Char} (h : OneLine line) (hne : line ≠ []) : lines line = [line] := by
  induction line with
  | nil => exact absurd rfl hne
  | cons c line ih =>
    obtain ⟨hc, hline⟩ := oneLine_cons.mp h
    rw [lines_cons hc]
    cases line with
    | nil => rfl
    | cons c' line => rw [ih hline (List.cons_ne_nil c' line), prependChar]

/-- Lines that are each ended are read back. -/
theorem lines_flatMap {ls : List (List Char)} (h : ∀ line ∈ ls, OneLine line) (rest : List Char) :
    lines (ls.flatMap (· ++ ['\n']) ++ rest) = ls ++ lines rest := by
  induction ls with
  | nil => rfl
  | cons line ls ih =>
    obtain ⟨hline, hls⟩ := List.forall_mem_cons.mp h
    rw [List.flatMap_cons, List.append_assoc, List.append_assoc, List.singleton_append, lines_append hline, ih hls,
      List.cons_append]

/-- Lines with an end between them are read back; a line that is empty could get lost at the end. -/
theorem lines_intercalate {ls : List (List Char)} (h : ∀ line ∈ ls, OneLine line ∧ line ≠ []) :
    lines (['\n'].intercalate ls) = ls := by
  induction ls with
  | nil => rfl
  | cons line ls ih =>
    obtain ⟨⟨hline, hne⟩, hls⟩ := List.forall_mem_cons.mp h
    cases ls with
    | nil =>
      rw [List.intercalate_singleton]
      exact lines_of_oneLine hline hne
    | cons next ls =>
      rw [List.intercalate_cons_cons, List.append_assoc, List.singleton_append, lines_append hline, ih hls]

/-! ### A text behind another -/

theorem lines_ne_nil (c : Char) (rest : List Char) : lines (c :: rest) ≠ [] := by
  have hprepend : ∀ ls, prependChar c ls ≠ [] := by
    rintro (_ | ⟨line, ls⟩) <;> simp [prependChar]
  rw [lines.eq_def]
  split
  · rename_i h
    cases h
  · exact List.cons_ne_nil _ _
  · rename_i h
    cases h
    split
    · exact List.cons_ne_nil _ _
    · exact hprepend _

/-- A character that ends a line does so in front of each text, unless it is the first of the two that end one line
    together. -/
theorem lines_end_append {c : Char} {text : List Char} (h : isLineEnd c = true)
    (hpair : ∀ tail, c = '\r' → text = '\n' :: tail → False) (rest : List Char) :
    (c = '\r' ∧ text = []) ∨ lines (c :: (text ++ '\n' :: rest)) = [] :: lines (text ++ '\n' :: rest) := by
  rcases Decidable.em (c = '\r' ∧ text = []) with hlast | hlast
  · exact Or.inl hlast
  · right
    rw [lines.eq_3 c, if_pos h]
    intro tail hr hfeed
    cases text with
    | nil => exact hlast ⟨hr, rfl⟩
    | cons c' text =>
      obtain ⟨rfl, -⟩ := List.cons.inj hfeed
      exact hpair text hr rfl

/-- A line feed ends what is before it, also where it makes one line end with a carriage return there. -/
theorem lines_append_feed (text rest : List Char) :
    lines (text ++ '\n' :: rest) = lines (text ++ ['\n']) ++ lines rest := by
  fun_induction lines text with
  | case1 => rfl
  | case2 text ih => exact congrArg ([] :: ·) ih
  | case3 c text hpair hc ih =>
    rw [List.cons_append, List.cons_append]
    rcases lines_end_append hc hpair rest with ⟨rfl, rfl⟩ | hrest
    · rfl
    · rcases lines_end_append hc hpair [] with ⟨rfl, rfl⟩ | hnil
      · rfl
      · rw [hrest, hnil, ih, List.cons_append]
  | case4 c text _ hc ih =>
    rw [Bool.not_eq_true] at hc
    rw [List.cons_append, List.cons_append, lines_cons hc, lines_cons hc, ih]
    cases hl : lines (text ++ ['\n']) with
    | nil => cases text <;> exact absurd hl (lines_ne_nil _ _)
    | cons line ls => rfl

/-- A line feed behind a text ends its last line, or is an empty line if that line is ended. -/
theorem lines_feed (text : List Char) :
    lines (text ++ ['\n']) = lines text ∨ lines (text ++ ['\n']) = lines text ++ [[]] := by
  fun_induction lines text with
  | case1 => exact Or.inr rfl
  | case2 text ih => exact ih.imp (congrArg ([] :: ·)) (congrArg ([] :: ·))
  | case3 c text hpair hc ih =>
    rw [List.cons_append]
    rcases lines_end_append hc hpair [] with ⟨rfl, rfl⟩ | hnil
    · exact Or.inl rfl
    · rw [hnil]
      exact ih.imp (congrArg ([] :: ·)) (congrArg ([] :: ·))
  | case4 c text _ hc ih =>
    rw [Bool.not_eq_true] at hc
    rw [List.cons_append, lines_cons hc]
    rcases ih with ih | ih
    · exact Or.inl (congrArg (prependChar c) ih)
    · rw [ih]
      cases lines text with
      | nil => exact Or.inl rfl
      | cons line ls => exact Or.inr rfl

end UnitCheck.Text
