import Mathlib.Data.List.DropRight
import UnitCheck.Proofs.Text.Run
import UnitCheck.Text.Blank

/-! # Trimmed texts

Trimming makes a text with no blank at either end, and leaves such a text as it is. -/

namespace UnitCheck.Text

variable {p : Char → Bool} {c : Char} {cs : List Char}

/-- What holds of the first character holds of that of each beginning. -/
theorem first_of_isPrefix {P : Char → Prop} {front : List Char} (hfront : front <+: cs) (h : ∀ c ∈ cs.head?, P c) :
    ∀ c ∈ front.head?, P c := by
  obtain ⟨rest, rfl⟩ := hfront
  intro c hc
  refine h c ?_
  rw [List.head?_append, Option.mem_def.mp hc]
  rfl

/-! ### The end -/

theorem prefix_dropEnd (p : Char → Bool) (cs : List Char) : dropEnd p cs <+: cs :=
  List.rdropWhile_prefix p cs

theorem last_dropEnd (p : Char → Bool) (cs : List Char) : ∀ c ∈ (dropEnd p cs).getLast?, p c = false := by
  intro c hc
  obtain ⟨hne, rfl⟩ := List.mem_getLast?_eq_getLast hc
  exact Bool.eq_false_iff.mpr (List.rdropWhile_last_not p cs hne)

theorem dropEnd_of_last (h : ∀ c ∈ cs.getLast?, p c = false) : dropEnd p cs = cs :=
  List.rdropWhile_eq_self_iff.mpr fun hne => Bool.eq_false_iff.mp (h _ (List.getLast_mem_getLast? hne))

/-! ### Both ends -/

/-- A text with no blank at either end. -/
structure Trimmed (cs : List Char) : Prop where
  first : ∀ c ∈ cs.head?, isBlank c = false
  last : ∀ c ∈ cs.getLast?, isBlank c = false

theorem trimStart_of_first (h : ∀ c ∈ cs.head?, isBlank c = false) : trimStart cs = cs := by
  have hrun : ∀ x ∈ ([] : List Char), isBlank x = true := by simp
  exact dropWhile_run hrun h

theorem prefix_trim (h : ∀ c ∈ cs.head?, isBlank c = false) : trim cs <+: cs := by
  rw [trim, trimStart_of_first h]
  exact prefix_dropEnd isBlank cs

theorem trim_blank_cons (h : isBlank c = true) (cs : List Char) : trim (c :: cs) = trim cs := by
  rw [trim, trimStart, List.dropWhile_cons_of_pos h, trim, trimStart]

theorem trimmed_trim (cs : List Char) : Trimmed (trim cs) where
  first := by
    refine first_of_isPrefix (prefix_dropEnd isBlank (trimStart cs)) fun c hc => ?_
    have hhead := List.head?_dropWhile_not isBlank cs
    rw [trimStart] at hc
    rwa [Option.mem_def.mp hc] at hhead
  last := last_dropEnd isBlank (trimStart cs)

theorem Trimmed.trim_eq (h : Trimmed cs) : trim cs = cs := by
  rw [trim, trimStart_of_first h.first, dropEnd_of_last h.last]

theorem mem_of_mem_trim (h : c ∈ trim cs) : c ∈ cs :=
  (List.dropWhile_sublist isBlank).subset ((prefix_dropEnd isBlank (trimStart cs)).subset h)

end UnitCheck.Text
