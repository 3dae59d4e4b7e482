/-! # Runs

A list begins with a longest run of elements that satisfy a predicate. Lexers find it by `takeWhile`;
their proofs name it and what is behind it. -/

namespace UnitCheck.Text

variable {α : Type} {p : α → Bool}

theorem take_length_takeWhile (p : α → Bool) (l : List α) : l.take (l.takeWhile p).length = l.takeWhile p :=
  (List.prefix_iff_eq_take.mp (List.takeWhile_prefix p)).symm

theorem takeWhile_run {run rest : List α} (hr : ∀ x ∈ run, p x = true) (hn : ∀ x ∈ rest.head?, p x = false) :
    (run ++ rest).takeWhile p = run := by
  rw [List.takeWhile_append_of_pos hr]
  cases rest with
  | nil => simp
  | cons x rest => simp [hn x rfl]

theorem dropWhile_run {run rest : List α} (hr : ∀ x ∈ run, p x = true) (hn : ∀ x ∈ rest.head?, p x = false) :
    (run ++ rest).dropWhile p = rest := by
  have h := List.takeWhile_append_dropWhile (p := p) (l := run ++ rest)
  rw [takeWhile_run hr hn] at h
  exact List.append_cancel_left h

theorem takeWhile_all {l : List α} (h : ∀ x ∈ l, p x = true) : l.takeWhile p = l := by
  simpa using @takeWhile_run α p l [] h (by simp)

theorem dropWhile_all {l : List α} (h : ∀ x ∈ l, p x = true) : l.dropWhile p = [] := by
  simpa using @dropWhile_run α p l [] h (by simp)

theorem takeWhile_append_of_head {l rest : List α} (h : ∀ x ∈ rest.head?, p x = false) :
    (l ++ rest).takeWhile p = l.takeWhile p := by
  have hrest : rest.takeWhile p = [] := by
    cases rest with
    | nil => rfl
    | cons x rest => simp [h x rfl]
  rw [List.takeWhile_append, hrest, List.append_nil]
  split
  · rename_i hl
    exact (List.takeWhile_sublist p).eq_of_length hl |>.symm
  · rfl

theorem exists_run (p : α → Bool) (l : List α) :
    ∃ run rest, l = run ++ rest ∧ (∀ x ∈ run, p x = true) ∧ ∀ x ∈ rest.head?, p x = false := by
  refine ⟨l.takeWhile p, l.dropWhile p, List.takeWhile_append_dropWhile.symm, ?_, fun x hx => ?_⟩
  · exact List.all_eq_true.mp List.all_takeWhile
  · have := List.head?_dropWhile_not p l
    rw [hx] at this
    simpa using this

end UnitCheck.Text
