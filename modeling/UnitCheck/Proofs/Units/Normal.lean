import UnitCheck.Proofs.Markup.Lexing
import UnitCheck.Proofs.Units.Lexical

/-! # Normal forms

A text of the characters of unit expressions is its own normal form, and the normal form of any text keeps
the signs plus and minus. -/

namespace UnitCheck.Units

variable {c : Char} {rest text : List Char}

/-- What holds of every character of the alphabet but for letters, digits and points can be looked up. -/
theorem InAlphabet.cases {p : Char → Bool} (hc : InAlphabet c) (hp : ∀ x, Markup.inPiece x = true → p x = true)
    (hs : (signs.map Prod.fst).all p = true) : p c = true := by
  rcases hc with hc | hc | hc
  · exact hp c (by simp [Markup.inPiece, Markup.isLetter, hc])
  · refine hp c ?_
    rcases hc with hc | hc <;> simp [Markup.inPiece, Markup.isNumberChar, hc]
  · exact List.all_eq_true.mp hs c hc

theorem InAlphabet.ne {x : Char} (hc : InAlphabet c) (hx : Markup.inPiece x = false) (hs : x ∉ signs.map Prod.fst) :
    c ≠ x := by
  refine of_decide_eq_true (hc.cases (p := fun c => decide (c ≠ x)) (fun y hy => decide_eq_true ?_) ?_)
  · rintro rfl
    rw [hx] at hy
    cases hy
  · exact List.all_eq_true.mpr fun y hy => decide_eq_true fun he => hs (he ▸ hy)

theorem InAlphabet.not_blank (hc : InAlphabet c) : Text.isBlank c = false := by
  have hpiece : ∀ x, Markup.inPiece x = true → (!Text.isBlank x) = true := fun x hx => by
    refine Bool.not_eq_true' _ |>.mpr (Bool.eq_false_iff.mpr fun hb => ?_)
    rw [Markup.inPiece_of_isBlank hb] at hx
    cases hx
  simpa using hc.cases hpiece (by decide)

theorem InAlphabet.normalChar_eq (hc : InAlphabet c) : normalChar c = c := by
  simp [normalChar, hc.ne (x := '·') (by decide) (by decide), hc.ne (x := '×') (by decide) (by decide),
    hc.ne (x := '\x7b') (by decide) (by decide), hc.ne (x := '\x7d') (by decide) (by decide)]

theorem normalize_cons (hc : c ≠ '\\') :
    normalize (c :: rest) = if Text.isBlank c then normalize rest else normalChar c :: normalize rest := by
  rw [normalize.eq_def]
  split
  · rename_i h
    cases h
  · rename_i h
    exact absurd (List.cons.inj h).1 hc
  · rename_i h
    exact absurd (List.cons.inj h).1 hc
  · rename_i h
    obtain ⟨rfl, rfl⟩ := List.cons.inj h
    rfl

theorem normalize_of_inAlphabet (h : ∀ c ∈ text, InAlphabet c) : normalize text = text := by
  induction text with
  | nil => rfl
  | cons c rest ih =>
    have hc := h c List.mem_cons_self
    rw [normalize_cons (hc.ne (by decide) (by decide)), hc.not_blank, hc.normalChar_eq,
      ih fun x hx => h x (List.mem_cons_of_mem c hx)]
    rfl

theorem mem_normalize (hc : c = '-' ∨ c = '+') (h : c ∈ text) : c ∈ normalize text := by
  have hblank : Text.isBlank c = false := by rcases hc with rfl | rfl <;> decide
  have hnormal : normalChar c = c := by rcases hc with rfl | rfl <;> decide
  have behind (word : List Char) {rest : List Char} (hw : ∀ x ∈ word, x ≠ '-' ∧ x ≠ '+') (h : c ∈ word ++ rest) : c ∈ rest := by
    refine (List.mem_append.mp h).resolve_left fun hword => ?_
    obtain ⟨hm, hp⟩ := hw c hword
    exact hc.elim hm hp
  fun_induction normalize text with
  | case1 => cases h
  | case2 rest ih =>
    exact List.mem_cons_of_mem _ (ih (behind ['\\', 'c', 'd', 'o', 't'] (by simp) h))
  | case3 rest ih =>
    exact List.mem_cons_of_mem _ (ih (behind ['\\', 't', 'i', 'm', 'e', 's'] (by simp) h))
  | case4 x rest _ _ hx ih =>
    rcases List.mem_cons.mp h with rfl | h
    · rw [hblank] at hx
      cases hx
    · exact ih h
  | case5 x rest _ _ hx ih =>
    rcases List.mem_cons.mp h with rfl | h
    · rw [hnormal]
      exact List.mem_cons_self
    · exact List.mem_cons_of_mem _ (ih h)

end UnitCheck.Units
