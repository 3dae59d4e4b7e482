import UnitCheck.Equation.Verdict
import UnitCheck.Proofs.Markup.Denial

/-! # Equations checked in place

A check takes an equation apart: it trims both sides, reads each as a text of its own and carries the
place of a failure back. The check on the tokens of the whole equation, cut at the token `=`, does
without: its tokens have their offsets in the equation already, and a side ends behind its last character
that is no blank. Both give the same verdict. -/

namespace UnitCheck

open Markup Text

namespace Side

/-- The offset behind the last character of the side. -/
def stop (s : Side) : Int := s.offset + s.text.length

theorem dimension_ofPiece (scope : Scope) (offset : Nat) (piece : List Char) :
    (ofPiece offset piece).dimension scope =
      parseTokens scope (ofPiece offset piece).stop (tokenizeFrom offset piece) := by
  have hshift : (fun f : Failure Cause => f.shift (ofPiece offset piece).offset) =
      (·.place (moveBy (ofPiece offset piece).offset).start) := rfl
  have hstop : (ofPiece offset piece).stop =
      (moveBy (ofPiece offset piece).offset).start (trim piece).length := by
    simp only [stop, moveBy, ofPiece]
    omega
  have htokens : tokenizeFrom offset piece =
      (tokenize (trim piece)).map (·.place (moveBy (ofPiece offset piece).offset)) := by
    rw [tokenizeFrom_trim, tokenize, ← tokenizeFrom_add]
    congr 1
    simp only [ofPiece]
    omega
  rw [dimension, hshift, hstop, htokens, parseTokens_place fun _ h => h]
  congr 1
  cases hb : (trim piece).all isBlank with
  | false => exact parse_of_not_blank scope hb
  | true =>
    have hnil := trim_eq_nil_of_blank hb
    have htext : (ofPiece offset piece).text = [] := hnil
    rw [htext, hnil, tokenize, tokenizeFrom_nil]
    rfl

theorem stop_ofPiece (offset : Nat) (piece : List Char) :
    (offset : Int) ≤ (ofPiece offset piece).stop ∧ (ofPiece offset piece).stop ≤ offset + piece.length := by
  obtain ⟨lead, trail, hpiece, hlead, -, -⟩ := exists_trim piece
  have hlength := congrArg List.length hpiece
  simp only [List.length_append] at hlength
  simp only [stop, ofPiece]
  omega

/-- A failure on a side lies in it or at its end. -/
theorem position_of_dimension {scope : Scope} {offset : Nat} {piece : List Char} {f : Failure Cause}
    (h : (ofPiece offset piece).dimension scope = .error f) :
    (offset : Int) ≤ f.position ∧ f.position ≤ offset + piece.length := by
  rw [dimension_ofPiece] at h
  rcases position_of_parseTokens h with hp | ⟨t, ht, hp⟩
  · rw [hp]
    exact stop_ofPiece offset piece
  · have := start_of_mem_tokenizeFrom ht
    omega

/-- The sides of an equation are what its only `=` parts. -/
theorem split?_append {left right : List Char} (hl : '=' ∉ left) (hr : '=' ∉ right) :
    split? (left ++ '=' :: right) = some (ofPiece 0 left, ofPiece (left.length + 1) right) := by
  have hpart : ∀ c ∈ left, decide (c ≠ '=') = true := fun c hc => by
    rw [decide_eq_true_eq]
    rintro rfl
    exact hl hc
  have htake : (left ++ '=' :: right).takeWhile (· ≠ '=') = left :=
    takeWhile_run hpart fun x hx => by
      cases hx
      rfl
  have hdrop : (left ++ '=' :: right).dropWhile (· ≠ '=') = '=' :: right := by
    rw [List.dropWhile_append_of_pos hpart]
    rfl
  have hcontains : right.contains '=' = false := by simpa using hr
  simp only [split?, htake, hdrop, hcontains]
  rfl

theorem exists_of_count {text : List Char} (h : text.count '=' = 1) :
    ∃ left right, text = left ++ '=' :: right ∧ '=' ∉ left ∧ '=' ∉ right := by
  obtain ⟨left, right, rfl⟩ := List.append_of_mem (List.count_pos_iff.mp (by omega : 0 < text.count '='))
  rw [List.count_append, List.count_cons_self] at h
  exact ⟨left, right, rfl, List.count_eq_zero.mp (by omega), List.count_eq_zero.mp (by omega)⟩

theorem exists_of_split? {text : List Char} {sides : Side × Side} (h : split? text = some sides) :
    ∃ left right, text = left ++ '=' :: right ∧ '=' ∉ left ∧ '=' ∉ right := by
  unfold split? at h
  dsimp only at h
  split at h
  · cases h
  · rename_i c right hdrop
    split at h
    · cases h
    · rename_i hr
      have htext : text.takeWhile (· ≠ '=') ++ text.dropWhile (· ≠ '=') = text := List.takeWhile_append_dropWhile
      have hc := List.head?_dropWhile_not (fun x : Char => decide (x ≠ '=')) text
      rw [hdrop] at htext hc
      obtain rfl : c = '=' := by simpa using hc
      refine ⟨_, right, htext.symm, fun hl => ?_, by simpa using hr⟩
      simpa using List.all_eq_true.mp List.all_takeWhile _ hl

theorem split?_eq_none {text : List Char} (h : text.count '=' ≠ 1) : split? text = none := by
  cases hs : split? text with
  | none => rfl
  | some sides =>
    obtain ⟨left, right, rfl, hl, hr⟩ := exists_of_split? hs
    refine absurd ?_ h
    rw [List.count_append, List.count_cons_self, List.count_eq_zero.mpr hl, List.count_eq_zero.mpr hr]

end Side

namespace Verdict

/-- The verdict on what the sides have: a failure on the left hides the right. -/
def ofSides : Except (Failure Cause) Dimension → Except (Failure Cause) Dimension → Verdict
  | .error f, _ => .unknown (.side f)
  | .ok _, .error f => .unknown (.side f)
  | .ok a, .ok b => if a.near b then .good a b else .bad a b

theorem of_split? {scope : Scope} {text : List Char} {left right : Side} (h : Side.split? text = some (left, right)) :
    of scope text = ofSides (left.dimension scope) (right.dimension scope) := by
  rw [of, h]
  dsimp only
  cases left.dimension scope with
  | error f => rfl
  | ok a => cases right.dimension scope <;> rfl

theorem ofSides_eq_side {x y : Except (Failure Cause) Dimension} {f : Failure Cause}
    (h : ofSides x y = .unknown (.side f)) : x = .error f ∨ (∃ a, x = .ok a) ∧ y = .error f := by
  cases x with
  | error g =>
    cases h
    exact Or.inl rfl
  | ok a =>
    cases y with
    | error g =>
      cases h
      exact Or.inr ⟨⟨a, rfl⟩, rfl⟩
    | ok b =>
      simp only [ofSides] at h
      split at h
      · cases h
      · cases h

theorem ofSides_conclusive {x y : Except (Failure Cause) Dimension} (h : (ofSides x y).status ≠ .unknown) :
    ∃ a b, x = .ok a ∧ y = .ok b := by
  cases x with
  | error f => exact absurd rfl h
  | ok a =>
    cases y with
    | error f => exact absurd rfl h
    | ok b => exact ⟨a, b, rfl, rfl⟩

/-- Checks an equation on the tokens of its whole text. -/
def inPlace (scope : Scope) (text : List Char) : Verdict :=
  let tokens := tokenize text
  if tokens.countP (·.isOperator "=") = 1 then
    let left := tokens.takeWhile (!·.isOperator "=")
    let equals := tokens.dropWhile (!·.isOperator "=")
    let place := (position text.length equals).toNat
    ofSides (parseTokens scope (Side.ofPiece 0 (text.take place)).stop left)
      (parseTokens scope (Side.ofPiece (place + 1) (text.drop (place + 1))).stop equals.tail)
  else .unknown .notOneEquals

section
variable {left right : List Char}

theorem tokenize_sides (left right : List Char) :
    tokenize (left ++ '=' :: right) = tokenizeFrom (0 : Nat) left ++
      ⟨.operator, "=", left.length, left.length + 1⟩ :: tokenizeFrom (left.length + 1 : Nat) right := by
  have hequals : '=' ∈ operatorChars := by decide
  rw [tokenize, tokenizeFrom_append 0 left (apart_operator hequals right), Int.zero_add,
    tokenizeFrom_operator _ hequals, Int.natCast_add]
  rfl

theorem of_append (scope : Scope) (hl : '=' ∉ left) (hr : '=' ∉ right) :
    of scope (left ++ '=' :: right) =
      ofSides (parseTokens scope (Side.ofPiece 0 left).stop (tokenizeFrom (0 : Nat) left))
        (parseTokens scope (Side.ofPiece (left.length + 1) right).stop (tokenizeFrom (left.length + 1 : Nat) right)) := by
  rw [of_split? (Side.split?_append hl hr), Side.dimension_ofPiece, Side.dimension_ofPiece]

theorem isOperator_eq_false (h : '=' ∉ left) (start : Int) :
    ∀ t ∈ tokenizeFrom start left, t.isOperator "=" = false := by
  have hcount : (tokenizeFrom start left).countP (·.isOperator "=") = 0 := by
    rw [countP_tokenizeFrom, List.count_eq_zero.mpr h]
  intro t ht
  simpa using List.countP_eq_zero.mp hcount t ht

theorem inPlace_append (scope : Scope) (hl : '=' ∉ left) (hr : '=' ∉ right) :
    inPlace scope (left ++ '=' :: right) =
      ofSides ((Side.ofPiece 0 left).dimension scope) ((Side.ofPiece (left.length + 1) right).dimension scope) := by
  have hcount : (tokenize (left ++ '=' :: right)).countP (·.isOperator "=") = 1 := by
    rw [tokenize, countP_tokenizeFrom, List.count_append, List.count_cons_self, List.count_eq_zero.mpr hl,
      List.count_eq_zero.mpr hr]
  have hleft : ∀ t ∈ tokenizeFrom (0 : Nat) left, (!t.isOperator "=") = true := fun t ht => by
    rw [isOperator_eq_false hl _ t ht]
    rfl
  have htake : (tokenize (left ++ '=' :: right)).takeWhile (!·.isOperator "=") = tokenizeFrom (0 : Nat) left := by
    rw [tokenize_sides]
    exact takeWhile_run hleft fun t ht => by
      cases ht
      rfl
  have hdrop : (tokenize (left ++ '=' :: right)).dropWhile (!·.isOperator "=") =
      ⟨.operator, "=", left.length, left.length + 1⟩ :: tokenizeFrom (left.length + 1 : Nat) right := by
    rw [tokenize_sides, List.dropWhile_append_of_pos hleft]
    rfl
  have htext : (left ++ '=' :: right).drop (left.length + 1) = right := by
    rw [List.drop_append, List.drop_of_length_le (Nat.le_succ _)]
    simp
  simp only [inPlace, hcount, if_true, htake, hdrop, position, Int.toNat_natCast, List.take_left, htext, List.tail_cons,
    Side.dimension_ofPiece]

end

/-- The check by sides gives the verdict of the check in place. A failure on the left lies at the equals sign or before
    it, one on the right behind it. -/
theorem of_eq_inPlace (scope : Scope) (text : List Char) :
    of scope text = inPlace scope text ∧
      ∀ f, of scope text = .unknown (.side f) →
        ∃ left right, text = left ++ '=' :: right ∧ '=' ∉ left ∧ '=' ∉ right ∧
          ((Side.ofPiece 0 left).dimension scope = .error f ∧ 0 ≤ f.position ∧ f.position ≤ left.length ∨
            (∃ a, (Side.ofPiece 0 left).dimension scope = .ok a) ∧
              (Side.ofPiece (left.length + 1) right).dimension scope = .error f ∧
              left.length < f.position ∧ f.position ≤ text.length) := by
  by_cases h : text.count '=' = 1
  · obtain ⟨left, right, rfl, hl, hr⟩ := Side.exists_of_count h
    have hof : of scope (left ++ '=' :: right) = _ := of_split? (Side.split?_append hl hr)
    refine ⟨hof.trans (inPlace_append scope hl hr).symm, fun f hf => ⟨left, right, rfl, hl, hr, ?_⟩⟩
    rcases ofSides_eq_side (hof.symm.trans hf) with hx | ⟨hx, hy⟩
    · have hp := Side.position_of_dimension hx
      exact Or.inl ⟨hx, by omega, by omega⟩
    · have hp := Side.position_of_dimension hy
      refine Or.inr ⟨hx, hy, by omega, ?_⟩
      rw [List.length_append, List.length_cons]
      omega
  · have hcount : (tokenize text).countP (·.isOperator "=") ≠ 1 := by
      rwa [tokenize, countP_tokenizeFrom]
    rw [of, inPlace, Side.split?_eq_none h, if_neg hcount]
    exact ⟨rfl, fun f hf => by cases hf⟩

end Verdict

end UnitCheck
