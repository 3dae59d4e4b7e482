import UnitCheck.Dimension.Named
import UnitCheck.Proofs.Equation.InPlace
import UnitCheck.Proofs.Markup.Complete

/-! # Equations as differences

The check of an equation compares its sides as a sum compares its terms. So instead of `left = right` the
difference `(left)-(right)` can be read, with one level more for the parentheses. It is cut at its brackets
as the equation is at `=`: whatever brackets a side has in its subscripts, a side that can be read is one
phrase, and the parentheses around it are those of the difference. -/

namespace UnitCheck

namespace Markup

/-! ### Sums of two phrases -/

section Sum
variable {scope : Scope} {n : Nat} {stop : Int} {a b : Dimension}

theorem moreTerms_mismatch {s : Token} {tokens rest : List Token} (hs : s.isSign = true)
    (ht : term scope (below scope n) stop tokens = .ok (b, rest)) (hab : a.near b = false) :
    moreTerms scope n stop a (s :: tokens) = .error ⟨.sumMismatch (s.text = "-") a b, s.start⟩ := by
  simp only [moreTerms, List.length_cons, terms, hs, if_true, ht, hab, ok_bind, Bool.false_eq_true, if_false]

/-- All of some tokens are a phrase of at most `n` nested groups with a value, and none of them is denied. -/
def Whole (scope : Scope) (n : Nat) (k : Category) (ts : List Token) (d : Dimension) : Prop :=
  (∀ t ∈ ts, t.denied? = none) ∧ ∃ e, Derives k ts e ∧ e.depth ≤ n ∧ e.value? scope.declared = some d

/-- A sum of two terms has the dimension of the first, or fails at the sign. -/
theorem complete_sum {ts us : List Token} {s : Token} (first : Whole scope n .term ts a) (hs : s.isSign = true)
    (other : Whole scope n .term us b) :
    complete (expression scope n) stop (ts ++ s :: us) =
      if a.near b then .ok a else .error ⟨.sumMismatch (s.text = "-") a b, s.start⟩ := by
  obtain ⟨hdt, e, he, hen, hea⟩ := first
  obtain ⟨hdu, f, hf, hfn, hfb⟩ := other
  have hdenied : firstDenied? (ts ++ s :: us) = none := by
    rw [firstDenied?_eq_none]
    intro t ht
    rcases List.mem_append.mp ht with ht | ht
    · exact hdt t ht
    rcases List.mem_cons.mp ht with rfl | ht
    · rcases Token.isSign_iff.mp hs with h | h
      · exact Token.denied?_of_isOperator h
      · exact Token.denied?_of_isOperator h
    · exact hdu t ht
  have hfirst : expression scope n stop (ts ++ s :: us) = moreTerms scope n stop a (s :: us) :=
    (Derives.term he).found n stop a (s :: us) hen hea hdt fun t ht => by
      cases ht
      exact Or.inl hs
  have hother : term scope (below scope n) stop us = .ok (b, []) := by
    have h := hf.found n stop b [] hfn hfb hdu fun t ht => by cases ht
    rwa [List.append_nil, moreFactors_of_endsTerm fun t ht => by cases ht] at h
  have hne : (ts ++ s :: us).isEmpty = false := by simp
  rw [complete, hne, hdenied]
  simp only [Bool.false_eq_true, if_false, hfirst]
  cases hab : a.near b with
  | true =>
    rw [moreTerms_sign hs hother hab, moreTerms_of_endsSum fun t ht => by cases ht]
    rfl
  | false =>
    rw [moreTerms_mismatch hs hother hab]
    rfl

end Sum

/-! ### Texts in parentheses -/

/-- A text in parentheses. -/
def enclosed (text : List Char) : List Char := '(' :: (text ++ [')'])

/-- Two texts in parentheses, with a minus sign between them. -/
def difference (left right : List Char) : List Char := enclosed left ++ '-' :: enclosed right

theorem length_enclosed (text : List Char) : ((enclosed text).length : Int) = text.length + 2 := by
  simp only [enclosed, List.length_cons, List.length_append, List.length_nil]
  omega

theorem tokenizeFrom_enclosed (start : Int) (text : List Char) :
    tokenizeFrom start (enclosed text) = ⟨.operator, "(", start, start + 1⟩ ::
      (tokenizeFrom (start + 1) text ++ [⟨.operator, ")", start + 1 + text.length, start + 1 + text.length + 1⟩]) := by
  have hl : '(' ∈ operatorChars := by decide
  have hr : ')' ∈ operatorChars := by decide
  rw [enclosed, tokenizeFrom_operator _ hl, tokenizeFrom_append _ _ (apart_operator hr []), tokenizeFrom_operator _ hr,
    tokenizeFrom_nil]

theorem tokenize_difference (left right : List Char) :
    tokenize (difference left right) = tokenizeFrom 0 (enclosed left) ++
      ⟨.operator, "-", left.length + 2, left.length + 3⟩ :: tokenizeFrom (left.length + 3) (enclosed right) := by
  have hminus : '-' ∈ operatorChars := by decide
  rw [tokenize, difference, tokenizeFrom_append _ _ (apart_operator hminus _), tokenizeFrom_operator _ hminus,
    length_enclosed, Int.zero_add, Int.add_assoc _ 2 1]
  rfl

/-- What can be read is a term in parentheses, wherever it begins, and one level deeper. -/
theorem whole_enclosed {declared : Variables} {D stop : Int} (hD : 2 ≤ D ∧ D ≤ 100) {offset : Int} {text : List Char}
    {d : Dimension} (h : parseTokens ⟨declared, .clamp (D - 1)⟩ stop (tokenizeFrom offset text) = .ok d) (start : Int) :
    Whole ⟨declared, .clamp D⟩ (Limit.clamp D).levels .term (tokenizeFrom start (enclosed text)) d := by
  have hmoved : tokenizeFrom (start + 1) text =
      (tokenizeFrom offset text).map (·.place (moveBy (start + 1 - offset))) := by
    rw [← tokenizeFrom_add]
    congr 1
    omega
  have hread : parseTokens ⟨declared, .clamp (D - 1)⟩ ((moveBy (start + 1 - offset)).start stop)
      (tokenizeFrom (start + 1) text) = .ok d := by
    rw [hmoved, parseTokens_place fun _ hlift => hlift, h]
    rfl
  obtain ⟨hdenied, e, he, hdepth, hv⟩ := complete_expression_eq_ok.mp hread
  rw [tokenizeFrom_enclosed]
  refine ⟨fun t ht => ?_, .group e, .factor (.primary (.parens rfl he rfl)), ?_, hv⟩
  · rcases List.mem_cons.mp ht with rfl | ht
    · rfl
    rcases List.mem_append.mp ht with ht | ht
    · exact hdenied t ht
    · obtain rfl := List.mem_singleton.mp ht
      rfl
  · simp only [Limit.clamp] at hdepth ⊢
    simp only [Tree.depth]
    omega

end Markup

namespace Verdict

open Markup

/-- The dimension of the difference of two sides that can be read. -/
theorem parse_difference_of_sides {declared : Variables} {D : Int} (hD : 2 ≤ D ∧ D ≤ 100) {left right : List Char}
    {a b : Dimension} {stop stop' : Int} {offset offset' : Int}
    (ha : parseTokens ⟨declared, .clamp (D - 1)⟩ stop (tokenizeFrom offset left) = .ok a)
    (hb : parseTokens ⟨declared, .clamp (D - 1)⟩ stop' (tokenizeFrom offset' right) = .ok b) :
    parse ⟨declared, .clamp D⟩ (difference left right) =
      if a.near b then .ok a else .error ⟨.sumMismatch true a b, left.length + 2⟩ := by
  have hblank : (difference left right).all Text.isBlank = false := rfl
  have hsign : (⟨.operator, "-", left.length + 2, left.length + 3⟩ : Token).isSign = true := rfl
  rw [parse_of_not_blank _ hblank, parseTokens, tokenize_difference,
    complete_sum (whole_enclosed hD ha 0) hsign (whole_enclosed hD hb _)]
  simp

/-- A good equation has as its difference, with one level more, the dimension of its left side. That of a bad one fails
    with a mismatch at the sign between the sides. -/
theorem parse_difference (declared : Variables) {D : Int} (hD : 2 ≤ D ∧ D ≤ 100) {left right : List Char}
    (hl : '=' ∉ left) (hr : '=' ∉ right) :
    let verdict := of ⟨declared, .clamp (D - 1)⟩ (left ++ '=' :: right)
    let result := parse ⟨declared, .clamp D⟩ (difference left right)
    (∀ a b, verdict = .good a b → result = .ok a) ∧
      ∀ a b, verdict = .bad a b →
        ∃ f, result = .error f ∧ f.cause = .sumMismatch true a b ∧ f.cause.code = .dimensionMismatch ∧
          f.position = (enclosed left).length := by
  intro verdict result
  have hverdict : verdict = ofSides _ _ := of_append _ hl hr
  by_cases hunknown : verdict.status = .unknown
  · constructor
    · intro a b h
      rw [h] at hunknown
      cases hunknown
    · intro a b h
      rw [h] at hunknown
      cases hunknown
  obtain ⟨c, d, hc, hd⟩ := ofSides_conclusive (hverdict ▸ hunknown)
  have hresult : result = _ := parse_difference_of_sides hD hc hd
  rw [hc, hd, ofSides] at hverdict
  cases hnear : c.near d with
  | true =>
    rw [hnear, if_pos rfl] at hverdict hresult
    constructor
    · intro a b h
      cases hverdict.symm.trans h
      exact hresult
    · intro a b h
      cases hverdict.symm.trans h
  | false =>
    rw [hnear, if_neg Bool.false_ne_true] at hverdict hresult
    constructor
    · intro a b h
      cases hverdict.symm.trans h
    · intro a b h
      cases hverdict.symm.trans h
      refine ⟨_, hresult, rfl, rfl, ?_⟩
      rw [length_enclosed]

/-- The brackets in the subscripts match none of the parentheses around them. -/
theorem parse_difference_oddSubscripts :
    let declared : Variables := .ofList [("x", .ofBase .length), ("t", .ofBase .time)]
    let result := parse ⟨declared, .clamp 2⟩ (difference "(x)".toList "t_)".toList)
    parse ⟨declared, .clamp 2⟩ (difference "(x)".toList "x_(".toList) = .ok (.ofBase .length) ∧
      ∃ f, result = .error f ∧ f.cause = .sumMismatch true (.ofBase .length) (.ofBase .time) ∧ f.position = 5 := by
  intro declared result
  have hgood : of ⟨declared, .clamp (2 - 1)⟩ ("(x)".toList ++ '=' :: "x_(".toList) =
      .good (.ofBase .length) (.ofBase .length) := by decide +kernel
  have hbad : of ⟨declared, .clamp (2 - 1)⟩ ("(x)".toList ++ '=' :: "t_)".toList) =
      .bad (.ofBase .length) (.ofBase .time) := by decide +kernel
  have hl : '=' ∉ "(x)".toList := by decide
  have hsame := (parse_difference declared (by decide) hl (by decide)).1 _ _ hgood
  obtain ⟨f, hf, hcause, -, hposition⟩ := (parse_difference declared (by decide) hl (by decide)).2 _ _ hbad
  exact ⟨hsame, f, hf, hcause, hposition⟩

end Verdict

end UnitCheck
