import UnitCheck.Dimension.Named
import UnitCheck.Proofs.Markup.Complete
import UnitCheck.Proofs.Markup.Live

/-! # Multiplication signs

A product may be written with signs or without. What stands behind a sign begins a factor, and a token that
begins a factor continues none, so the factors of a product stay what they are when they move together. The
signs that may go are the ones outside subscripts; what a subscript holds stays as it is, and so do all
braces, so that they match as before. -/

namespace UnitCheck.Markup

/-- The second list is the first one with some of its multiplication signs left out, none of them in a subscript; a
    subscript ends where the scan for symbols ends it. -/
inductive Thinned : List Token → List Token → Prop where
  | nil : Thinned [] []
  | keep {t : Token} {ts us : List Token} (outside : t.kind ≠ .subscript) (more : Thinned ts us) :
      Thinned (t :: ts) (t :: us)
  | drop {t : Token} {ts us : List Token} (sign : t.isOperator "*" = true) (more : Thinned ts us) :
      Thinned (t :: ts) us
  | subscript {m : Token} {held ts us : List Token} (mark : m.kind = .subscript)
      (ends : dropSubscript (held ++ ts) = ts) (more : Thinned ts us) : Thinned (m :: (held ++ ts)) (m :: (held ++ us))

/-! ### The braces of a list -/

/-- The braces among tokens. -/
def braces (ts : List Token) : List Token := ts.filter fun t => t.opensGroup || t.closesGroup

theorem braces_append (ts us : List Token) : braces (ts ++ us) = braces ts ++ braces us := List.filter_append ..

theorem braces_cons_of_ne {t : Token} (ho : t.opensGroup = false) (hc : t.closesGroup = false) (ts : List Token) :
    braces (t :: ts) = braces ts := by
  simp [braces, ho, hc]

/-- Whether braces match does not depend on what is between them. -/
theorem closesAll_braces {depth : Nat} {ts : List Token} : ClosesAll depth (braces ts) ↔ ClosesAll depth ts := by
  induction ts generalizing depth with
  | nil => rfl
  | cons t ts ih =>
    cases hc : t.closesGroup with
    | true =>
      have hb : braces (t :: ts) = t :: braces ts := by simp [braces, hc]
      rw [hb]
      cases depth with
      | zero => exact iff_of_false (not_closesAll_zero_cons hc) (not_closesAll_zero_cons hc)
      | succ depth => rw [closesAll_cons_of_close hc, closesAll_cons_of_close hc, ih]
    | false =>
      rw [closesAll_cons_of_ne hc]
      cases ho : t.opensGroup with
      | true =>
        have hb : braces (t :: ts) = t :: braces ts := by simp [braces, ho]
        rw [hb, closesAll_cons_of_ne hc, ho]
        exact ih
      | false =>
        rw [braces_cons_of_ne ho hc]
        exact ih

/-! ### What is left of a phrase -/

theorem thinned_cons {t : Token} {ts us : List Token} (ht : t.kind ≠ .subscript) (h : Thinned (t :: ts) us) :
    (∃ us', us = t :: us' ∧ Thinned ts us') ∨ (t.isOperator "*" = true ∧ Thinned ts us) := by
  cases h with
  | keep _ more => exact Or.inl ⟨_, rfl, more⟩
  | drop sign more => exact Or.inr ⟨sign, more⟩
  | subscript mark => exact absurd mark ht

theorem thinned_mark {m : Token} {held rest us : List Token} (hm : m.kind = .subscript)
    (hend : dropSubscript (held ++ rest) = rest) (h : Thinned (m :: (held ++ rest)) us) :
    ∃ us', us = m :: (held ++ us') ∧ Thinned rest us' := by
  generalize htail : held ++ rest = tail at h
  cases h with
  | keep outside => exact absurd hm outside
  | drop sign => exact absurd hm (Token.not_subscript_of_isOperator sign)
  | @subscript _ held' ts us mark ends more =>
    -- The scan decides where the subscript ends, so what it holds is the same in both.
    rw [← htail, hend] at ends
    subst ends
    rw [List.append_cancel_right htail]
    exact ⟨us, rfl, more⟩

/-- Whatever goes from a list that begins with these tokens, what is left of them is a part of its own, with the same
    braces, of which `P` holds. -/
def Leaves (ts : List Token) (P : List Token → Prop) : Prop :=
  ∀ rest us, Thinned (ts ++ rest) us →
    ∃ ts' rest', us = ts' ++ rest' ∧ braces ts' = braces ts ∧ P ts' ∧ Thinned rest rest'

namespace Leaves
variable {ts us : List Token} {P Q : List Token → Prop}

theorem imp (h : Leaves ts P) (hPQ : ∀ ts', P ts' → Q ts') : Leaves ts Q := by
  intro rest us hthin
  obtain ⟨ts', rest', rfl, hbraces, hP, hrest⟩ := h rest us hthin
  exact ⟨ts', rest', rfl, hbraces, hPQ ts' hP, hrest⟩

theorem balanced (h : Leaves ts P) (hb : Balanced ts) : Leaves ts fun ts' => P ts' ∧ Balanced ts' := by
  intro rest us hthin
  obtain ⟨ts', rest', rfl, hbraces, hP, hrest⟩ := h rest us hthin
  have hb' : Balanced ts' := closesAll_braces.mp (hbraces ▸ closesAll_braces.mpr hb)
  exact ⟨ts', rest', rfl, hbraces, ⟨hP, hb'⟩, hrest⟩

theorem append (ht : Leaves ts P) (hu : Leaves us Q) :
    Leaves (ts ++ us) fun vs => ∃ ts' us', vs = ts' ++ us' ∧ P ts' ∧ Q us' := by
  intro rest vs hthin
  rw [List.append_assoc] at hthin
  obtain ⟨ts', behind, rfl, hbt, hP, hthin⟩ := ht _ _ hthin
  obtain ⟨us', rest', rfl, hbu, hQ, hrest⟩ := hu _ _ hthin
  refine ⟨ts' ++ us', rest', (List.append_assoc ..).symm, ?_, ⟨ts', us', rfl, hP, hQ⟩, hrest⟩
  rw [braces_append, braces_append, hbt, hbu]

theorem token {t : Token} (ht : t.kind ≠ .subscript) (hs : t.isOperator "*" = false) : Leaves [t] (· = [t]) := by
  intro rest us hthin
  rcases thinned_cons ht hthin with ⟨us', rfl, hrest⟩ | ⟨hsign, -⟩
  · exact ⟨[t], us', rfl, rfl, rfl, hrest⟩
  · rw [hs] at hsign
    cases hsign

theorem operand {t : Token} (ht : t.kind ≠ .subscript) (hs : t.kind ≠ .operator) : Leaves [t] (· = [t]) :=
  token ht (Token.isOperator_of_kind hs "*")

theorem operator {t : Token} {s : String} (ht : t.isOperator s = true) (hs : s ≠ "*" := by decide) :
    Leaves [t] (· = [t]) :=
  token (Token.not_subscript_of_isOperator ht) (Token.isOperator_ne ht hs)

theorem sign {t : Token} (ht : t.isSign = true) : Leaves [t] (· = [t]) := by
  rcases Token.isSign_iff.mp ht with ht | ht
  · exact operator ht
  · exact operator ht

theorem times {o : Token} (ho : o.isOperator "*" = true) : Leaves [o] fun us => us = [o] ∨ us = [] := by
  intro rest us hthin
  rcases thinned_cons (Token.not_subscript_of_isOperator ho) hthin with ⟨us', rfl, hrest⟩ | ⟨-, hrest⟩
  · exact ⟨[o], us', rfl, rfl, Or.inl rfl, hrest⟩
  · have hbraces : braces [o] = [] :=
      braces_cons_of_ne (Token.isOperator_ne ho (by decide)) (Token.isOperator_ne ho (by decide)) []
    exact ⟨[], us, rfl, hbraces.symm, Or.inr rfl, hrest⟩

theorem subscript (h : Subscript ts) : Leaves ts (· = ts) := by
  intro rest us hthin
  rcases h.ends with rfl | ⟨m, held, rfl, mark, hend⟩
  · exact ⟨[], us, rfl, rfl, rfl, hthin⟩
  · obtain ⟨us', rfl, hrest⟩ := thinned_mark mark (hend rest) hthin
    exact ⟨m :: held, us', rfl, rfl, rfl, hrest⟩

theorem exponent {x : String} (h : Exponent ts x) : Leaves ts (· = ts) := by
  have number {t : Token} (ht : t.kind = .number) : Leaves [t] (· = [t]) := operand (by simp [ht]) (by simp [ht])
  cases h with
  | number hx => exact number hx
  | group left hx right =>
    refine ((operator left).append ((number hx).append (operator right))).imp ?_
    rintro _ ⟨_, _, rfl, rfl, _, _, rfl, rfl, rfl⟩
    rfl
  | signed left hs hx right =>
    refine ((operator left).append ((sign hs).append ((number hx).append (operator right)))).imp ?_
    rintro _ ⟨_, _, rfl, rfl, _, _, rfl, rfl, _, _, rfl, rfl, rfl⟩
    rfl

end Leaves

/-- What is left of a phrase says the same. -/
theorem Derives.leaves {k : Category} {ts : List Token} {e : Tree} (h : Derives k ts e) :
    Leaves ts (Derives k · e) := by
  induction h with
  | number kind =>
    refine (Leaves.operand (by simp [kind]) (by simp [kind])).imp ?_
    rintro _ rfl
    exact .number kind
  | symbol names subscript =>
    refine ((Leaves.operand names.not_subscript names.not_operator).append (.subscript subscript)).imp ?_
    rintro _ ⟨_, _, rfl, rfl, rfl⟩
    exact .symbol names subscript
  | parens left _ right ih =>
    refine ((Leaves.operator left).append (ih.append (.operator right))).imp ?_
    rintro _ ⟨_, _, rfl, rfl, _, _, rfl, inner, rfl⟩
    exact .parens left inner right
  | group _ ih => exact ih.imp fun _ only => .group only
  | fraction kind text _ _ iha ihb =>
    refine ((Leaves.operand (by simp [kind]) (by simp [kind])).append (iha.append ihb)).imp ?_
    rintro _ ⟨_, _, rfl, rfl, _, _, rfl, above, below⟩
    exact (Derives.fraction kind text above below :)
  | braces left balanced _ right ih =>
    refine ((Leaves.operator left).append ((ih.balanced balanced).append (.operator right))).imp ?_
    rintro _ ⟨_, _, rfl, rfl, _, _, rfl, ⟨inner, balanced⟩, rfl⟩
    exact .braces left balanced inner right
  | primary _ ih => exact ih.imp fun _ only => .primary only
  | power _ caret exponent ih =>
    refine (ih.append ((Leaves.operator caret).append (.exponent exponent))).imp ?_
    rintro _ ⟨_, _, rfl, base, _, _, rfl, rfl, rfl⟩
    exact .power base caret exponent
  | factor _ ih => exact ih.imp fun _ only => .factor only
  | times _ operator _ iha ihb =>
    refine (iha.append ((Leaves.times operator).append ihb)).imp ?_
    rintro _ ⟨_, _, rfl, left, _, _, rfl, rfl | rfl, right⟩
    · exact .times left operator right
    · exact .juxtaposed left right
  | quotient _ operator _ iha ihb =>
    refine (iha.append ((Leaves.operator operator).append ihb)).imp ?_
    rintro _ ⟨_, _, rfl, left, _, _, rfl, rfl, right⟩
    exact .quotient left operator right
  | juxtaposed _ _ iha ihb =>
    refine (iha.append ihb).imp ?_
    rintro _ ⟨_, _, rfl, left, right⟩
    exact .juxtaposed left right
  | term _ ih => exact ih.imp fun _ only => .term only
  | sum _ sign _ iha ihb =>
    refine (iha.append ((Leaves.sign sign).append ihb)).imp ?_
    rintro _ ⟨_, _, rfl, first, _, _, rfl, rfl, other⟩
    exact .sum first sign other
  | unsigned _ ih => exact ih.imp fun _ only => .unsigned only
  | signed sign _ ih =>
    refine ((Leaves.sign sign).append ih).imp ?_
    rintro _ ⟨_, _, rfl, rfl, only⟩
    exact .signed sign only

theorem Thinned.sublist {ts us : List Token} (h : Thinned ts us) : us.Sublist ts := by
  induction h with
  | nil => exact List.Sublist.slnil
  | keep _ _ ih => exact ih.cons_cons _
  | drop _ _ ih => exact ih.cons _
  | @subscript m held ts us _ _ _ ih => exact (ih.append_left held).cons_cons m

/-- A list that has a dimension has the same one without some of its multiplication signs, whichever they are. -/
theorem parseTokens_of_thinned (scope : Scope) (stop stop' : Int) (ts us : List Token) (d : Dimension)
    (hd : parseTokens scope stop ts = .ok d) (hthin : Thinned ts us) : parseTokens scope stop' us = .ok d := by
  obtain ⟨hallowed, e, hderives, hle, hv⟩ := complete_expression_eq_ok.mp hd
  obtain ⟨us', rest, rfl, -, hleft, hrest⟩ := hderives.leaves [] us (by rwa [List.append_nil])
  cases hrest
  rw [List.append_nil] at hthin ⊢
  have hallowed' : ∀ t ∈ us', t.denied? = none := fun t ht => hallowed t (hthin.sublist.subset ht)
  exact complete_expression_eq_ok.mpr ⟨hallowed', e, hleft, hle, hv⟩

/-- The tokens of `x_* * t^2 * 3`. -/
def signedProduct : List Token :=
  [⟨.identifier, "x", 0, 1⟩, ⟨.subscript, "_", 1, 2⟩, ⟨.operator, "*", 2, 3⟩, ⟨.operator, "*", 4, 5⟩,
   ⟨.identifier, "t", 6, 7⟩, ⟨.operator, "^", 7, 8⟩, ⟨.number, "2", 8, 9⟩, ⟨.operator, "*", 10, 11⟩,
   ⟨.number, "3", 12, 13⟩]

/-- The same with no sign but the one in the subscript. -/
def bareProduct : List Token :=
  [⟨.identifier, "x", 0, 1⟩, ⟨.subscript, "_", 1, 2⟩, ⟨.operator, "*", 2, 3⟩, ⟨.identifier, "t", 6, 7⟩,
   ⟨.operator, "^", 7, 8⟩, ⟨.number, "2", 8, 9⟩, ⟨.number, "3", 12, 13⟩]

theorem thinned_bareProduct : Thinned signedProduct bareProduct := by
  have hheld : dropSubscript ([⟨.operator, "*", 2, 3⟩] ++ signedProduct.drop 3) = signedProduct.drop 3 := by decide
  refine .keep (by decide) (.subscript rfl hheld ?_)
  refine .drop (by decide) (.keep (by decide) (.keep (by decide) (.keep (by decide) ?_)))
  exact .drop (by decide) (.keep (by decide) .nil)

/-- Without the sign the exponent stands beside the next number. -/
theorem parseTokens_bareProduct :
    let scope : Scope := ⟨.ofList [("x", .ofBase .length), ("t", .ofBase .time)], .standard⟩
    parseTokens scope 13 signedProduct = .ok (.ofInts [(.length, 1), (.time, 2)]) ∧
      Thinned signedProduct bareProduct ∧
      parseTokens scope 13 bareProduct = .ok (.ofInts [(.length, 1), (.time, 2)]) := by
  intro scope
  have hd : parseTokens scope 13 signedProduct = .ok (.ofInts [(.length, 1), (.time, 2)]) :=
    toOption_eq_some.mp (by decide +kernel)
  exact ⟨hd, thinned_bareProduct, parseTokens_of_thinned scope 13 13 _ _ _ hd thinned_bareProduct⟩

end UnitCheck.Markup
