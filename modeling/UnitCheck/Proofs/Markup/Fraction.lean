import UnitCheck.Dimension.Named
import UnitCheck.Proofs.Markup.Complete

/-! # Fractions

The operands of a fraction are read each for itself: the braces around an operand match, so what is between
them is an expression of its own, one group deeper and with the closing brace as its end. The outcome is the
failure of the operand that fails first, or the quotient of both. Where there is a quotient, the operands in
parentheses with `/` between them have the same one. -/

namespace UnitCheck.Markup

/-- Reads tokens inside `depth` groups, all of them one expression that ends at `stop`. -/
def parseInside (scope : Scope) (depth : Nat) (stop : Int) (tokens : List Token) : Except (Failure Cause) Dimension :=
  complete (expression scope (scope.limit.levels - depth)) stop tokens

/-! ### Brackets around tokens -/

/-- A pair of bracket tokens with these texts. -/
structure Brackets (opening closing : String) where
  left : Token
  right : Token
  opens : left.isOperator opening = true
  closes : right.isOperator closing = true

def Brackets.around {opening closing : String} (b : Brackets opening closing) (ts : List Token) : List Token :=
  b.left :: (ts ++ [b.right])

/-- The tokens of a fraction without its operands. -/
structure Fraction where
  command : Token
  kind : command.kind = .command
  text : command.text = "\\frac"
  above : Brackets "\x7b" "\x7d"
  below : Brackets "\x7b" "\x7d"

def Fraction.tokens (f : Fraction) (above below : List Token) : List Token :=
  f.command :: (f.above.around above ++ f.below.around below)

/-- The tokens of a quotient of two parentheses without what is inside them. -/
structure Division where
  above : Brackets "(" ")"
  slash : Token
  operator : slash.isOperator "/" = true
  below : Brackets "(" ")"

def Division.tokens (q : Division) (above below : List Token) : List Token :=
  q.above.around above ++ q.slash :: q.below.around below

/-- What can be an operand: its braces match and nothing in it is denied. -/
structure IsOperand (ts : List Token) : Prop where
  balanced : Balanced ts
  allowed : ∀ t ∈ ts, t.denied? = none

theorem Fraction.command_allowed (f : Fraction) : f.command.denied? = none := by
  rw [Token.denied?, if_pos f.kind, f.text]
  decide

section Allowed
variable {A B : List Token}

theorem Brackets.around_allowed {opening closing : String} (b : Brackets opening closing)
    (h : ∀ t ∈ A, t.denied? = none) : ∀ t ∈ b.around A, t.denied? = none := by
  intro t ht
  simp only [Brackets.around, List.mem_cons, List.mem_append, List.not_mem_nil, or_false] at ht
  rcases ht with rfl | ht | rfl
  · exact Token.denied?_of_isOperator b.opens
  · exact h t ht
  · exact Token.denied?_of_isOperator b.closes

theorem Fraction.tokens_allowed (f : Fraction) (ha : IsOperand A) (hb : IsOperand B) :
    ∀ t ∈ f.tokens A B, t.denied? = none := by
  intro t ht
  rcases List.mem_cons.mp ht with rfl | ht
  · exact f.command_allowed
  · rcases List.mem_append.mp ht with ht | ht
    · exact f.above.around_allowed ha.allowed t ht
    · exact f.below.around_allowed hb.allowed t ht

theorem Division.tokens_allowed (q : Division) (ha : IsOperand A) (hb : IsOperand B) :
    ∀ t ∈ q.tokens A B, t.denied? = none := by
  intro t ht
  rcases List.mem_append.mp ht with ht | ht
  · exact q.above.around_allowed ha.allowed t ht
  · rcases List.mem_cons.mp ht with rfl | ht
    · exact Token.denied?_of_isOperator q.operator
    · exact q.below.around_allowed hb.allowed t ht

end Allowed

/-! ### Operands and quotients -/

/-- The quotient of two readings, as that of a fraction whose command begins at `start`. -/
def quotientOf (start : Int) (above below : Except (Failure Cause) Dimension) : Except (Failure Cause) Dimension := do
  let a ← above
  let b ← below
  (a.div b).mapError fun _ => ⟨.exponentOverflow, start⟩

section Reading
variable {scope : Scope} {read : Reader} {stop : Int} {A B : List Token}

theorem operand_around {limit : Limit} {start : Int} (b : Brackets "\x7b" "\x7d") (h : Balanced A)
    (rest : List Token) :
    operand limit (some read) start (b.around A ++ rest) = (complete read b.right.start A).map (·, rest) := by
  have hl : b.left.opensGroup = true := b.opens
  simp [Brackets.around, operand, group, hl, split?_append b.closes h]

theorem primary_fraction (f : Fraction) (ha : Balanced A) (hb : Balanced B) :
    primary scope (some read) stop (f.tokens A B) =
      (quotientOf f.command.start (complete read f.above.right.start A) (complete read f.below.right.start B)).map
        (·, []) := by
  have hbelow : operand scope.limit (some read) f.command.start (f.below.around B) =
      (complete read f.below.right.start B).map (·, []) := by
    simpa using operand_around f.below hb []
  simp only [Fraction.tokens, primary, f.kind, f.text, if_true, operand_around f.above ha]
  cases complete read f.above.right.start A with
  | error e => rfl
  | ok a =>
    simp only [Except.map, ok_bind, hbelow]
    cases complete read f.below.right.start B with
    | error e => rfl
    | ok b =>
      simp only [ok_bind, quotientOf]
      cases a.div b with
      | error o => rfl
      | ok d => rfl

/-- A list of tokens that is one primary is read as that. -/
theorem complete_of_primary {inner : Option Reader} {t : Token} {tail : List Token}
    {x : Except (Failure Cause) Dimension} (hsign : t.isSign = false) (hd : ∀ u ∈ t :: tail, u.denied? = none)
    (hp : primary scope inner stop (t :: tail) = x.map (·, [])) :
    complete (sum scope inner) stop (t :: tail) = x := by
  simp only [complete, List.isEmpty_cons, firstDenied?_eq_none.mpr hd, sum, dropSign, hsign, term, factor, hp,
    Bool.false_eq_true, if_false]
  cases x with
  | error e => rfl
  | ok d => rfl

end Reading

section Fraction
variable {scope : Scope} {depth : Nat} {A B : List Token}

theorem parseInside_fraction (hdepth : depth < scope.limit.levels) (f : Fraction) (ha : IsOperand A) (hb : IsOperand B)
    (stop : Int) :
    parseInside scope depth stop (f.tokens A B) =
      quotientOf f.command.start (parseInside scope (depth + 1) f.above.right.start A)
        (parseInside scope (depth + 1) f.below.right.start B) := by
  obtain ⟨n, hn⟩ : ∃ n, scope.limit.levels - depth = n + 1 := Nat.exists_eq_add_one.mpr (by omega)
  have hless : scope.limit.levels - (depth + 1) = n := by omega
  have hsign : f.command.isSign = false := by simp [Token.isSign, Token.isOperator, f.kind]
  rw [parseInside, parseInside, parseInside, hn, hless]
  exact complete_of_primary hsign (f.tokens_allowed ha hb) (primary_fraction f ha.balanced hb.balanced)

theorem parseInside_division (hdepth : depth < scope.limit.levels) (q : Division) (ha : IsOperand A) (hb : IsOperand B)
    {p p' : Int} {a b d : Dimension} (hA : parseInside scope (depth + 1) p A = .ok a)
    (hB : parseInside scope (depth + 1) p' B = .ok b) (hd : a.div b = .ok d) (stop : Int) :
    parseInside scope depth stop (q.tokens A B) = .ok d := by
  obtain ⟨-, e, hderA, hleA, hvA⟩ := complete_expression_eq_ok.mp hA
  obtain ⟨-, e', hderB, hleB, hvB⟩ := complete_expression_eq_ok.mp hB
  have hderives : Derives .term (q.tokens A B) (.quotient (.group e) (.group e')) :=
    .quotient (.factor (.primary (.parens q.above.opens hderA q.above.closes))) q.operator
      (.primary (.parens q.below.opens hderB q.below.closes))
  refine complete_expression_eq_ok.mpr ⟨q.tokens_allowed ha hb, _, .unsigned (.term hderives), ?_, ?_⟩
  · simp only [Tree.depth]
    omega
  · simp [Tree.value?, hvA, hvB, Dimension.div?_eq_some.mpr hd]

/-- A fraction is read operand by operand. The reading fails as the operand above does, or else as the one below, or
    else where the quotient overflows, at the command; and what it gives, the operands in parentheses with `/` between
    them give too. -/
theorem parseInside_fraction_cases (scope : Scope) (depth : Nat) (A B : List Token) (f : Fraction) (q : Division)
    (stop stop' : Int) (hdepth : depth < scope.limit.levels) (ha : IsOperand A) (hb : IsOperand B) :
    let above := parseInside scope (depth + 1) f.above.right.start A
    let below := parseInside scope (depth + 1) f.below.right.start B
    let whole := parseInside scope depth stop (f.tokens A B)
    (∀ e, above = .error e → whole = .error e) ∧
    (∀ a e, above = .ok a → below = .error e → whole = .error e) ∧
    (∀ a b d, above = .ok a → below = .ok b → a.div b = .ok d → whole = .ok d) ∧
    (∀ a b o, above = .ok a → below = .ok b → a.div b = .error o →
      ∃ e, whole = .error e ∧ e.cause.code = .malformedExponent ∧ e.position = f.command.start) ∧
    ∀ d, whole = .ok d → parseInside scope depth stop' (q.tokens A B) = .ok d := by
  intro above below whole
  have hwhole : whole = quotientOf f.command.start above below := parseInside_fraction hdepth f ha hb stop
  refine ⟨fun e hA => ?_, fun a e hA hB => ?_, fun a b d hA hB hd => ?_, fun a b o hA hB ho => ?_, fun d hd => ?_⟩
  · rw [hwhole, hA]
    rfl
  · rw [hwhole, hA, hB]
    rfl
  · rw [hwhole, hA, hB, quotientOf, ok_bind, ok_bind, hd]
    rfl
  · refine ⟨⟨.exponentOverflow, f.command.start⟩, ?_, rfl, rfl⟩
    rw [hwhole, hA, hB, quotientOf, ok_bind, ok_bind, ho]
    rfl
  · rw [hwhole] at hd
    obtain ⟨a, hA, hd⟩ := bind_eq_ok.mp hd
    obtain ⟨b, hB, hd⟩ := bind_eq_ok.mp hd
    cases ho : a.div b with
    | error o =>
      rw [ho] at hd
      cases hd
    | ok d' =>
      rw [ho] at hd
      cases hd
      exact parseInside_division hdepth q ha hb hA hB ho stop'

end Fraction

/-- The fraction in `\frac{x_{a}^{2}}{(t)t}`, without its operands. -/
def squares : Fraction where
  command := ⟨.command, "\\frac", 0, 5⟩
  kind := rfl
  text := rfl
  above := ⟨⟨.operator, "\x7b", 5, 6⟩, ⟨.operator, "\x7d", 15, 16⟩, by decide, by decide⟩
  below := ⟨⟨.operator, "\x7b", 16, 17⟩, ⟨.operator, "\x7d", 21, 22⟩, by decide, by decide⟩

/-- The quotient in `(x_{a}^{2})/((t)t)`, without its operands. -/
def squaresInLine : Division where
  above := ⟨⟨.operator, "(", 0, 1⟩, ⟨.operator, ")", 10, 11⟩, by decide, by decide⟩
  slash := ⟨.operator, "/", 11, 12⟩
  operator := by decide
  below := ⟨⟨.operator, "(", 12, 13⟩, ⟨.operator, ")", 17, 18⟩, by decide, by decide⟩

theorem isOperand_of_split? {ts : List Token} (r : Token) (hs : Group.split? 0 (ts ++ [r]) = some ⟨ts, r, []⟩)
    (hd : ∀ t ∈ ts, t.denied? = none) : IsOperand ts :=
  ⟨(split?_eq_some hs).2.2, hd⟩

/-- An operand with braces of its own and one with a group, two groups deep. -/
theorem parseInside_fraction_squares :
    let scope : Scope := ⟨.ofList [("x", .ofBase .length), ("t", .ofBase .time)], .standard⟩
    let A := tokenizeFrom 6 "x_\x7ba\x7d^\x7b2\x7d".toList
    let B := tokenizeFrom 17 "(t)t".toList
    2 < scope.limit.levels ∧ IsOperand A ∧ IsOperand B ∧
      parseInside scope 3 15 A = .ok (.ofInts [(.length, 2)]) ∧ parseInside scope 3 21 B = .ok (.ofInts [(.time, 2)]) ∧
      parseInside scope 2 22 (squares.tokens A B) = .ok (.ofInts [(.length, 2), (.time, -2)]) ∧
      parseInside scope 2 18 (squaresInLine.tokens A B) = .ok (.ofInts [(.length, 2), (.time, -2)]) := by
  intro scope A B
  have hdepth : 2 < scope.limit.levels := by decide
  have ha : IsOperand A := isOperand_of_split? squares.above.right (by decide +kernel) (by decide +kernel)
  have hb : IsOperand B := isOperand_of_split? squares.below.right (by decide +kernel) (by decide +kernel)
  have hA : parseInside scope 3 15 A = .ok (.ofInts [(.length, 2)]) :=
    toOption_eq_some.mp (by decide +kernel)
  have hB : parseInside scope 3 21 B = .ok (.ofInts [(.time, 2)]) :=
    toOption_eq_some.mp (by decide +kernel)
  have hd : Dimension.div (.ofInts [(.length, 2)]) (.ofInts [(.time, 2)]) = .ok (.ofInts [(.length, 2), (.time, -2)]) :=
    toOption_eq_some.mp (by decide +kernel)
  obtain ⟨-, -, hwhole, -, hline⟩ := parseInside_fraction_cases scope 2 A B squares squaresInLine 22 18 hdepth ha hb
  have hfraction := hwhole _ _ _ hA hB hd
  exact ⟨hdepth, ha, hb, hA, hB, hfraction, hline _ hfraction⟩

end UnitCheck.Markup
