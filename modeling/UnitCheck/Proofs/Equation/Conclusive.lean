import UnitCheck.Dimension.Named
import UnitCheck.Proofs.Equation.Dependence

/-! # Conclusive verdicts

A reading looks up what the scan for symbols lists: behind every phrase both go on with the same token, and
the only symbols of a phrase that the scan leaves out are commands that wrap a symbol. So where there is a
dimension, or a verdict that both sides have one, every symbol that is listed is declared. -/

namespace UnitCheck

namespace Markup

section Mentions
variable {t : Token} {ts us : List Token}

theorem mentions_nil : mentions [] = [] := by
  rw [mentions]

theorem mentions_cons (h : t.kind ≠ .subscript) (us : List Token) :
    mentions (t :: us) = if t.isSymbol then t.text :: mentions us else mentions us := by
  rw [mentions, if_neg h]

theorem mentions_cons_of_not_symbol (h : t.kind ≠ .subscript) (hs : t.isSymbol = false) (us : List Token) :
    mentions (t :: us) = mentions us := by
  rw [mentions_cons h, hs, if_neg Bool.false_ne_true]

theorem mentions_cons_of_operator {s : String} (h : t.isOperator s = true) (us : List Token) :
    mentions (t :: us) = mentions us := by
  obtain ⟨hk, -⟩ := Token.isOperator_iff.mp h
  exact mentions_cons_of_not_symbol (by simp [hk]) (by simp [Token.isSymbol, hk]) us

theorem mentions_cons_of_sign (h : t.isSign = true) (us : List Token) : mentions (t :: us) = mentions us := by
  rcases Token.isSign_iff.mp h with h | h
  · exact mentions_cons_of_operator h us
  · exact mentions_cons_of_operator h us

theorem mentions_cons_of_number (h : t.kind = .number) (us : List Token) : mentions (t :: us) = mentions us :=
  mentions_cons_of_not_symbol (by simp [h]) (by simp [Token.isSymbol, h]) us

theorem Aligned.mentions_append (h : Aligned ts) (us : List Token) : mentions (ts ++ us) = mentions ts ++ mentions us := by
  rw [mentions_eq, mentions_eq, mentions_eq, h, List.filter_append, List.map_append]

theorem Aligned.mentions_enclosed {l r : Token} {a b : String} (h : Aligned ts) (hl : l.isOperator a = true)
    (hr : r.isOperator b = true) : mentions (l :: (ts ++ [r])) = mentions ts := by
  rw [mentions_cons_of_operator hl, h.mentions_append, mentions_cons_of_operator hr, mentions_nil, List.append_nil]

theorem Exponent.mentions_eq {x : String} (h : Exponent ts x) : mentions ts = [] := by
  cases h with
  | number hx => rw [mentions_cons_of_number hx, mentions_nil]
  | group left hx right =>
    rw [mentions_cons_of_operator left, mentions_cons_of_number hx, mentions_cons_of_operator right, mentions_nil]
  | signed left sign hx right =>
    rw [mentions_cons_of_operator left, mentions_cons_of_sign sign, mentions_cons_of_number hx,
      mentions_cons_of_operator right, mentions_nil]

theorem Token.NamesSymbol.isSymbol_eq (h : t.NamesSymbol) : t.isSymbol = !nonSymbolCommands.contains t.text := by
  have hk : t.kind = .identifier ∨ t.kind = .command := h.imp_right And.left
  simp [Token.isSymbol, hk]

end Mentions

/-- What is listed of the tokens of a phrase are its symbols, in order, without those commands that are no symbols. -/
theorem Derives.mentions_eq {k : Category} {ts : List Token} {e : Tree} (h : Derives k ts e) :
    mentions ts = e.symbols.filter fun s => !nonSymbolCommands.contains s := by
  induction h with
  | number kind => rw [mentions_cons_of_number kind, mentions_nil, Tree.symbols, List.filter_nil]
  | @symbol t ts names subscript =>
    have hts : mentions ts = [] := by rw [Markup.mentions_eq, subscript.live_eq, List.filter_nil, List.map_nil]
    rw [mentions_cons names.not_subscript, hts, names.isSymbol_eq, Tree.symbols, List.filter_cons, List.filter_nil]
  | parens left inner right ih | braces left _ inner right ih =>
    rw [inner.aligned.mentions_enclosed left right]
    exact ih
  | @fraction f ts us a b kind text above _ iha ihb =>
    have hf : f.isSymbol = false := by
      have hno : nonSymbolCommands.contains "\\frac" = true := by decide
      rw [Token.isSymbol, text, hno, Bool.not_true, Bool.and_false]
    rw [mentions_cons_of_not_symbol (by simp [kind]) hf, above.aligned.mentions_append, iha, ihb, Tree.symbols,
      List.filter_append]
  | power base caret exponent ih =>
    rw [base.aligned.mentions_append, mentions_cons_of_operator caret, exponent.mentions_eq, List.append_nil]
    exact ih
  | times left operator _ iha ihb | quotient left operator _ iha ihb =>
    rw [left.aligned.mentions_append, mentions_cons_of_operator operator, iha, ihb, Tree.symbols, List.filter_append]
  | juxtaposed left _ iha ihb => rw [left.aligned.mentions_append, iha, ihb, Tree.symbols, List.filter_append]
  | sum first sign _ iha ihb =>
    rw [first.aligned.mentions_append, mentions_cons_of_sign sign, iha, ihb, Tree.symbols, List.filter_append]
  | signed sign _ ih =>
    rw [mentions_cons_of_sign sign]
    exact ih
  | group _ ih | primary _ ih | factor _ ih | term _ ih | unsigned _ ih => exact ih

section Declared
variable {scope : Scope} {text : List Char} {d : Dimension}

theorem declared_of_parseTokens {stop : Int} {ts : List Token} (h : parseTokens scope stop ts = .ok d) :
    ∀ s ∈ mentions ts, scope.declared.contains s = true := by
  obtain ⟨-, e, he, -, hv⟩ := complete_expression_eq_ok.mp h
  intro s hs
  rw [he.mentions_eq] at hs
  exact Tree.find?_isSome_of_value? hv s (List.mem_of_mem_filter hs)

theorem parseTokens_of_parse (h : parse scope text = .ok d) :
    parseTokens scope text.length (tokenize text) = .ok d := by
  cases hb : text.all Text.isBlank with
  | false => rwa [parse_of_not_blank scope hb] at h
  | true =>
    rw [parse, if_pos hb] at h
    cases h

end Declared

end Markup

namespace Verdict

open Markup

/-- Where a text has a dimension, or both sides of an equation do, all its symbols are declared. -/
theorem declared_of_conclusive (scope : Scope) (text : List Char) :
    (∀ d, parse scope text = .ok d → ∀ s ∈ symbols text, scope.declared.contains s = true) ∧
      ((of scope text).status = .good ∨ (of scope text).status = .bad →
        ∀ s ∈ symbols text, scope.declared.contains s = true) := by
  constructor
  · intro d hd s hs
    rw [symbols, List.mem_eraseDups] at hs
    exact declared_of_parseTokens (parseTokens_of_parse hd) s hs
  · intro hv s hs
    rw [symbols, List.mem_eraseDups] at hs
    by_cases hc : text.count '=' = 1
    · obtain ⟨left, right, rfl, hl, hr⟩ := Side.exists_of_count hc
      rw [of_append scope hl hr] at hv
      have hsides : (ofSides _ _).status ≠ .unknown := fun hu => by
        rw [hu] at hv
        rcases hv with hv | hv <;> cases hv
      obtain ⟨a, b, ha, hb⟩ := ofSides_conclusive hsides
      rw [tokenize_sides, (aligned_of_parseTokens ha).mentions_append] at hs
      rcases List.mem_append.mp hs with hs | hs
      · exact declared_of_parseTokens ha s hs
      · rw [mentions_cons_of_not_symbol (by simp) rfl] at hs
        exact declared_of_parseTokens hb s hs
    · rw [of, Side.split?_eq_none hc] at hv
      rcases hv with hv | hv <;> cases hv

/-- Symbols in a fraction, a subscript that holds a brace, and a command in a subscript that is not declared. -/
def halfSquare : List Char := "E_\x7d = \\frac\x7b1\x7d\x7b2\x7d m_\x7b\\rho\x7d \\left(v_0\\right)^2".toList

theorem declared_halfSquare :
    let scope : Scope := ⟨.ofList [("v", .velocity), ("m", .ofBase .mass), ("E", .energy)], .standard⟩
    symbols halfSquare = ["E", "m", "v"] ∧ (of scope halfSquare).status = .good ∧
      ∀ s ∈ symbols halfSquare, scope.declared.contains s = true := by
  intro scope
  have hsymbols : symbols halfSquare = ["E", "m", "v"] := by decide +kernel
  have hgood : (of scope halfSquare).status = .good := by decide +kernel
  exact ⟨hsymbols, hgood, (declared_of_conclusive scope halfSquare).2 (Or.inl hgood)⟩

end Verdict

end UnitCheck
