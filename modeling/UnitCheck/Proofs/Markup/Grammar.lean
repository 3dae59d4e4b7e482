import UnitCheck.Markup.Parser
import UnitCheck.Proofs.Markup.Balance
import UnitCheck.Proofs.Outcome

/-! # The grammar of markup expressions

An expression is a tree of numbers, symbols, groups, fractions, powers, products, quotients and sums.
What a tree says is its value, computed from left to right; which tokens say it is the grammar

    expression := sum | sign sum
    sum        := term | sum sign term
    term       := factor | term '*' factor | term '/' factor | term factor
    factor     := primary | primary '^' exponent
    primary    := number | symbol subscript | '(' expression ')' | group | '\frac' group group
    group      := a brace, an expression, and the brace that matches
    exponent   := number | a number in braces, with a sign or without
    subscript  := nothing | '_' and balanced tokens in braces | '_' and a token that is no opening brace

in which a symbol is a letter or any command but `\frac`. A tree does not show which way a product was
written, which brackets a group has, the signs of its sums, or any subscript: they have no part in the
value. Brackets around an exponent or a subscript are no groups. -/

namespace UnitCheck.Markup

/-- What an expression says. -/
inductive Tree where
  | number
  | symbol (name : String)
  | group (e : Tree)
  | fraction (above below : Tree)
  | power (base : Tree) (exponent : String)
  | times (left right : Tree)
  | quotient (left right : Tree)
  | sum (first other : Tree)

namespace Tree

/-- The dimension of an expression, if its symbols are declared, nothing on the way overflows, and every
    term of a sum has the dimension of the first. -/
def value? (declared : Variables) : Tree → Option Dimension
  | number => some .one
  | symbol name => declared.find? name
  | group e => e.value? declared
  | power base exponent => (base.value? declared).bind fun d => d.raised? exponent
  | times left right =>
    (left.value? declared).bind fun a => (right.value? declared).bind fun b => a.mul? b
  | fraction above below =>
    (above.value? declared).bind fun a => (below.value? declared).bind fun b => a.div? b
  | quotient left right =>
    (left.value? declared).bind fun a => (right.value? declared).bind fun b => a.div? b
  | sum first other =>
    (first.value? declared).bind fun a => (other.value? declared).bind fun b => if a.near b then some a else none

/-- How deep groups nest. -/
def depth : Tree → Nat
  | number | symbol _ => 0
  | group e => e.depth + 1
  | power base _ => base.depth
  | fraction a b | times a b | quotient a b | sum a b => max a.depth b.depth

/-- The symbols, from left to right. -/
def symbols : Tree → List String
  | number => []
  | symbol name => [name]
  | group e => e.symbols
  | power base _ => base.symbols
  | fraction a b | times a b | quotient a b | sum a b => a.symbols ++ b.symbols

theorem find?_isSome_of_value? {declared : Variables} {e : Tree} {d : Dimension} (h : e.value? declared = some d) :
    ∀ s ∈ e.symbols, (declared.find? s).isSome := by
  induction e generalizing d with
  | number => simp [symbols]
  | symbol name =>
    intro s hs
    obtain rfl := List.mem_singleton.mp hs
    exact Option.isSome_of_eq_some h
  | group e ih => exact ih h
  | power base _ ih =>
    obtain ⟨a, ha, -⟩ := Option.bind_eq_some_iff.mp h
    exact ih ha
  | fraction a b iha ihb | times a b iha ihb | quotient a b iha ihb | sum a b iha ihb =>
    obtain ⟨x, hx, hy⟩ := Option.bind_eq_some_iff.mp h
    obtain ⟨y, hy, -⟩ := Option.bind_eq_some_iff.mp hy
    intro s hs
    rcases List.mem_append.mp hs with hs | hs
    · exact iha hx s hs
    · exact ihb hy s hs

end Tree

theorem Token.isOperator_iff {t : Token} {s : String} : t.isOperator s = true ↔ t.kind = .operator ∧ t.text = s := by
  simp [Token.isOperator]

theorem Token.isOperator_ne {t : Token} {s s' : String} (h : t.isOperator s = true) (hs : s ≠ s') :
    t.isOperator s' = false := by
  simp [Token.isOperator, (Token.isOperator_iff.mp h).2, hs]

theorem Token.isOperator_of_kind {t : Token} (h : t.kind ≠ .operator) (s : String) : t.isOperator s = false := by
  simp [Token.isOperator, h]

theorem Token.isSign_iff {t : Token} : t.isSign = true ↔ t.isOperator "+" = true ∨ t.isOperator "-" = true := by
  simp [Token.isSign]

/-- Whether a token is a symbol: the command of fractions is none. -/
def Token.NamesSymbol (t : Token) : Prop := t.kind = .identifier ∨ (t.kind = .command ∧ t.text ≠ "\\frac")

/-- The tokens of a subscript. -/
inductive Subscript : List Token → Prop where
  | none : Subscript []
  | token {m t : Token} (mark : m.kind = .subscript) (plain : t.opensGroup = false) : Subscript [m, t]
  | group {m l r : Token} {ts : List Token} (mark : m.kind = .subscript) (left : l.opensGroup = true)
      (balanced : Balanced ts) (right : r.closesGroup = true) : Subscript (m :: l :: (ts ++ [r]))

/-- The tokens of an exponent, and the text of its number. -/
inductive Exponent : List Token → String → Prop where
  | number {x : Token} (number : x.kind = .number) : Exponent [x] x.text
  | group {l x r : Token} (left : l.opensGroup = true) (number : x.kind = .number)
      (right : r.closesGroup = true) : Exponent [l, x, r] x.text
  | signed {l s x r : Token} (left : l.opensGroup = true) (sign : s.isSign = true) (number : x.kind = .number)
      (right : r.closesGroup = true) : Exponent [l, s, x, r] (s.text ++ x.text)

/-- The categories of the grammar. -/
inductive Category where
  | expression
  | sum
  | term
  | factor
  | primary
  | group

/-- Which tokens say what. -/
inductive Derives : Category → List Token → Tree → Prop where
  | number {t : Token} (kind : t.kind = .number) : Derives .primary [t] .number
  | symbol {t : Token} {ts : List Token} (names : t.NamesSymbol) (subscript : Subscript ts) :
      Derives .primary (t :: ts) (.symbol t.text)
  | parens {l r : Token} {ts : List Token} {e : Tree} (left : l.isOperator "(" = true)
      (inner : Derives .expression ts e) (right : r.isOperator ")" = true) :
      Derives .primary (l :: (ts ++ [r])) (.group e)
  | group {ts : List Token} {e : Tree} (only : Derives .group ts e) : Derives .primary ts e
  | fraction {f : Token} {ts us : List Token} {a b : Tree} (kind : f.kind = .command) (text : f.text = "\\frac")
      (above : Derives .group ts a) (below : Derives .group us b) :
      Derives .primary (f :: (ts ++ us)) (.fraction a b)
  | braces {l r : Token} {ts : List Token} {e : Tree} (left : l.opensGroup = true) (balanced : Balanced ts)
      (inner : Derives .expression ts e) (right : r.closesGroup = true) :
      Derives .group (l :: (ts ++ [r])) (.group e)
  | primary {ts : List Token} {e : Tree} (only : Derives .primary ts e) : Derives .factor ts e
  | power {c : Token} {ts us : List Token} {e : Tree} {x : String} (base : Derives .primary ts e)
      (caret : c.isOperator "^" = true) (exponent : Exponent us x) : Derives .factor (ts ++ c :: us) (.power e x)
  | factor {ts : List Token} {e : Tree} (only : Derives .factor ts e) : Derives .term ts e
  | times {o : Token} {ts us : List Token} {a b : Tree} (left : Derives .term ts a)
      (operator : o.isOperator "*" = true) (right : Derives .factor us b) : Derives .term (ts ++ o :: us) (.times a b)
  | quotient {o : Token} {ts us : List Token} {a b : Tree} (left : Derives .term ts a)
      (operator : o.isOperator "/" = true) (right : Derives .factor us b) :
      Derives .term (ts ++ o :: us) (.quotient a b)
  | juxtaposed {ts us : List Token} {a b : Tree} (left : Derives .term ts a) (right : Derives .factor us b) :
      Derives .term (ts ++ us) (.times a b)
  | term {ts : List Token} {e : Tree} (only : Derives .term ts e) : Derives .sum ts e
  | sum {s : Token} {ts us : List Token} {a b : Tree} (first : Derives .sum ts a) (sign : s.isSign = true)
      (other : Derives .term us b) : Derives .sum (ts ++ s :: us) (.sum a b)
  | unsigned {ts : List Token} {e : Tree} (only : Derives .sum ts e) : Derives .expression ts e
  | signed {s : Token} {ts : List Token} {e : Tree} (sign : s.isSign = true) (only : Derives .sum ts e) :
      Derives .expression (s :: ts) e

/-! ### Where phrases begin -/

theorem Token.NamesSymbol.startsFactor {t : Token} (h : t.NamesSymbol) : t.startsFactor = true := by
  rcases h with h | ⟨h, -⟩ <;> simp [Token.startsFactor, h]

theorem Token.startsFactor_of_opensGroup {t : Token} (h : t.opensGroup = true) : t.startsFactor = true := by
  have hk : t.kind = .operator := by
    simp only [Token.opensGroup, Token.isOperator, Bool.and_eq_true, decide_eq_true_eq] at h
    exact h.1
  simp [Token.startsFactor, hk, h]

/-- All phrases but expressions begin with a token that a factor begins with. -/
theorem Derives.head {k : Category} {ts : List Token} {e : Tree} (h : Derives k ts e) :
    ∃ t tail, ts = t :: tail ∧ (t.startsFactor = true ∨ (k = .expression ∧ t.isSign = true)) := by
  induction h with
  | number kind => exact ⟨_, _, rfl, Or.inl (by simp [Token.startsFactor, kind])⟩
  | symbol names _ => exact ⟨_, _, rfl, Or.inl names.startsFactor⟩
  | parens left _ _ _ =>
    simp only [Token.isOperator, Bool.and_eq_true, decide_eq_true_eq] at left
    exact ⟨_, _, rfl, Or.inl (by simp [Token.startsFactor, left])⟩
  | braces left _ _ _ _ => exact ⟨_, _, rfl, Or.inl (Token.startsFactor_of_opensGroup left)⟩
  | fraction kind _ _ _ _ _ => exact ⟨_, _, rfl, Or.inl (by simp [Token.startsFactor, kind])⟩
  | signed sign _ _ => exact ⟨_, _, rfl, Or.inr ⟨rfl, sign⟩⟩
  | group _ ih | primary _ ih | factor _ ih | term _ ih | unsigned _ ih =>
    obtain ⟨t, tail, rfl, ht | ⟨hk, -⟩⟩ := ih
    · exact ⟨t, tail, rfl, Or.inl ht⟩
    · cases hk
  | power _ _ _ ih | times _ _ _ ih _ | quotient _ _ _ ih _ | juxtaposed _ _ ih _ | sum _ _ _ ih _ =>
    obtain ⟨t, tail, rfl, ht | ⟨hk, -⟩⟩ := ih
    · exact ⟨t, _, rfl, Or.inl ht⟩
    · cases hk

theorem Derives.length_pos {k : Category} {ts : List Token} {e : Tree} (h : Derives k ts e) : 0 < ts.length := by
  obtain ⟨t, tail, rfl, -⟩ := h.head
  exact Nat.succ_pos _

end UnitCheck.Markup
