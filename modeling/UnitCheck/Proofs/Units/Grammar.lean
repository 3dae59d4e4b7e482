import UnitCheck.Proofs.Outcome
import UnitCheck.Units.Parser

/-! # The grammar of unit expressions

An expression is a tree of units, groups, powers, products and quotients. What a tree says is its value,
computed from left to right; which tokens say it is the grammar

    expression := factor | expression '*' factor | expression '/' factor
    factor     := primary | primary '^' number
    primary    := '(' expression ')' | symbol | '1'

in which products and quotients of equal rank lean to the left. -/

namespace UnitCheck.Units

/-- What a unit expression says. -/
inductive Tree where
  | one
  | unit (name : String)
  | group (e : Tree)
  | power (base : Tree) (exponent : String)
  | times (left right : Tree)
  | quotient (left right : Tree)

namespace Tree

/-- The dimension of an expression, if its units are known and nothing on the way overflows. -/
def value? : Tree → Option Dimension
  | one => some .one
  | unit name => find? name
  | group e => e.value?
  | power base exponent => base.value?.bind fun d => d.raised? exponent
  | times left right => left.value?.bind fun a => right.value?.bind fun b => a.mul? b
  | quotient left right => left.value?.bind fun a => right.value?.bind fun b => a.div? b

/-- How deep groups nest. -/
def depth : Tree → Nat
  | one | unit _ => 0
  | group e => e.depth + 1
  | power base _ => base.depth
  | times left right | quotient left right => max left.depth right.depth

end Tree

/-- The categories of the grammar. -/
inductive Category where
  | expression
  | factor
  | primary

/-- Which tokens say what. -/
inductive Derives : Category → List Token → Tree → Prop where
  | one {t : Token} (kind : t.kind = .number) (text : t.text = "1") : Derives .primary [t] .one
  | unit {t : Token} (kind : t.kind = .symbol) : Derives .primary [t] (.unit t.text)
  | group {l r : Token} {ts : List Token} {e : Tree} (left : l.kind = .leftParen)
      (inner : Derives .expression ts e) (right : r.kind = .rightParen) :
      Derives .primary (l :: (ts ++ [r])) (.group e)
  | primary {ts : List Token} {e : Tree} (base : Derives .primary ts e) : Derives .factor ts e
  | power {c x : Token} {ts : List Token} {e : Tree} (base : Derives .primary ts e) (caret : c.kind = .caret)
      (number : x.kind = .number) : Derives .factor (ts ++ [c, x]) (.power e x.text)
  | factor {ts : List Token} {e : Tree} (only : Derives .factor ts e) : Derives .expression ts e
  | times {o : Token} {ts us : List Token} {a b : Tree} (left : Derives .expression ts a)
      (operator : o.kind = .times) (right : Derives .factor us b) :
      Derives .expression (ts ++ o :: us) (.times a b)
  | quotient {o : Token} {ts us : List Token} {a b : Tree} (left : Derives .expression ts a)
      (operator : o.kind = .over) (right : Derives .factor us b) :
      Derives .expression (ts ++ o :: us) (.quotient a b)

/-- Groups take two tokens each and hold a third, so they nest less deep than there are tokens. -/
theorem Derives.depth_lt {k : Category} {ts : List Token} {e : Tree} (h : Derives k ts e) :
    e.depth < ts.length := by
  induction h with
  | one | unit => simp [Tree.depth]
  | group _ _ _ ih =>
    simp only [Tree.depth, List.length_cons, List.length_append, List.length_nil]
    omega
  | primary _ ih | factor _ ih => exact ih
  | power _ _ _ ih =>
    simp only [Tree.depth, List.length_append, List.length_cons, List.length_nil]
    omega
  | times _ _ _ iha ihb | quotient _ _ _ iha ihb =>
    simp only [Tree.depth, List.length_append, List.length_cons]
    omega

theorem Derives.length_pos {k : Category} {ts : List Token} {e : Tree} (h : Derives k ts e) : 0 < ts.length :=
  Nat.zero_lt_of_lt h.depth_lt

theorem Derives.ne_nil {k : Category} {ts : List Token} {e : Tree} (h : Derives k ts e) : ts ≠ [] :=
  List.length_pos_iff.mp h.length_pos

end UnitCheck.Units
