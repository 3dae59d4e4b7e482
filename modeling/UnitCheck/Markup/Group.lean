import UnitCheck.Markup.Token

/-! # Brace groups

The brace that closes a group is the first one behind its opening brace at which as many braces have
closed as opened. -/

namespace UnitCheck.Markup

/-- A brace group: the tokens between its braces, the closing brace, and the tokens behind it. -/
structure Group where
  inner : List Token
  close : Token
  rest : List Token
deriving DecidableEq

/-- The group with one more token at its beginning. -/
def Group.prepend (t : Token) (g : Group) : Group := { g with inner := t :: g.inner }

/-- Splits the tokens behind an opening brace at the brace that closes its group, with `depth` further
    groups open. -/
def Group.split? (depth : Nat) : List Token → Option Group
  | [] => none
  | t :: rest =>
    if t.closesGroup then
      match depth with
      | 0 => some ⟨[], t, rest⟩
      | depth + 1 => (split? depth rest).map (·.prepend t)
    else (split? (if t.opensGroup then depth + 1 else depth) rest).map (·.prepend t)

end UnitCheck.Markup
