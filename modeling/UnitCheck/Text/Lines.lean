/-! # Lines

A line ends at a line feed, a carriage return (with a line feed behind it the two end one line), a
vertical tab, a form feed, one of U+001C to U+001E, U+0085, U+2028 or U+2029. The last line needs no
end, and a text that ends with a line end has no empty line behind it. -/

namespace UnitCheck.Text

/-- A character that ends a line. -/
def isLineEnd (c : Char) : Bool :=
  let n := c.toNat
  (0xa ≤ n && n ≤ 0xd) || (0x1c ≤ n && n ≤ 0x1e) || n == 0x85 || n == 0x2028 || n == 0x2029

/-- Puts a character before the first line, which begins here if there is none yet. -/
def prependChar (c : Char) : List (List Char) → List (List Char)
  | [] => [[c]]
  | line :: rest => (c :: line) :: rest

/-- The lines of a text, without their ends. -/
def lines : List Char → List (List Char)
  | [] => []
  | '\r' :: '\n' :: rest => [] :: lines rest
  | c :: rest => if isLineEnd c then [] :: lines rest else prependChar c (lines rest)

end UnitCheck.Text
