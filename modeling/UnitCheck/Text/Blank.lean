/-! # Blanks

Two classes of white space, and trimming. `isSpace` is the white space property of Unicode; `isBlank`
adds the four separators U+001C to U+001F. A zero-width space and a byte order mark are in neither. -/

namespace UnitCheck.Text

/-- A character with the white space property. -/
def isSpace (c : Char) : Bool :=
  let n := c.toNat
  (9 ≤ n && n ≤ 13) || n == 0x20 || n == 0x85 || n == 0xa0 || n == 0x1680 ||
    (0x2000 ≤ n && n ≤ 0x200a) || n == 0x2028 || n == 0x2029 || n == 0x202f || n == 0x205f || n == 0x3000

/-- A character of white space, or one of the information separators. -/
def isBlank (c : Char) : Bool :=
  isSpace c || (0x1c ≤ c.toNat && c.toNat ≤ 0x1f)

/-- The text without the characters of `p` at its end. -/
def dropEnd (p : Char → Bool) (cs : List Char) : List Char :=
  (cs.reverse.dropWhile p).reverse

/-- The text without blanks at its beginning. -/
def trimStart (cs : List Char) : List Char := cs.dropWhile isBlank

/-- The text without blanks at either end. -/
def trim (cs : List Char) : List Char := dropEnd isBlank (trimStart cs)

/-- The text without white space at either end. -/
def trimSpace (cs : List Char) : List Char := dropEnd isSpace (cs.dropWhile isSpace)

end UnitCheck.Text
