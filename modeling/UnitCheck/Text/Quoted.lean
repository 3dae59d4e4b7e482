import UnitCheck.Text.Printable

/-! # Quoted text

A text in quotation marks, on one line and free of characters that cannot be seen. The mark is a single
quote, or a double quote where the text holds a single and no double one. A backslash and the mark are
escaped, so are tab, line feed and carriage return by name, and all else that is not printable by its
code point in two, four or eight hexadecimal digits. -/

namespace UnitCheck.Text

/-- A number in lower-case hexadecimal digits, padded with zeros to a width. -/
def hexadecimal (width n : Nat) : List Char :=
  let digits := Nat.toDigits 16 n
  List.replicate (width - digits.length) '0' ++ digits

/-- One character between quotation marks `mark`. -/
def quoteChar (mark c : Char) : List Char :=
  if c == mark || c == '\\' then ['\\', c]
  else if c == '\t' then ['\\', 't']
  else if c == '\n' then ['\\', 'n']
  else if c == '\r' then ['\\', 'r']
  else if isPrintable c then [c]
  else if c.toNat < 0x100 then '\\' :: 'x' :: hexadecimal 2 c.toNat
  else if c.toNat < 0x10000 then '\\' :: 'u' :: hexadecimal 4 c.toNat
  else '\\' :: 'U' :: hexadecimal 8 c.toNat

/-- The mark that a text is put in. -/
def quoteMark (cs : List Char) : Char :=
  if cs.contains '\'' && !cs.contains '"' then '"' else '\''

/-- A text in quotation marks. -/
def quoted (cs : List Char) : List Char :=
  let mark := quoteMark cs
  mark :: cs.flatMap (quoteChar mark) ++ [mark]

/-- A string in quotation marks. -/
def quote (s : String) : String := String.ofList (quoted s.toList)

end UnitCheck.Text
