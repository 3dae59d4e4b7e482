import UnitCheck.Text.Blank

/-! # Decimal digits of any script

The decimal digits come in runs of ten, from a zero to its nine; the table lists the zeros. Number
texts may use the digits of any script, and all of them read as the ASCII digits. -/

namespace UnitCheck.Text

/-- The code points of the digits zero. -/
def digitZeros : List Nat :=
    [0x30, 0x660, 0x6f0, 0x7c0, 0x966, 0x9e6, 0xa66, 0xae6, 0xb66, 0xbe6, 0xc66, 0xce6, 0xd66,
   0xde6, 0xe50, 0xed0, 0xf20, 0x1040, 0x1090, 0x17e0, 0x1810, 0x1946, 0x19d0, 0x1a80, 0x1a90,
   0x1b50, 0x1bb0, 0x1c40, 0x1c50, 0xa620, 0xa8d0, 0xa900, 0xa9d0, 0xa9f0, 0xaa50, 0xabf0, 0xff10,
   0x104a0, 0x10d30, 0x11066, 0x110f0, 0x11136, 0x111d0, 0x112f0, 0x11450, 0x114d0, 0x11650,
   0x116c0, 0x11730, 0x118e0, 0x11950, 0x11c50, 0x11d50, 0x11da0, 0x16a60, 0x16ac0, 0x16b50,
   0x1d7ce, 0x1d7d8, 0x1d7e2, 0x1d7ec, 0x1d7f6, 0x1e140, 0x1e2f0, 0x1e950, 0x1fbf0]

/-- The value of a decimal digit. -/
def digitValue? (c : Char) : Option Nat :=
  (digitZeros.find? fun z => z ≤ c.toNat && c.toNat < z + 10).map (c.toNat - ·)

/-- A digit as its ASCII form; any other character is left as it is. -/
def asciiDigit (c : Char) : Char :=
  match digitValue? c with
  | some n => Nat.digitChar n
  | none => c

/-- The number that ASCII digits write, most significant first. -/
def ofDigits (cs : List Char) : Nat :=
  cs.foldl (fun n c => 10 * n + (c.toNat - '0'.toNat)) 0

/-- Digits in groups of one or more, a single `_` between two groups; the digits without the marks. -/
def digitGroups? : List Char → Option (List Char)
  | [] => none
  | [c] => if c.isDigit then some [c] else none
  | c :: '_' :: rest => if c.isDigit then (digitGroups? rest).map (c :: ·) else none
  | c :: rest => if c.isDigit then (digitGroups? rest).map (c :: ·) else none

/-- A sign in front of a text: whether it is a minus, and what follows. -/
def splitSign : List Char → Bool × List Char
  | '-' :: rest => (true, rest)
  | '+' :: rest => (false, rest)
  | cs => (false, cs)

/-- The most digits that an integer text may have. -/
def maxIntegerDigits : Nat := 4300

/-- Reads an integer: white space around it, a sign, and grouped digits of any script. -/
def readInteger? (cs : List Char) : Option Int :=
  let (negative, digits) := splitSign ((trimSpace cs).map asciiDigit)
  match digitGroups? digits with
  | none => none
  | some ds =>
    if maxIntegerDigits < ds.length then none
    else some (if negative then -(ofDigits ds : Int) else ofDigits ds)

end UnitCheck.Text
