import UnitCheck.Binary64.Shortest
import UnitCheck.Text.Digit

/-! # Number texts

The grammar of a number text, white space around it apart:

    number   := sign? ('inf' | 'infinity' | 'nan' | digits? '.'? digits? exponent?)
    exponent := ('e' | 'E') sign? digits

with a digit before or behind the point, words in any case, and digits of any script, in which a single
`_` may stand between two digits. The value is the number nearest to the decimal. -/

namespace UnitCheck.Binary64

open UnitCheck.Text

/-- Decimal exponents beyond which every number of the format is far away. -/
def decimalReach : Int := 400

/-- The number nearest to `digits` times ten to the `exponent`. The position of the first digit settles
    what is out of reach, so that no power of ten is formed that the format does not need. -/
def ofDecimal (negative : Bool) (digits : Nat) (exponent : Int) : Binary64 :=
  let leading := digitCount digits + exponent
  if digits = 0 || leading < -decimalReach then .finite 0
  else if decimalReach < leading then .infinite negative
  else
    let (n, m) := powerOfTen exponent
    ofQuotient negative (digits * n * quantaPerOne) m

/-- An exponent in a number text, behind its `e`. -/
def readExponent? (cs : List Char) : Option Int :=
  let (negative, digits) := splitSign cs
  (digitGroups? digits).map fun ds => if negative then -(ofDigits ds : Int) else ofDigits ds

/-- Digits that may be missing. -/
def optionalDigits? (cs : List Char) : Option (List Char) :=
  if cs.isEmpty then some [] else digitGroups? cs

/-- A mantissa: its digits, and how many of them are behind the point. -/
def readMantissa? (cs : List Char) : Option (List Char × Nat) :=
  let whole := cs.takeWhile (· != '.')
  match cs.dropWhile (· != '.') with
  | [] => (digitGroups? whole).map (·, 0)
  | _ :: fraction =>
    match optionalDigits? whole, optionalDigits? fraction with
    | some ds, some fs => if ds.isEmpty && fs.isEmpty then none else some (ds ++ fs, fs.length)
    | _, _ => none

/-- A decimal number without its sign. -/
def readDecimal? (negative : Bool) (cs : List Char) : Option Binary64 :=
  let isMark := fun c => c == 'e' || c == 'E'
  let mantissa := readMantissa? (cs.takeWhile (!isMark ·))
  let exponent := match cs.dropWhile (!isMark ·) with
    | [] => some 0
    | _ :: rest => readExponent? rest
  match mantissa, exponent with
  | some (digits, behind), some e => some (ofDecimal negative (ofDigits digits) (e - behind))
  | _, _ => none

/-- Reads a number text. -/
def read? (cs : List Char) : Option Binary64 :=
  let (negative, body) := splitSign ((trimSpace cs).map asciiDigit)
  let word := String.ofList (body.map Char.toLower)
  if word = "inf" || word = "infinity" then some (.infinite negative)
  else if word = "nan" then some .nan
  else readDecimal? negative body

end UnitCheck.Binary64
