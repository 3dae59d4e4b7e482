import UnitCheck.Binary64.Basic

/-! # The fewest digits that read back

A number is written with the fewest significant decimal digits that still round to it, at most 17, and
with the nearest of those. On the grid of `k` significant digits only the two neighbours of the number
have to be tried: if any point of the grid rounds to the number, one of these two does. -/

namespace UnitCheck.Binary64

/-- The number of decimal digits of a natural number. -/
def digitCount (n : Nat) : Nat := (Nat.toDigits 10 n).length

/-- The exponent of the first significant decimal digit of a positive count of quanta. A quantum is
    above 10 ^ -330, so scaled by that much every count has its digits before the point. -/
def leadingExponent (count : Nat) : Int :=
  (digitCount (count * Nat.pow 10 330 / quantaPerOne) : Int) - 331

/-- A positive decimal number, `digits` times ten to the `exponent`. -/
structure Decimal where
  digits : Nat
  exponent : Int
deriving DecidableEq

/-- Ten to a power, as numerator and denominator. -/
def powerOfTen (e : Int) : Nat × Nat :=
  if e < 0 then (1, Nat.pow 10 e.natAbs) else (Nat.pow 10 e.natAbs, 1)

/-- The count of quanta nearest to a decimal number. -/
def Decimal.nearest (d : Decimal) : Nat :=
  let (n, m) := powerOfTen d.exponent
  Binary64.nearest (d.digits * n * quantaPerOne) m

/-- The neighbours of a count on the grid of multiples of ten to the `exponent`: the floor, and whether
    the one above is nearer (of two as near, the even one). A count on the grid is its own floor. -/
def neighbours (count : Nat) (exponent : Int) : Nat × Bool :=
  let (n, m) := powerOfTen exponent
  let grid := quantaPerOne * n
  let floor := count * m / grid
  let twice := 2 * (count * m % grid)
  (floor, grid < twice || (twice == grid && floor % 2 == 1))

/-- The nearest neighbour on a grid that rounds to the count. -/
def onGrid? (count : Nat) (exponent : Int) : Option Decimal :=
  let (floor, aboveNearer) := neighbours count exponent
  let below : Decimal := ⟨floor, exponent⟩
  let above : Decimal := ⟨floor + 1, exponent⟩
  (if aboveNearer then [above, below] else [below, above]).find? fun d => d.nearest == count

/-- The decimal number of fewest digits that rounds to a positive count of quanta. -/
def shortest (count : Nat) : Decimal :=
  let leading := leadingExponent count
  let grids := (List.range 17).map fun (k : Nat) => leading - k
  (grids.findSome? (onGrid? count)).getD ⟨count, leading⟩

/-- Significant digits without zeros at the end, and the exponent of the first of them. -/
def Decimal.scientific (d : Decimal) : List Char × Int :=
  let all := Nat.toDigits 10 d.digits
  let kept := (all.reverse.dropWhile (· == '0')).reverse
  (kept, d.exponent + all.length - 1)

/-- The exponents of the first digit that are written without an exponent mark. -/
def isPositional (leading : Int) : Bool := -4 ≤ leading && leading < 16

/-- Digits with the point where the exponent of the first digit puts it, and at least one digit on
    either side of the point. -/
def positional (digits : List Char) (leading : Int) : List Char :=
  if leading < 0 then
    '0' :: '.' :: List.replicate (leading.natAbs - 1) '0' ++ digits
  else
    let whole := leading.natAbs + 1
    let fraction := digits.drop whole
    digits.take whole ++ List.replicate (whole - digits.length) '0' ++ '.' ::
      (if fraction.isEmpty then ['0'] else fraction)

/-- Digits with the point behind the first, and the exponent of at least two digits. -/
def exponential (digits : List Char) (leading : Int) : List Char :=
  let exponent := Nat.toDigits 10 leading.natAbs
  digits.take 1 ++ (if digits.length ≤ 1 then [] else '.' :: digits.drop 1) ++
    'e' :: (if leading < 0 then '-' else '+') ::
      (List.replicate (2 - exponent.length) '0' ++ exponent)

/-- The text of a count of quanta. -/
def magnitudeText (count : Nat) : List Char :=
  if count = 0 then ['0', '.', '0']
  else
    let (digits, leading) := (shortest count).scientific
    if isPositional leading then positional digits leading else exponential digits leading

/-- The text of a finite number. -/
def Finite.text (x : Finite) : List Char :=
  if x.quanta < 0 then '-' :: magnitudeText x.quanta.natAbs else magnitudeText x.quanta.natAbs

/-- The text of a number. -/
def text : Binary64 → List Char
  | .finite x => x.text
  | .infinite false => "inf".toList
  | .infinite true => "-inf".toList
  | .nan => "nan".toList

/-- A finite number in the shortest form: an integer by its digits alone, without a point. -/
def Finite.compactText (x : Finite) : List Char :=
  match x.toInt? with
  | some n => (toString n).toList
  | none => x.text

end UnitCheck.Binary64
