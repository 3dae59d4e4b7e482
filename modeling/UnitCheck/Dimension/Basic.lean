import UnitCheck.Binary64.Basic

/-! # Dimensions

A dimension is a vector of exponents over the seven base quantities. An exponent is zero or has a size of
at least the tolerance: a smaller result of arithmetic counts as zero, so the zero vector is the only
form of a quantity without dimension. Products add exponents, quotients subtract them and powers scale
them, each component rounded once; what leaves the finite numbers has no dimension. -/

namespace UnitCheck

open Binary64 (Finite)

/-- The base quantities. -/
inductive Base where
  | mass | length | time | temperature | current | amount | luminosity
deriving DecidableEq, Repr

namespace Base

/-- The base quantities in the order of the vector. -/
def all : List Base := [mass, length, time, temperature, current, amount, luminosity]

/-- The letters that stand for a base quantity. -/
def symbol : Base → String
  | mass => "M"
  | length => "L"
  | time => "T"
  | temperature => "Th"
  | current => "I"
  | amount => "N"
  | luminosity => "J"

/-- The base quantities in the order of their symbols. -/
def sorted : List Base := [current, luminosity, length, mass, amount, time, temperature]

/-- The base quantity of a symbol. -/
def ofSymbol? (s : String) : Option Base := all.find? fun b => b.symbol = s

theorem mem_all (b : Base) : b ∈ all := by cases b <;> decide

theorem mem_sorted (b : Base) : b ∈ sorted := by cases b <;> decide

theorem ofSymbol?_symbol (b : Base) : ofSymbol? b.symbol = some b := by cases b <;> decide

end Base

namespace Exponent

/-- The tolerance in quanta: the number nearest to 10 ^ -12. -/
def tolerance : Nat := Binary64.nearest Binary64.quantaPerOne (Nat.pow 10 12)

end Exponent

/-- A finite number that is zero or at least the tolerance in size. -/
structure Exponent where
  value : Finite
  significant : value.quanta = 0 ∨ Exponent.tolerance ≤ value.quanta.natAbs
deriving DecidableEq

namespace Exponent

instance : Zero Exponent := ⟨⟨0, .inl rfl⟩⟩

/-- A number as an exponent: zero if it is smaller than the tolerance. -/
def prune (x : Finite) : Exponent :=
  if h : tolerance ≤ x.quanta.natAbs then ⟨x, .inr h⟩ else 0

/-- Whether the exponent is zero. -/
def isZero (e : Exponent) : Bool := e.value.quanta == 0

/-- Whether two exponents differ by less than the tolerance. -/
def near (x y : Exponent) : Bool :=
  match x.value.sub y.value with
  | .finite d => d.quanta.natAbs < tolerance
  | _ => false

end Exponent

/-- A vector of exponents over the base quantities. -/
@[ext] structure Dimension where
  mass : Exponent
  length : Exponent
  time : Exponent
  temperature : Exponent
  current : Exponent
  amount : Exponent
  luminosity : Exponent
deriving DecidableEq

/-- An exponent of a base quantity that is not a finite number. -/
structure Overflow where
  base : Base
  value : Binary64
deriving DecidableEq

namespace Dimension

/-- The exponent of a base quantity. -/
def get (d : Dimension) : Base → Exponent
  | .mass => d.mass
  | .length => d.length
  | .time => d.time
  | .temperature => d.temperature
  | .current => d.current
  | .amount => d.amount
  | .luminosity => d.luminosity

/-- The dimension of given exponents. -/
def ofFn (f : Base → Exponent) : Dimension :=
  ⟨f .mass, f .length, f .time, f .temperature, f .current, f .amount, f .luminosity⟩

@[simp] theorem get_ofFn (f : Base → Exponent) (b : Base) : (ofFn f).get b = f b := by cases b <;> rfl

theorem ext_get {a b : Dimension} (h : ∀ k, a.get k = b.get k) : a = b :=
  Dimension.ext (h .mass) (h .length) (h .time) (h .temperature) (h .current) (h .amount) (h .luminosity)

/-- No dimension: every exponent is zero. -/
def one : Dimension := ofFn fun _ => 0

instance : Inhabited Dimension := ⟨one⟩

/-- The base quantities with an exponent, in the order of their symbols. -/
def bases (d : Dimension) : List Base := Base.sorted.filter fun b => !(d.get b).isZero

/-- The exponents that are not zero, in the order of their symbols. -/
def items (d : Dimension) : List (Base × Exponent) := d.bases.map fun b => (b, d.get b)

/-- Whether every exponent is zero. -/
def isOne (d : Dimension) : Bool := d.bases.isEmpty

/-- Dimensions that count as equal may differ in their exponents, so only the base quantities are hashed. -/
instance : Hashable Dimension := ⟨fun d => hash (d.bases.map Base.symbol)⟩

/-- The dimension of given numbers, small ones taken as zero. The first number that is not finite, in the
    order of `order`, is reported. -/
def ofNumbers (order : List Base) (f : Base → Binary64) : Except Overflow Dimension :=
  match order.find? fun b => (f b).toFinite?.isNone with
  | some b => .error ⟨b, f b⟩
  | none => .ok (ofFn fun b => Exponent.prune ((f b).toFinite?.getD 0))

/-- The product: exponents are added. -/
def mul (a b : Dimension) : Except Overflow Dimension :=
  ofNumbers Base.sorted fun k => (a.get k).value.add (b.get k).value

/-- The quotient: exponents are subtracted. -/
def div (a b : Dimension) : Except Overflow Dimension :=
  ofNumbers Base.sorted fun k => (a.get k).value.sub (b.get k).value

/-- The power: exponents are scaled. A number that is not finite is no power. -/
def pow? (a : Dimension) : Binary64 → Option Dimension
  | .finite x => (ofNumbers Base.sorted fun k => (a.get k).value.mul x).toOption
  | _ => none

/-- Whether two dimensions have the same base quantities, and exponents within the tolerance. -/
def near (a b : Dimension) : Bool :=
  Base.all.all fun k => (a.get k).isZero == (b.get k).isZero && (a.get k).near (b.get k)

/-- The dimension of integer exponents of base quantities, all others zero. -/
def ofInts (es : List (Base × Int)) : Dimension :=
  ofFn fun b => Exponent.prune (((es.lookup b).map Binary64.ofInt).bind Binary64.toFinite? |>.getD 0)

end Dimension

end UnitCheck
