/-! # Binary64 numbers

Finite numbers of the binary64 format are counted in quanta, the smallest positive number 2 ^ -1074: a
count belongs to the format when it is below 2 ^ 2098 and a multiple of the last of its 53 significant
bits. An operation takes the exact result as a quotient of two naturals and rounds it once, to the
nearest multiple, a half to the even one; what reaches 2 ^ 2098 is infinite. There is one zero. -/

namespace UnitCheck

namespace Binary64

/-- The bits of a number below its point. -/
@[irreducible] def fractionBits : Nat := 1074

/-- The bits of a number. -/
@[irreducible] def allBits : Nat := 2098

theorem fractionBits_eq : fractionBits = 1074 := by unfold fractionBits; rfl

theorem allBits_eq : allBits = 2098 := by unfold allBits; rfl

/-- The quanta in one. -/
def quantaPerOne : Nat := Nat.pow 2 fractionBits

/-- The quanta in 2 ^ 1024, which no finite number reaches. -/
def bound : Nat := Nat.pow 2 allBits

/-- The weight of the last of the 53 significant bits of a count. -/
def spacing (n : Nat) : Nat := Nat.pow 2 (n.log2 - 52)

/-- The natural number nearest to `n / d`, a half to the even one. -/
def divideEven (n d : Nat) : Nat :=
  let q := n / d
  let twice := 2 * (n % d)
  if twice < d then q else if d < twice then q + 1 else if q % 2 = 0 then q else q + 1

/-- The count of 53 significant bits nearest to `n / d`. -/
def nearest (n d : Nat) : Nat :=
  let weight := spacing (n / d)
  divideEven n (d * weight) * weight

/-- A count of quanta that the format has. -/
def Representable (n : Nat) : Prop := n < bound ∧ n % spacing n = 0

instance (n : Nat) : Decidable (Representable n) :=
  inferInstanceAs (Decidable (_ ∧ _))

/-- A finite number, by its signed count of quanta. -/
structure Finite where
  quanta : Int
  representable : Representable quanta.natAbs
deriving DecidableEq

end Binary64

/-- A binary64 number. -/
inductive Binary64 where
  | finite (x : Binary64.Finite)
  | infinite (negative : Bool)
  | nan
deriving DecidableEq

namespace Binary64

/-- The number of quanta nearest to `n / d`, with a sign. -/
def ofQuotient (negative : Bool) (n d : Nat) : Binary64 :=
  let count := nearest n d
  if h : Representable count then
    .finite ⟨if negative then -count else count, by split <;> simpa using h⟩
  else .infinite negative

/-- The number nearest to a count of quanta. -/
def ofQuanta (count : Int) : Binary64 := ofQuotient (count < 0) count.natAbs 1

/-- The number nearest to an integer. -/
def ofInt (n : Int) : Binary64 := ofQuanta (n * quantaPerOne)

theorem representable_zero : Representable 0 := by decide +kernel

theorem spacing_two_pow (k : Nat) : spacing (Nat.pow 2 k) = Nat.pow 2 (k - 52) :=
  congrArg (fun b => Nat.pow 2 (b - 52)) Nat.log2_two_pow

theorem representable_two_pow {k : Nat} (h : k < allBits) : Representable (Nat.pow 2 k) := by
  refine ⟨Nat.pow_lt_pow_right (by decide) h, ?_⟩
  rw [spacing_two_pow]
  exact Nat.mod_eq_zero_of_dvd (Nat.pow_dvd_pow 2 (Nat.sub_le k 52))

theorem representable_one : Representable quantaPerOne :=
  representable_two_pow (by rw [fractionBits_eq, allBits_eq]; decide)

namespace Finite

instance : Zero Finite := ⟨⟨0, representable_zero⟩⟩

instance : One Finite := ⟨⟨quantaPerOne, representable_one⟩⟩

instance : Neg Finite := ⟨fun x => ⟨-x.quanta, by simpa using x.representable⟩⟩

/-- The sum, rounded. -/
def add (x y : Finite) : Binary64 := ofQuanta (x.quanta + y.quanta)

/-- The difference, rounded. -/
def sub (x y : Finite) : Binary64 := ofQuanta (x.quanta - y.quanta)

/-- The product, rounded. -/
def mul (x y : Finite) : Binary64 :=
  let product := x.quanta * y.quanta
  ofQuotient (product < 0) product.natAbs quantaPerOne

/-- The integer that the number is, if it is one. -/
def toInt? (x : Finite) : Option Int :=
  if x.quanta % quantaPerOne = 0 then some (x.quanta / quantaPerOne) else none

end Finite

/-- The sum; infinities of opposite signs have none. -/
def add : Binary64 → Binary64 → Binary64
  | .finite x, .finite y => x.add y
  | .nan, _ | _, .nan => .nan
  | .infinite s, .infinite t => if s = t then .infinite s else .nan
  | .infinite s, .finite _ | .finite _, .infinite s => .infinite s

/-- The number with the other sign. -/
def neg : Binary64 → Binary64
  | .finite x => .finite (-x)
  | .infinite s => .infinite !s
  | .nan => .nan

instance : Neg Binary64 := ⟨neg⟩

/-- The number, if it is finite. -/
def toFinite? : Binary64 → Option Finite
  | .finite x => some x
  | _ => none

end Binary64

end UnitCheck
