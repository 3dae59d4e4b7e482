import UnitCheck.Proofs.Binary64.Integers
import UnitCheck.Proofs.Dimension.Merging

/-! # Laws that rounding keeps

A dimension is near another exactly when their quotient has no exponents. Products do not depend on the order
of their factors, not even in which overflow is reported, and the dimension without exponents and the powers
one and zero change nothing and leave nothing, for exponents of any size. A power fails exactly when its
exponent, or one that it scales, is not finite. -/

namespace UnitCheck

open Binary64 (Finite)

namespace Dimension

variable {a b d : Dimension}

@[simp] theorem get_one (k : Base) : one.get k = 0 := get_ofFn _ k

/-! ### Cancellation -/

theorem sub_of_near {x y : Exponent} :
    x.near y = true ↔ ∃ r, x.value.sub y.value = .finite r ∧ r.quanta.natAbs < Exponent.tolerance := by
  rw [Exponent.near]
  cases hr : x.value.sub y.value with
  | finite r => simp
  | infinite | nan => simp

theorem div_eq_one : a.div b = .ok one ↔ a.near b = true := by
  simp only [div_eq_ok, near_iff, ← Exponent.near_iff, sub_of_near, get_one, eq_comm (a := (0 : Exponent)),
    Exponent.prune_eq_zero]

theorem near_comm (a b : Dimension) : a.near b = b.near a := by
  rw [Bool.eq_iff_iff, near_iff, near_iff]
  refine forall_congr' fun k => ?_
  rw [← Int.natAbs_neg, Int.neg_sub]

theorem bases_of_near (h : a.near b = true) : a.bases = b.bases := by
  refine List.filter_congr fun k _ => ?_
  rw [Exponent.isZero_eq_of_near (near_get h k)]

/-- Dimensions are near each other exactly when there is a quotient and it has no exponents. To be near is reflexive
    and symmetric, and dimensions that are near each other have the same base quantities and are hashed alike. -/
theorem near_iff_isOne_div (a b : Dimension) :
    (a.near b = true ↔ ∃ d, a.div b = .ok d ∧ d.isOne = true) ∧ a.near a = true ∧ a.near b = b.near a ∧
      (a.near b = true → a.bases = b.bases ∧ hash a = hash b) := by
  refine ⟨?_, near_refl a, near_comm a b, fun h => ?_⟩
  · rw [← div_eq_one]
    constructor
    · intro h
      exact ⟨one, h, isOne_iff.mpr rfl⟩
    · rintro ⟨d, hd, hone⟩
      rw [hd, isOne_iff.mp hone]
  · have hbases := bases_of_near h
    refine ⟨hbases, ?_⟩
    change hash (a.bases.map Base.symbol) = hash (b.bases.map Base.symbol)
    rw [hbases]

/-- The number next above one, as an exponent. -/
def aboveOne : Exponent := ⟨⟨Binary64.quantaPerOne + Binary64.spacing Binary64.quantaPerOne, by decide +kernel⟩, by decide +kernel⟩

theorem near_iff_isOne_div_aboveOne :
    (single .length aboveOne).near (ofBase .length) = true ∧ single .length aboveOne ≠ ofBase .length ∧
      (single .length aboveOne).bases = (ofBase .length).bases ∧ hash (single .length aboveOne) = hash (ofBase .length) := by
  have hnear : (single .length aboveOne).near (ofBase .length) = true := by decide +kernel
  refine ⟨hnear, by decide +kernel, ?_⟩
  exact (near_iff_isOne_div _ _).2.2.2 hnear

/-! ### Products and powers -/

theorem mul_comm (a b : Dimension) : a.mul b = b.mul a := by
  have hcomm : (fun k => (a.get k).value.add (b.get k).value) = fun k => (b.get k).value.add (a.get k).value :=
    funext fun k => by rw [Finite.add, Finite.add, Int.add_comm]
  rw [mul, mul, hcomm]

theorem mul_one (a : Dimension) : a.mul one = .ok a := by
  refine mul_eq_ok.mpr fun k => ⟨(a.get k).value, ?_, (Exponent.prune_value _).symm⟩
  rw [get_one]
  exact Finite.add_zero _

theorem div_one (a : Dimension) : a.div one = .ok a := by
  refine div_eq_ok.mpr fun k => ⟨(a.get k).value, ?_, (Exponent.prune_value _).symm⟩
  rw [get_one]
  exact Finite.sub_zero _

theorem div_self (a : Dimension) : a.div a = .ok one := div_eq_one.mpr (near_refl a)

/-- An exponent that is not listed is zero, and no number scales it out of the format. -/
theorem exists_mul_of_not_mem {k : Base} (h : k ∉ a.bases) (x : Finite) : (a.get k).value.mul x = .finite 0 := by
  rw [get_eq_zero h]
  exact Finite.zero_mul x

/-- A power fails when its exponent is not finite, or an exponent that it scales is not. -/
theorem pow?_eq_none {p : Binary64} :
    a.pow? p = none ↔
      p.toFinite? = none ∨ ∃ x, p = .finite x ∧ ∃ item ∈ a.items, (item.2.value.mul x).toFinite? = none := by
  cases p with
  | infinite | nan => simp [pow?, Binary64.toFinite?]
  | finite x =>
    have hpow : a.pow? (.finite x) = none ↔ ¬∀ k, ∃ y, (a.get k).value.mul x = .finite y := by
      rw [Option.eq_none_iff_forall_ne_some, ← not_exists]
      refine not_congr ?_
      simp only [pow?_eq_some]
      rw [exists_of_get (P := fun k e => ∃ y, (a.get k).value.mul x = .finite y ∧ e = Exponent.prune y)]
      refine forall_congr' fun k => ⟨?_, ?_⟩
      · rintro ⟨-, y, hy, -⟩
        exact ⟨y, hy⟩
      · rintro ⟨y, hy⟩
        exact ⟨_, y, hy, rfl⟩
    rw [hpow, not_forall]
    constructor
    · rintro ⟨k, hk⟩
      have hmem : k ∈ a.bases := by
        by_contra hnot
        exact hk ⟨0, exists_mul_of_not_mem hnot x⟩
      exact Or.inr ⟨x, rfl, (k, a.get k), List.mem_map_of_mem hmem, Binary64.toFinite?_eq_none.mpr hk⟩
    · rintro (hnone | ⟨_, hx, item, hitem, hnone⟩)
      · cases hnone
      · cases hx
        obtain ⟨k, -, rfl⟩ := List.mem_map.mp hitem
        exact ⟨k, Binary64.toFinite?_eq_none.mp hnone⟩

theorem raise?_one (a : Dimension) : a.raise? (.number (.integer 1)) = .ok (some a) := by
  have hsmall : Binary64.Small 1 := by decide
  rw [raise?, Number.toBinary64?, Binary64.ofInt_of_small hsmall]
  refine congrArg Except.ok (pow?_eq_some.mpr fun k => ⟨(a.get k).value, Finite.mul_of_quanta ?_, (Exponent.prune_value _).symm⟩)
  change _ * ((1 : Int) * Binary64.quantaPerOne) = _
  rw [Int.one_mul]

theorem raise?_zero (a : Dimension) : a.raise? (.number (.integer 0)) = .ok (some one) := by
  have hsmall : Binary64.Small 0 := by decide
  rw [raise?, Number.toBinary64?, Binary64.ofInt_of_small hsmall]
  refine congrArg Except.ok (pow?_eq_some.mpr fun k => ⟨0, Finite.mul_of_quanta ?_, ?_⟩)
  · change _ * ((0 : Int) * Binary64.quantaPerOne) = 0 * _
    rw [Int.zero_mul, Int.mul_zero]
  · rw [get_one]
    exact (Exponent.prune_value 0).symm

/-- Products do not depend on the order of the factors, and no more do the dimensions built from their exponents merged
    in either order, nor the overflow that is reported. One and the powers one and zero are neutral, and a power to a
    number fails only where its exponent, or one that it scales, is not finite. -/
theorem laws_of_any (a b : Dimension) :
    (a.mul b = b.mul a ∧ combined id a b = combined id b a ∧ combined id a b = (a.mul b).mapError .overflow) ∧
      (a.mul one = .ok a ∧ a.div one = .ok a ∧ a.raise? (.number (.integer 1)) = .ok (some a)) ∧
      (∃ d, a.div a = .ok d ∧ d.isOne = true) ∧ (∃ d, a.raise? (.number (.integer 0)) = .ok (some d) ∧ d.isOne = true) ∧
      ∀ p, ∃ r, a.raise? (.number (.real p)) = .ok r ∧
        (r = none ↔ p.toFinite? = none ∨ ∃ x, p = .finite x ∧ ∃ item ∈ a.items, (item.2.value.mul x).toFinite? = none) ∧
        ∀ d, r = some d ↔ ∃ x, p = .finite x ∧ ∀ k, ∃ y, (a.get k).value.mul x = .finite y ∧ d.get k = Exponent.prune y := by
  have hmerged : combined id a b = combined id b a := by rw [combined_id, combined_id, mul_comm]
  refine ⟨⟨mul_comm a b, hmerged, combined_id a b⟩, ⟨mul_one a, div_one a, raise?_one a⟩, ⟨one, div_self a, ?_⟩,
    ⟨one, raise?_zero a, ?_⟩, fun p => ⟨a.pow? p, rfl, pow?_eq_none, fun d => ?_⟩⟩
  · exact isOne_iff.mpr rfl
  · exact isOne_iff.mpr rfl
  · cases p with
    | finite x => simp [pow?_eq_some]
    | infinite | nan => simp [pow?]

end Dimension

end UnitCheck
