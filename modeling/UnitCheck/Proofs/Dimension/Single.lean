import Mathlib.Logic.Function.Basic
import UnitCheck.Dimension.Named
import UnitCheck.Proofs.Binary64.Nearest
import UnitCheck.Proofs.Outcome

/-! # Dimensions of one base quantity

A dimension that has no exponent for a base quantity is multiplied or divided by a power of that quantity
without rounding: the one exponent is written, and no other changes. A dimension is near itself, and no
exponent but zero is near its negative. -/

namespace UnitCheck

open Binary64 (Finite)

/-! ### Exponents -/

namespace Exponent

theorem neg_quanta (x : Finite) : (-x).quanta = -x.quanta := rfl

instance : Neg Exponent := ⟨fun e => ⟨-e.value, by
  rw [neg_quanta, Int.neg_eq_zero, Int.natAbs_neg]
  exact e.significant⟩⟩

instance : One Exponent := ⟨⟨1, .inr (by decide +kernel)⟩⟩

theorem ext_value {x y : Exponent} (h : x.value = y.value) : x = y := by
  obtain ⟨x, _⟩ := x
  obtain ⟨y, _⟩ := y
  dsimp only at h
  subst h
  rfl

theorem ext_quanta {x y : Exponent} (h : x.value.quanta = y.value.quanta) : x = y := by
  obtain ⟨⟨x, _⟩, _⟩ := x
  obtain ⟨⟨y, _⟩, _⟩ := y
  dsimp only at h
  subst h
  rfl

theorem tolerance_pos : 0 < tolerance := by decide +kernel

theorem prune_value (e : Exponent) : prune e.value = e := by
  unfold prune
  split
  · rfl
  · rename_i h
    exact ext_quanta (e.significant.resolve_right h).symm

theorem near_refl (e : Exponent) : e.near e = true := by
  rw [near, Finite.sub_self]
  exact decide_eq_true tolerance_pos

/-- An exponent differs from its negative by twice its size. -/
theorem not_near_neg {e : Exponent} (h : e.value.quanta ≠ 0) : (-e).near e = false := by
  have hsize := e.significant.resolve_left h
  have hdifference : (-e).value.quanta - e.value.quanta = -(2 * e.value.quanta) := by
    change -e.value.quanta - e.value.quanta = _
    omega
  rw [near]
  cases hd : (-e).value.sub e.value with
  | finite d =>
    rw [Finite.sub, hdifference] at hd
    have hcount := Binary64.natAbs_of_ofQuotient hd
    rw [Int.natAbs_neg, Int.natAbs_mul, show (2 : Int).natAbs = 2 from rfl,
      Binary64.nearest_two_mul e.value.representable.2] at hcount
    have hpos := tolerance_pos
    exact decide_eq_false (by omega)
  | infinite | nan => rfl

/-- The size of an exponent. -/
def size (e : Exponent) : Exponent := if e.value.quanta < 0 then -e else e

theorem size_value (e : Exponent) : e.size.value = if e.value.quanta < 0 then -e.value else e.value :=
  apply_ite Exponent.value ..

theorem size_pos {e : Exponent} (h : e.value.quanta ≠ 0) : 0 < e.size.value.quanta := by
  rw [size_value]
  split
  · rw [neg_quanta]
    omega
  · omega

theorem size_of_not_neg {e : Exponent} (h : ¬e.value.quanta < 0) : e.size = e := if_neg h

theorem neg_size {e : Exponent} (h : e.value.quanta < 0) : -e.size = e := by
  rw [size, if_pos h]
  exact ext_quanta (Int.neg_neg _)

end Exponent

/-! ### Dimensions -/

namespace Dimension

theorem ofNumbers_finite (order : List Base) {f : Base → Binary64} {g : Base → Exponent}
    (h : ∀ b, f b = .finite (g b).value) : ofNumbers order f = .ok (ofFn g) := by
  have hnone : (order.find? fun b => (f b).toFinite?.isNone) = none :=
    List.find?_eq_none.mpr fun b _ => by simp [h b, Binary64.toFinite?]
  rw [ofNumbers, hnone]
  simp only [h, Binary64.toFinite?, Option.getD_some, Exponent.prune_value]

theorem near_refl (d : Dimension) : d.near d = true :=
  List.all_eq_true.mpr fun b _ => by simp [Exponent.near_refl]

theorem near_get {a d : Dimension} (h : a.near d = true) (b : Base) : (a.get b).near (d.get b) = true := by
  have hb := List.all_eq_true.mp h b (Base.mem_all b)
  exact (Bool.and_eq_true _ _ ▸ hb).2

/-- A power of one base quantity. -/
def single (b : Base) (e : Exponent) : Dimension := ofFn (Function.update 0 b e)

section Single
variable {f : Base → Exponent} {b : Base}

/-- A product with a power of a quantity that is not there writes its exponent. -/
theorem mul_single (h : f b = 0) (e : Exponent) : (ofFn f).mul (single b e) = .ok (ofFn (Function.update f b e)) := by
  refine ofNumbers_finite _ fun k => ?_
  rw [single, get_ofFn, get_ofFn]
  by_cases hk : k = b
  · subst hk
    rw [Function.update_self, Function.update_self, h]
    exact Finite.zero_add e.value
  · rw [Function.update_of_ne hk, Function.update_of_ne hk]
    exact Finite.add_zero (f k).value

/-- A quotient by one writes the negative of its exponent. -/
theorem div_single (h : f b = 0) (e : Exponent) : (ofFn f).div (single b e) = .ok (ofFn (Function.update f b (-e))) := by
  refine ofNumbers_finite _ fun k => ?_
  rw [single, get_ofFn, get_ofFn]
  by_cases hk : k = b
  · subst hk
    rw [Function.update_self, Function.update_self, h]
    exact Finite.zero_sub e.value
  · rw [Function.update_of_ne hk, Function.update_of_ne hk]
    exact Finite.sub_zero (f k).value

/-- A base quantity to the power of an exponent. -/
theorem pow?_single (b : Base) (e : Exponent) : (single b 1).pow? (.finite e.value) = some (single b e) := by
  refine toOption_eq_some.mpr (ofNumbers_finite _ fun k => ?_)
  rw [single, get_ofFn]
  by_cases hk : k = b
  · subst hk
    rw [Function.update_self, Function.update_self]
    exact Finite.one_mul e.value
  · rw [Function.update_of_ne hk, Function.update_of_ne hk]
    exact Finite.zero_mul e.value

theorem ofBase_eq_single (b : Base) : ofBase b = single b 1 := by
  cases b <;> decide +kernel

end Single

end Dimension

end UnitCheck
