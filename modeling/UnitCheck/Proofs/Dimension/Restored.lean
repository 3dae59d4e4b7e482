import UnitCheck.Dimension.Named
import UnitCheck.Proofs.Dimension.Arithmetic

/-! # Products divided back

A product divided by its second factor is near the first one if rounding the sums of exponents does it no
harm. An exponent comes back when the error of its sum, added to it, leaves it within the tolerance of what it
was and outside the tolerance of zero; a sum that is itself within the tolerance of zero does no harm either,
for then the exponents are near each other's negatives. The error is half the spacing of the sum at most, and
so it is below the tolerance up to 4096. -/

namespace UnitCheck

open Binary64 (Finite ofQuanta quantaPerOne)

/-! ### Exponents -/

namespace Exponent

variable {x y : Exponent} {s : Finite}

/-- What rounding has added to the sum. -/
def slip (x y : Exponent) (s : Finite) : Int := s.quanta - (x.value.quanta + y.value.quanta)

/-- Adding an exponent and subtracting it again changes this one by less than the tolerance. -/
def Restored (x y : Exponent) : Prop :=
  x.value.quanta = 0 ∨ (x.value.quanta + y.value.quanta).natAbs < tolerance ∨
    ∃ s r : Finite, x.value.add y.value = .finite s ∧ ofQuanta (x.value.quanta + slip x y s) = .finite r ∧
      tolerance ≤ r.quanta.natAbs ∧ (r.quanta - x.value.quanta).natAbs < tolerance

theorem sub_eq_slip (x y : Exponent) (s : Finite) : s.sub y.value = ofQuanta (x.value.quanta + slip x y s) := by
  have hquanta : x.value.quanta + slip x y s = s.quanta - y.value.quanta := by
    rw [slip]
    omega
  rw [hquanta, Finite.sub]

/-- A sum is below the tolerance exactly when its rounded value is. -/
theorem small_add_iff (hs : x.value.add y.value = .finite s) :
    s.quanta.natAbs < tolerance ↔ (x.value.quanta + y.value.quanta).natAbs < tolerance := by
  have hneg : x.value.quanta - (-y).value.quanta = x.value.quanta + y.value.quanta := by
    change x.value.quanta - -y.value.quanta = _
    rw [Int.sub_neg]
  have hnear : x.near (-y) = true ↔ s.quanta.natAbs < tolerance := by
    rw [near, Finite.sub, hneg, ← Finite.add, hs]
    exact decide_eq_true_iff
  rw [← hnear, near_iff, hneg]

theorem restored_iff (hs : x.value.add y.value = .finite s) :
    x.Restored y ↔ ∃ e, (∃ r, (prune s).value.sub y.value = .finite r ∧ e = prune r) ∧
      (e.value.quanta - x.value.quanta).natAbs < tolerance := by
  by_cases hsmall : s.quanta.natAbs < tolerance
  · -- the sum counts as zero, and the negative of the second exponent comes back
    have hsum := (small_add_iff hs).mp hsmall
    refine iff_of_true (Or.inr (Or.inl hsum)) ⟨-y, ⟨-y.value, ?_, (prune_value (-y)).symm⟩, ?_⟩
    · rw [prune_of_lt hsmall]
      exact Finite.zero_sub _
    · change (-y.value.quanta - x.value.quanta).natAbs < _
      omega
  · have hsum := mt (small_add_iff hs).mpr hsmall
    rw [prune_of_le (Nat.le_of_not_lt hsmall)]
    by_cases hx : x.value.quanta = 0
    · have hzero : x = 0 := ext_quanta hx
      rw [hzero] at hs
      obtain rfl : y.value = s := Binary64.finite.inj ((Finite.zero_add y.value).symm.trans hs)
      refine iff_of_true (Or.inl hx) ⟨0, ⟨0, Finite.sub_self _, (prune_value 0).symm⟩, ?_⟩
      rw [hx]
      exact tolerance_pos
    · rw [Restored, or_iff_right hx, or_iff_right hsum, sub_eq_slip x y s]
      constructor
      · rintro ⟨s', r, hs', hr, hsize, hdiff⟩
        obtain rfl : s' = s := Binary64.finite.inj (hs'.symm.trans hs)
        refine ⟨prune r, ⟨r, hr, rfl⟩, ?_⟩
        rwa [prune_of_le hsize]
      · rintro ⟨_, ⟨r, hr, rfl⟩, hdiff⟩
        have hsize : tolerance ≤ r.quanta.natAbs := by
          by_contra hless
          rw [prune_of_lt (Nat.lt_of_not_le hless)] at hdiff
          refine hx (eq_zero_of_lt ?_)
          change (0 - x.value.quanta).natAbs < tolerance at hdiff
          omega
        rw [prune_of_le hsize] at hdiff
        exact ⟨s, r, hs, hr, hsize, hdiff⟩

/-- A sum that is a number of the format has no error. -/
theorem restored_of_exact (h : Binary64.Representable (x.value.quanta + y.value.quanta).natAbs) : x.Restored y := by
  rcases x.significant with hzero | hsize
  · exact Or.inl hzero
  · refine Or.inr (Or.inr ⟨⟨_, h⟩, x.value, Binary64.ofQuanta_of_representable h, ?_, hsize, ?_⟩)
    · rw [slip, Int.sub_self, Int.add_zero]
      exact Finite.ofQuanta_quanta _
    · rw [Int.sub_self]
      exact tolerance_pos

/-! ### Moderate exponents -/

/-- An exponent is zero or at least twice the tolerance in size, and it and the sum are no larger than 4096. -/
structure Moderate (x y : Exponent) : Prop where
  significant : x.value.quanta = 0 ∨ 2 * tolerance ≤ x.value.quanta.natAbs
  small : x.value.quanta.natAbs ≤ 4096 * quantaPerOne
  sum : (x.value.quanta + y.value.quanta).natAbs ≤ 4096 * quantaPerOne

theorem restored_of_moderate (h : Moderate x y) : x.Restored y := by
  -- up to the number that follows 4096 on the grid, the spacing is below the tolerance
  obtain ⟨unit, hunit⟩ : ∃ unit, unit = Binary64.spacing (4096 * quantaPerOne) := ⟨_, rfl⟩
  obtain ⟨top, htop⟩ : ∃ top, top = 4096 * quantaPerOne + unit := ⟨_, rfl⟩
  have hrep : Binary64.Representable top := by
    rw [htop, hunit]
    decide +kernel
  have hspacing : Binary64.spacing top = unit := by
    rw [htop, hunit]
    decide +kernel
  have htolerance : unit < tolerance := by
    rw [hunit]
    decide +kernel
  have hsmall := h.small
  have hsum := h.sum
  rcases h.significant with hzero | hsize
  · exact Or.inl hzero
  · obtain ⟨s, hs⟩ := Binary64.exists_ofQuanta hrep (z := x.value.quanta + y.value.quanta) (by omega)
    have hslip : 2 * (slip x y s).natAbs ≤ unit := hspacing ▸ Nat.le_trans (Binary64.ofQuanta_error hs)
      (Binary64.spacing_le_of_le (by omega))
    obtain ⟨r, hr⟩ := Binary64.exists_ofQuanta hrep (z := x.value.quanta + slip x y s) (by omega)
    have herror : 2 * (r.quanta - (x.value.quanta + slip x y s)).natAbs ≤ unit := hspacing ▸ Nat.le_trans
      (Binary64.ofQuanta_error hr) (Binary64.spacing_le_of_le (by omega))
    exact Or.inr (Or.inr ⟨s, r, hs, hr, by omega, by omega⟩)

end Exponent

/-! ### Dimensions -/

namespace Dimension

open Exponent (Restored Moderate)

variable {a b c : Dimension}

theorem exists_div_iff (h : a.mul b = .ok c) :
    (∃ d, c.div b = .ok d ∧ d.near a = true) ↔ ∀ k, (a.get k).Restored (b.get k) := by
  simp only [div_eq_ok, near_iff, ← forall_and]
  rw [exists_of_get (P := fun k e => (∃ r, (c.get k).value.sub (b.get k).value = .finite r ∧ e = Exponent.prune r) ∧
    (e.value.quanta - (a.get k).value.quanta).natAbs < Exponent.tolerance)]
  refine forall_congr' fun k => ?_
  obtain ⟨s, hs, hc⟩ := mul_eq_ok.mp h k
  rw [Exponent.restored_iff hs, hc]

/-- A product divided by its second factor is near the first factor exactly when every exponent is restored. That is
    so when no sum is rounded, and when all exponents are moderate. -/
theorem near_div_mul (h : a.mul b = .ok c) :
    ((∃ d, c.div b = .ok d ∧ d.near a = true) ↔ ∀ k, (a.get k).Restored (b.get k)) ∧
      ((∀ k, Binary64.Representable ((a.get k).value.quanta + (b.get k).value.quanta).natAbs) →
        ∃ d, c.div b = .ok d ∧ d.near a = true) ∧
      ((∀ k, (a.get k).Moderate (b.get k)) → ∃ d, c.div b = .ok d ∧ d.near a = true) := by
  have hiff := exists_div_iff h
  refine ⟨hiff, fun hexact => hiff.mpr fun k => ?_, fun hmoderate => hiff.mpr fun k => ?_⟩
  · exact Exponent.restored_of_exact (hexact k)
  · exact Exponent.restored_of_moderate (hmoderate k)

/-- The number nearest to 0.1. -/
def tenth : Exponent := ⟨⟨7205759403792794 * Nat.pow 2 1018, by decide +kernel⟩, by decide +kernel⟩

/-- The number nearest to 0.2. -/
def fifth : Exponent := ⟨⟨7205759403792794 * Nat.pow 2 1019, by decide +kernel⟩, by decide +kernel⟩

/-- Their sum is rounded up, and so the first comes back somewhat larger. -/
theorem near_div_mul_tenth :
    ∃ c, (single .mass tenth).mul (single .mass fifth) = .ok c ∧ c.div (single .mass fifth) ≠ .ok (single .mass tenth) ∧
      ∃ d, c.div (single .mass fifth) = .ok d ∧ d.near (single .mass tenth) = true := by
  obtain ⟨c, hc⟩ : ∃ c, c = ((single .mass tenth).mul (single .mass fifth)).toOption.getD one := ⟨_, rfl⟩
  have hmul : (single .mass tenth).mul (single .mass fifth) = .ok c := by
    rw [hc]
    decide +kernel
  refine ⟨c, hmul, ?_, (near_div_mul hmul).2.2 fun k => ?_⟩
  · rw [hc]
    decide +kernel
  · cases k <;> exact ⟨by decide +kernel, by decide +kernel, by decide +kernel⟩

/-- An exponent beside one of 2 ^ 53 is lost in the sum, and so what comes back has none. -/
theorem not_near_div_mul :
    (ofBase .mass).mul (ofInts [(.mass, 2 ^ 53)]) = .ok (ofInts [(.mass, 2 ^ 53)]) ∧
      (ofInts [(.mass, 2 ^ 53)]).div (ofInts [(.mass, 2 ^ 53)]) = .ok one ∧ one.near (ofBase .mass) = false :=
  ⟨by decide +kernel, by decide +kernel, by decide +kernel⟩

end Dimension

end UnitCheck
