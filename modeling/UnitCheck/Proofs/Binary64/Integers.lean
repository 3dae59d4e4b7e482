import UnitCheck.Proofs.Binary64.Nearest

/-! # Integers of the format

Every integer of a size up to 2 ^ 53 belongs to the format. -/

namespace UnitCheck.Binary64

/-- Every integer up to this size is a number of the format. -/
def Small (k : Int) : Prop := k.natAbs ≤ 2 ^ 53

instance (k : Int) : Decidable (Small k) := inferInstanceAs (Decidable (_ ≤ _))

theorem representable_of_small {k : Nat} (h : k ≤ 2 ^ 53) : Representable (k * quantaPerOne) := by
  have hle : k * quantaPerOne ≤ Nat.pow 2 (53 + fractionBits) :=
    Nat.le_trans (Nat.mul_le_mul_right _ h) (Nat.le_of_eq (Nat.pow_add 2 53 fractionBits).symm)
  have hpow : Representable (Nat.pow 2 (53 + fractionBits)) :=
    representable_two_pow (by rw [fractionBits_eq, allBits_eq]; decide)
  refine ⟨Nat.lt_of_le_of_lt hle hpow.1, ?_⟩
  rcases Nat.eq_or_lt_of_le hle with heq | hlt
  · rw [heq]
    exact hpow.2
  rcases Nat.eq_zero_or_pos k with rfl | hk
  · rw [Nat.zero_mul, Nat.zero_mod]
  have hlog : (k * quantaPerOne).log2 < 53 + fractionBits :=
    (Nat.log2_lt (Nat.ne_of_gt (Nat.mul_pos hk quantaPerOne_pos))).mpr hlt
  have hspacing : spacing (k * quantaPerOne) ∣ quantaPerOne := Nat.pow_dvd_pow 2 (by omega)
  exact Nat.mod_eq_zero_of_dvd (Nat.dvd_mul_left_of_dvd hspacing k)

theorem Small.of_le {j k : Int} (h : Small k) (hj : j.natAbs ≤ k.natAbs) : Small j := Nat.le_trans hj h

namespace Finite

/-- An integer as a number of the format. -/
def ofSmall (k : Int) (h : Small k) : Finite :=
  ⟨k * quantaPerOne, by
    rw [Int.natAbs_mul, Int.natAbs_natCast]
    exact representable_of_small h⟩

theorem toInt?_eq_some {x : Finite} {k : Int} : x.toInt? = some k ↔ x.quanta = k * quantaPerOne := by
  have hpos : (quantaPerOne : Int) ≠ 0 := Int.ne_of_gt (Int.natCast_pos.mpr quantaPerOne_pos)
  unfold toInt?
  constructor
  · intro h
    split at h
    · rename_i hmod
      cases h
      exact (Int.ediv_mul_cancel (Int.dvd_of_emod_eq_zero hmod)).symm
    · cases h
  · intro h
    rw [h, Int.mul_emod_left, if_pos rfl, Int.mul_ediv_cancel k hpos]

end Finite

/-- An integer of the format is not rounded. -/
theorem ofInt_of_small {k : Int} (h : Small k) : ofInt k = .finite (.ofSmall k h) :=
  Finite.ofQuanta_quanta (.ofSmall k h)

end UnitCheck.Binary64
