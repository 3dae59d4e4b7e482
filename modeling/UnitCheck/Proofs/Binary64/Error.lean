import UnitCheck.Proofs.Binary64.Nearest

/-! # The error of rounding

Rounding does not pass a number of the format, and moves a count by half of its spacing at most. What it
gives is finite unless the count is above every number of the format. A multiple of the spacing of a number
that is no larger than the number belongs to the format, so close numbers are subtracted without rounding. -/

namespace UnitCheck.Binary64

section Count
variable {n c d m : Nat}

theorem log2_le_log2 (h : c ≤ n) : c.log2 ≤ n.log2 := by
  by_cases hc : c = 0
  · rw [hc, Nat.log2_zero]
    exact Nat.zero_le _
  · exact (Nat.le_log2 (by omega)).mpr (Nat.le_trans (Nat.log2_self_le hc) h)

theorem spacing_pos (n : Nat) : 0 < spacing n := Nat.pow_pos (by decide)

theorem spacing_dvd_of_le (h : c ≤ n) : spacing c ∣ spacing n := spacing_dvd (log2_le_log2 h)

theorem spacing_le_of_le (h : c ≤ n) : spacing c ≤ spacing n := Nat.le_of_dvd (spacing_pos n) (spacing_dvd_of_le h)

/-- A small multiple of the spacing of a number belongs to the format. -/
theorem representable_of_dvd (hc : Representable c) (hle : n ≤ c) (hdvd : spacing c ∣ n) : Representable n :=
  ⟨Nat.lt_of_le_of_lt hle hc.1, Nat.mod_eq_zero_of_dvd (Nat.dvd_trans (spacing_dvd_of_le hle) hdvd)⟩

/-- Rounding goes down when the remainder is a half at most, and up when it is a half at least. -/
theorem divideEven_cases (n d : Nat) :
    divideEven n d = n / d ∧ 2 * (n % d) ≤ d ∨ divideEven n d = n / d + 1 ∧ d ≤ 2 * (n % d) := by
  unfold divideEven
  dsimp only
  split
  · rename_i hless
    exact Or.inl ⟨rfl, Nat.le_of_lt hless⟩
  · rename_i hmore
    split
    · rename_i hless
      exact Or.inr ⟨rfl, Nat.le_of_lt hless⟩
    · rename_i hsame
      split
      · exact Or.inl ⟨rfl, Nat.le_of_not_lt hsame⟩
      · exact Or.inr ⟨rfl, Nat.le_of_not_lt hmore⟩

theorem div_le_divideEven (n d : Nat) : n / d ≤ divideEven n d := by
  rcases divideEven_cases n d with ⟨h, -⟩ | ⟨h, -⟩
  · exact Nat.le_of_eq h.symm
  · rw [h]
    exact Nat.le_succ _

theorem divideEven_le (hd : 0 < d) (h : n ≤ m * d) : divideEven n d ≤ m := by
  rcases divideEven_cases n d with ⟨hq, -⟩ | ⟨hq, hhalf⟩
  · rw [hq]
    exact Nat.div_le_of_le_mul (Nat.mul_comm .. ▸ h)
  · rw [hq]
    refine (Nat.div_lt_iff_lt_mul hd).mpr (Nat.lt_of_le_of_ne h fun heq => ?_)
    rw [heq, Nat.mul_mod_left] at hhalf
    exact absurd hhalf (Nat.not_le_of_lt hd)

theorem divideEven_error (hd : 0 < d) : 2 * n ≤ 2 * (divideEven n d * d) + d ∧ 2 * (divideEven n d * d) ≤ 2 * n + d := by
  have hdiv := Nat.div_add_mod' n d
  have hmod := Nat.mod_lt n hd
  rcases divideEven_cases n d with ⟨h, hhalf⟩ | ⟨h, hhalf⟩
  · rw [h]
    omega
  · have hnext : (n / d + 1) * d = n / d * d + d := Nat.succ_mul ..
    rw [h, hnext]
    omega

theorem nearest_eq (n : Nat) : nearest n 1 = divideEven n (spacing n) * spacing n := by
  rw [nearest, Nat.div_one, Nat.one_mul]

theorem nearest_error (n : Nat) : 2 * n ≤ 2 * nearest n 1 + spacing n ∧ 2 * nearest n 1 ≤ 2 * n + spacing n := by
  rw [nearest_eq]
  exact divideEven_error (spacing_pos n)

/-- Rounding down stops at a number of the format. -/
theorem le_nearest (hc : c % spacing c = 0) (h : c ≤ n) : c ≤ nearest n 1 := by
  have reach {e : Nat} (he : spacing n ∣ e) (hen : e ≤ n) : e ≤ nearest n 1 := by
    obtain ⟨q, rfl⟩ := he
    have hq : q ≤ n / spacing n := (Nat.le_div_iff_mul_le (spacing_pos n)).mpr (Nat.mul_comm .. ▸ hen)
    rw [nearest_eq, Nat.mul_comm]
    exact Nat.mul_le_mul_right _ (Nat.le_trans hq (div_le_divideEven ..))
  rcases Nat.eq_or_lt_of_le (log2_le_log2 h) with heq | hlt
  · exact reach (Nat.dvd_trans (spacing_dvd (Nat.le_of_eq heq.symm)) (Nat.dvd_of_mod_eq_zero hc)) h
  · -- a power of two is between the two
    have hn : n ≠ 0 := by
      rintro rfl
      exact absurd hlt (by simp)
    have hbelow : c ≤ 2 ^ n.log2 :=
      Nat.le_trans (Nat.le_of_lt Nat.lt_log2_self) (Nat.pow_le_pow_right (by decide) hlt)
    exact Nat.le_trans hbelow (reach (Nat.pow_dvd_pow 2 (Nat.sub_le ..)) (Nat.log2_self_le hn))

/-- Rounding up stops at a number of the format. -/
theorem nearest_le (hc : c % spacing c = 0) (h : n ≤ c) : nearest n 1 ≤ c := by
  obtain ⟨q, hq⟩ := Nat.dvd_trans (spacing_dvd_of_le h) (Nat.dvd_of_mod_eq_zero hc)
  rw [Nat.mul_comm] at hq
  rw [nearest_eq, hq]
  exact Nat.mul_le_mul_right _ (divideEven_le (spacing_pos n) (hq ▸ h))

/-- What is rounded has at most 53 significant bits. -/
theorem nearest_mod_spacing (n : Nat) : nearest n 1 % spacing (nearest n 1) = 0 := by
  have hpow : 2 ^ (n.log2 + 1) % spacing (2 ^ (n.log2 + 1)) = 0 := by
    have hspacing := spacing_two_pow (n.log2 + 1)
    rw [Nat.pow_eq] at hspacing
    rw [hspacing]
    exact Nat.mod_eq_zero_of_dvd (Nat.pow_dvd_pow 2 (Nat.sub_le ..))
  have hle : nearest n 1 ≤ 2 ^ (n.log2 + 1) := nearest_le hpow (Nat.le_of_lt Nat.lt_log2_self)
  rcases Nat.lt_or_eq_of_le hle with hlt | heq
  · refine Nat.mod_eq_zero_of_dvd (Nat.dvd_trans (spacing_dvd (m := n) ?_) ?_)
    · by_cases hzero : nearest n 1 = 0
      · rw [hzero, Nat.log2_zero]
        exact Nat.zero_le _
      · exact Nat.le_of_lt_succ ((Nat.log2_lt hzero).mpr hlt)
    · rw [nearest_eq]
      exact Nat.dvd_mul_left ..
  · rw [heq]
    exact hpow

theorem representable_nearest (hc : Representable c) (h : n ≤ c) : Representable (nearest n 1) :=
  ⟨Nat.lt_of_le_of_lt (nearest_le hc.2 h) hc.1, nearest_mod_spacing n⟩

end Count

/-! ### Signed counts -/

section Signed
variable {z : Int} {r : Finite}

theorem ofQuanta_of_representable (h : Representable z.natAbs) : ofQuanta z = .finite ⟨z, h⟩ :=
  Finite.ofQuanta_quanta ⟨z, h⟩

theorem quanta_of_ofQuanta (h : ofQuanta z = .finite r) :
    r.quanta = if z < 0 then -(nearest z.natAbs 1 : Int) else nearest z.natAbs 1 := by
  unfold ofQuanta ofQuotient at h
  dsimp only at h
  split at h
  · cases h
    simp only [decide_eq_true_eq]
  · cases h

/-- A number of the format that a count reaches is reached by what it is rounded to. -/
theorem le_natAbs_of_ofQuanta {c : Nat} (h : ofQuanta z = .finite r) (hc : c % spacing c = 0) (hz : c ≤ z.natAbs) :
    c ≤ r.quanta.natAbs := by
  rw [natAbs_of_ofQuotient h]
  exact le_nearest hc hz

/-- Rounding moves a count by half of its spacing at most. -/
theorem ofQuanta_error (h : ofQuanta z = .finite r) : 2 * (r.quanta - z).natAbs ≤ spacing z.natAbs := by
  have hr := quanta_of_ofQuanta h
  obtain ⟨hbelow, habove⟩ := nearest_error z.natAbs
  split at hr <;> omega

theorem exists_ofQuanta {c : Nat} (hc : Representable c) (hz : z.natAbs ≤ c) : ∃ r, ofQuanta z = .finite r := by
  rw [ofQuanta, ofQuotient, dif_pos (representable_nearest hc hz)]
  exact ⟨_, rfl⟩

end Signed

end UnitCheck.Binary64
