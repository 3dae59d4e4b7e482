import UnitCheck.Binary64.Shortest
import UnitCheck.Proofs.Binary64.Nearest
import UnitCheck.Proofs.Text.Numeral

/-! # The shortest decimal

The shortest decimal number of a count rounds to it. On the grid of 17 significant digits the neighbour that
is nearer to the count is close to it, so a grid is found. The digits found are as many as the grid has, or
they are the next power of ten. -/

namespace UnitCheck.Binary64

open UnitCheck.Text

/-! ### Counting digits -/

section DigitCount
variable {n k : Nat}

theorem digitCount_le_iff (hk : 0 < k) : digitCount n ≤ k ↔ n < 10 ^ k := Nat.length_toDigits_le_iff (by decide) hk

theorem digitCount_pos : 0 < digitCount n := Nat.length_toDigits_pos

theorem digitCount_eq (low : 10 ^ k ≤ n) (high : n < 10 ^ (k + 1)) : digitCount n = k + 1 := by
  refine Nat.le_antisymm ((digitCount_le_iff k.succ_pos).mpr high) (Nat.lt_of_not_le fun hle => ?_)
  have hpos : 0 < k := Nat.lt_of_lt_of_le digitCount_pos hle
  exact Nat.not_lt_of_le low ((digitCount_le_iff hpos).mp hle)

theorem lt_pow_digitCount : n < 10 ^ digitCount n := (digitCount_le_iff digitCount_pos).mp (Nat.le_refl _)

theorem pow_digitCount_le (hn : 0 < n) : 10 ^ (digitCount n - 1) ≤ n := by
  by_contra hlt
  rcases Nat.eq_zero_or_pos (digitCount n - 1) with h0 | hpos
  · rw [h0] at hlt
    omega
  · have hle := (digitCount_le_iff hpos).mpr (Nat.lt_of_not_le hlt)
    omega

theorem digitCount_mul_pow (hn : 0 < n) (t : Nat) : digitCount (n * 10 ^ t) = digitCount n + t := by
  have hlow := Nat.mul_le_mul_right (10 ^ t) (pow_digitCount_le hn)
  have hhigh := Nat.mul_lt_mul_of_pos_right (lt_pow_digitCount (n := n)) (Nat.pow_pos (n := t) (Nat.succ_pos 9))
  have hpos := digitCount_pos (n := n)
  rw [← Nat.pow_add] at hlow hhigh
  rw [digitCount_eq (k := digitCount n - 1 + t) hlow (by rwa [show digitCount n - 1 + t + 1 = digitCount n + t by omega])]
  omega

end DigitCount

/-! ### Powers of ten -/

theorem powerOfTen_pos (e : Int) : 0 < (powerOfTen e).1 ∧ 0 < (powerOfTen e).2 := by
  unfold powerOfTen
  split
  · exact ⟨Nat.one_pos, Nat.pow_pos (by decide)⟩
  · exact ⟨Nat.pow_pos (by decide), Nat.one_pos⟩

/-- Ten to a difference is the quotient of the powers. -/
theorem powerOfTen_sub {e : Int} {a b : Nat} (he : e = a - b) : (powerOfTen e).1 * 10 ^ b = 10 ^ a * (powerOfTen e).2 := by
  subst he
  unfold powerOfTen
  split
  · have hsum : a + (a - b : Int).natAbs = b := by omega
    rw [Nat.one_mul, Nat.pow_eq, ← Nat.pow_add, hsum]
  · have hsum : (a - b : Int).natAbs + b = a := by omega
    rw [Nat.mul_one, Nat.pow_eq, ← Nat.pow_add, hsum]

theorem Decimal.nearest_eq (d : Decimal) :
    d.nearest = Binary64.nearest (d.digits * (powerOfTen d.exponent).1 * quantaPerOne) (powerOfTen d.exponent).2 := rfl

/-! ### The first digit -/

section Grid
variable {count : Nat}

theorem exists_leadingExponent (h : 0 < count) :
    ∃ j s : Nat, leadingExponent count = j - s ∧ 10 ^ j * quantaPerOne ≤ count * Nat.pow 10 s ∧
      count * Nat.pow 10 s < 10 ^ (j + 1) * quantaPerOne := by
  obtain ⟨s, hs⟩ : ∃ s, s = 330 := ⟨_, rfl⟩
  have hquantum : quantaPerOne ≤ Nat.pow 10 s := hs ▸ (by decide +kernel)
  have hleading : leadingExponent count = (digitCount (count * Nat.pow 10 s / quantaPerOne) : Int) - 331 := by
    rw [hs, leadingExponent]
  have hpos : 0 < count * Nat.pow 10 s / quantaPerOne :=
    Nat.div_pos (Nat.le_trans hquantum (Nat.le_mul_of_pos_left _ h)) quantaPerOne_pos
  have hlow := (Nat.le_div_iff_mul_le quantaPerOne_pos).mp (pow_digitCount_le hpos)
  have hhigh := (Nat.div_lt_iff_lt_mul quantaPerOne_pos).mp (lt_pow_digitCount (n := count * Nat.pow 10 s / quantaPerOne))
  have hcount := digitCount_pos (n := count * Nat.pow 10 s / quantaPerOne)
  rw [← Nat.sub_add_cancel hcount] at hhigh
  exact ⟨_, s, by omega, hlow, hhigh⟩

/-- The first digit of a count stands at a power of ten or above it when the count is that power at least. -/
theorem le_leadingExponent {a b : Nat} (h : 0 < count) :
    (a - b : Int) ≤ leadingExponent count ↔ 10 ^ a * quantaPerOne ≤ count * 10 ^ b := by
  obtain ⟨j, s, hj, hlow, hhigh⟩ := exists_leadingExponent h
  rw [Nat.pow_eq] at hlow hhigh
  have hten : (1 : Nat) < 10 := by decide
  rw [hj]
  constructor
  · intro hle
    have hexp : 10 ^ (a + s) ≤ 10 ^ (j + b) := Nat.pow_le_pow_right (by decide) (by omega)
    rw [Nat.pow_add, Nat.pow_add] at hexp
    refine Nat.le_of_mul_le_mul_right (c := 10 ^ s) ?_ (Nat.pow_pos (by decide))
    calc 10 ^ a * quantaPerOne * 10 ^ s = 10 ^ a * 10 ^ s * quantaPerOne := Nat.mul_right_comm ..
      _ ≤ 10 ^ j * 10 ^ b * quantaPerOne := Nat.mul_le_mul_right _ hexp
      _ = 10 ^ j * quantaPerOne * 10 ^ b := Nat.mul_right_comm ..
      _ ≤ count * 10 ^ s * 10 ^ b := Nat.mul_le_mul_right _ hlow
      _ = count * 10 ^ b * 10 ^ s := Nat.mul_right_comm ..
  · intro hle
    have hexp : 10 ^ (a + s) < 10 ^ (j + 1 + b) := by
      rw [Nat.pow_add, Nat.pow_add]
      refine Nat.lt_of_mul_lt_mul_right (a := quantaPerOne) ?_
      calc 10 ^ a * 10 ^ s * quantaPerOne = 10 ^ a * quantaPerOne * 10 ^ s := Nat.mul_right_comm ..
        _ ≤ count * 10 ^ b * 10 ^ s := Nat.mul_le_mul_right _ hle
        _ = count * 10 ^ s * 10 ^ b := Nat.mul_right_comm ..
        _ < 10 ^ (j + 1) * quantaPerOne * 10 ^ b := Nat.mul_lt_mul_of_pos_right hhigh (Nat.pow_pos (by decide))
        _ = 10 ^ (j + 1) * 10 ^ b * quantaPerOne := Nat.mul_right_comm ..
    have := (Nat.pow_lt_pow_iff_right hten).mp hexp
    omega

/-! ### Grids -/

theorem grid_bounds (h : 0 < count) {k : Nat} {e : Int} (he : e = leadingExponent count - k) :
    10 ^ k * (quantaPerOne * (powerOfTen e).1) ≤ count * (powerOfTen e).2 ∧
      count * (powerOfTen e).2 < 10 ^ (k + 1) * (quantaPerOne * (powerOfTen e).1) := by
  obtain ⟨a, b, hab⟩ : ∃ a b : Nat, leadingExponent count = a - b :=
    ⟨(leadingExponent count).toNat, (-leadingExponent count).toNat, by omega⟩
  have hlow := (le_leadingExponent h).mp (Int.le_of_eq hab.symm)
  have hhigh : count * 10 ^ b < 10 ^ (a + 1) * quantaPerOne := by
    refine Nat.lt_of_not_le fun hle => ?_
    have := (le_leadingExponent h).mpr hle
    omega
  have hpow := powerOfTen_sub (e := e) (a := a) (b := b + k) (by omega)
  have hm := (powerOfTen_pos e).2
  generalize (powerOfTen e).1 = n at *
  generalize (powerOfTen e).2 = m at *
  have hpos : 0 < 10 ^ b := Nat.pow_pos (by decide)
  have hscaled : 10 ^ k * (quantaPerOne * n) * 10 ^ b = 10 ^ a * quantaPerOne * m := by
    calc 10 ^ k * (quantaPerOne * n) * 10 ^ b = n * 10 ^ (b + k) * quantaPerOne := by rw [Nat.pow_add]; ring
      _ = 10 ^ a * quantaPerOne * m := by rw [hpow]; ring
  constructor
  · refine Nat.le_of_mul_le_mul_right (c := 10 ^ b) ?_ hpos
    rw [hscaled, Nat.mul_right_comm count]
    exact Nat.mul_le_mul_right m hlow
  · refine Nat.lt_of_mul_lt_mul_right (a := 10 ^ b) ?_
    have hnext : 10 ^ (k + 1) * (quantaPerOne * n) * 10 ^ b = 10 ^ (a + 1) * quantaPerOne * m := by
      rw [Nat.pow_succ, Nat.pow_succ, Nat.mul_right_comm (10 ^ k), Nat.mul_right_comm _ 10, hscaled]
      ring
    rw [hnext, Nat.mul_right_comm count]
    exact Nat.mul_lt_mul_of_pos_right hhigh hm

theorem onGrid?_eq_some {e : Int} {d : Decimal} (h : onGrid? count e = some d) :
    d.exponent = e ∧ d.nearest = count ∧ (d.digits = (neighbours count e).1 ∨ d.digits = (neighbours count e).1 + 1) := by
  unfold onGrid? at h
  generalize neighbours count e = beside at *
  obtain ⟨floor, aboveNearer⟩ := beside
  dsimp only at h ⊢
  have hnearest := List.find?_some h
  have hmem := List.mem_of_find?_eq_some h
  have hd : d = ⟨floor, e⟩ ∨ d = ⟨floor + 1, e⟩ := by
    cases aboveNearer with
    | false => simpa using hmem
    | true => simpa [or_comm] using hmem
  rcases hd with rfl | rfl
  · exact ⟨rfl, beq_iff_eq.mp hnearest, Or.inl rfl⟩
  · exact ⟨rfl, beq_iff_eq.mp hnearest, Or.inr rfl⟩

theorem nearest_of_digits (digits : Nat) {e : Int} (hc : count % spacing count = 0)
    (below : 2 * 10 ^ 16 * (digits * (quantaPerOne * (powerOfTen e).1)) ≤ (2 * 10 ^ 16 + 1) * (count * (powerOfTen e).2))
    (above : (2 * 10 ^ 16 - 1) * (count * (powerOfTen e).2) ≤ 2 * 10 ^ 16 * (digits * (quantaPerOne * (powerOfTen e).1))) :
    (Decimal.mk digits e).nearest = count := by
  have hproduct : digits * (powerOfTen e).1 * quantaPerOne = digits * (quantaPerOne * (powerOfTen e).1) := by ring
  rw [← hproduct] at below above
  rw [Decimal.nearest_eq]
  exact nearest_of_close ⟨(powerOfTen_pos e).2, below, above⟩ hc

/-- The lower neighbour is the floor, and the nearer one is at most half a step of the grid away. -/
theorem neighbours_spec (count : Nat) (e : Int) {grid scaled : Nat} (hg : grid = quantaPerOne * (powerOfTen e).1)
    (hs : scaled = count * (powerOfTen e).2) :
    (neighbours count e).1 * grid ≤ scaled ∧ scaled < ((neighbours count e).1 + 1) * grid ∧
      ((neighbours count e).2 = true → 2 * (((neighbours count e).1 + 1) * grid) ≤ 2 * scaled + grid) ∧
        ((neighbours count e).2 = false → 2 * scaled ≤ 2 * ((neighbours count e).1 * grid) + grid) := by
  have hgrid : 0 < grid := hg ▸ Nat.mul_pos quantaPerOne_pos (powerOfTen_pos e).1
  have hdiv := Nat.div_add_mod' scaled grid
  have hmod := Nat.mod_lt scaled hgrid
  have hnext : (scaled / grid + 1) * grid = scaled / grid * grid + grid := by ring
  unfold neighbours
  dsimp only
  rw [← hg, ← hs, hnext]
  refine ⟨by omega, by omega, fun hup => ?_, fun hdown => ?_⟩
  · rw [Bool.or_eq_true, decide_eq_true_eq, Bool.and_eq_true, beq_iff_eq] at hup
    omega
  · rw [Bool.or_eq_false_iff, decide_eq_false_iff_not] at hdown
    omega

/-- On a grid of 17 digits the nearer neighbour rounds to the count. -/
theorem onGrid?_isSome {e : Int} (h : 0 < count) (hc : count % spacing count = 0)
    (he : e = leadingExponent count - (16 : Nat)) : (onGrid? count e).isSome := by
  have hbounds := (grid_bounds h he).1
  obtain ⟨hfloor, hnext, hup, hdown⟩ := neighbours_spec count e rfl rfl
  have hbelow := nearest_of_digits (e := e) (neighbours count e).1 hc
  have habove := nearest_of_digits (e := e) ((neighbours count e).1 + 1) hc
  unfold onGrid?
  generalize neighbours count e = beside at *
  obtain ⟨floor, aboveNearer⟩ := beside
  dsimp only at *
  rw [List.find?_isSome]
  generalize quantaPerOne * (powerOfTen e).1 = grid at *
  generalize count * (powerOfTen e).2 = scaled at *
  cases aboveNearer with
  | false =>
    have hhalf := hdown rfl
    exact ⟨_, by simp, beq_iff_eq.mpr (hbelow (by omega) (by omega))⟩
  | true =>
    have hhalf := hup rfl
    exact ⟨_, by simp, beq_iff_eq.mpr (habove (by omega) (by omega))⟩

/-- A decimal number on the grid of a count that has `k` digits behind the first one. It rounds to the count, and one
    step below it is below the count. -/
structure Hit (count k : Nat) (d : Decimal) : Prop where
  exponent : d.exponent = leadingExponent count - k
  nearest : d.nearest = count
  low : 10 ^ k ≤ d.digits
  high : d.digits ≤ 10 ^ (k + 1)
  floor : (d.digits - 1) * (quantaPerOne * (powerOfTen d.exponent).1) ≤ count * (powerOfTen d.exponent).2

theorem hit_of_onGrid? (h : 0 < count) {k : Nat} {d : Decimal} (hd : onGrid? count (leadingExponent count - k) = some d) :
    Hit count k d := by
  obtain ⟨he, hnearest, hdigits⟩ := onGrid?_eq_some hd
  rw [← he] at hdigits
  obtain ⟨hlow, hhigh⟩ := grid_bounds h he
  obtain ⟨hfloor, hnext, -, -⟩ := neighbours_spec count d.exponent rfl rfl
  generalize (neighbours count d.exponent).1 = floor at *
  have hk : 10 ^ k < floor + 1 := Nat.lt_of_mul_lt_mul_right (Nat.lt_of_le_of_lt hlow hnext)
  have hk' : floor < 10 ^ (k + 1) := Nat.lt_of_mul_lt_mul_right (Nat.lt_of_le_of_lt hfloor hhigh)
  refine ⟨he, hnearest, by omega, by omega, Nat.le_trans (Nat.mul_le_mul_right _ ?_) hfloor⟩
  omega

/-- The shortest decimal number is found on one of the grids. -/
theorem shortest_hit (h : 0 < count) (hc : count % spacing count = 0) : ∃ k, Hit count k (shortest count) := by
  have hlast := onGrid?_isSome h hc rfl
  cases hf : ((List.range 17).map fun (k : Nat) => leadingExponent count - k).findSome? (onGrid? count) with
  | none =>
    have hnone := List.findSome?_eq_none_iff.mp hf _ (List.mem_map_of_mem (List.mem_range.mpr (show 16 < 17 by decide)))
    rw [hnone] at hlast
    cases hlast
  | some d =>
    obtain ⟨e, he, hd⟩ := List.exists_of_findSome?_eq_some hf
    obtain ⟨k, -, rfl⟩ := List.mem_map.mp he
    refine ⟨k, ?_⟩
    rw [shortest, hf]
    exact hit_of_onGrid? h hd

variable {k : Nat} {d : Decimal}

theorem Hit.digits_pos (h : Hit count k d) : 0 < d.digits := Nat.lt_of_lt_of_le (Nat.pow_pos (by decide)) h.low

/-- The first digit stands where the first digit of the count does, unless all digits were rounded up to a power of
    ten. -/
theorem Hit.first (h : Hit count k d) :
    d.exponent + digitCount d.digits - 1 = leadingExponent count ∨
      d.digits = 10 ^ (k + 1) ∧ d.exponent + digitCount d.digits - 1 = leadingExponent count + 1 := by
  rcases Nat.lt_or_eq_of_le h.high with hlt | heq
  · rw [digitCount_eq h.low hlt, h.exponent]
    exact Or.inl (by omega)
  · rw [heq, digitCount_eq (Nat.le_refl _) (Nat.pow_lt_pow_right (by decide) (Nat.lt_succ_self _)), h.exponent]
    exact Or.inr ⟨rfl, by omega⟩

/-! ### Where the first digit stands -/

/-- A number of the format with a fraction is below 2 ^ 52. -/
theorem lt_of_fraction (hc : count % spacing count = 0) (hf : count % quantaPerOne ≠ 0) : count < 2 ^ 52 * quantaPerOne := by
  refine Nat.lt_of_not_le fun hle => hf (Nat.mod_eq_zero_of_dvd (Nat.dvd_trans ?_ (Nat.dvd_of_mod_eq_zero hc)))
  have hpos : count ≠ 0 := by
    rintro rfl
    exact hf (Nat.zero_mod _)
  have hbits : 52 + fractionBits ≤ count.log2 := (Nat.le_log2 hpos).mpr (by rwa [Nat.pow_add])
  exact Nat.pow_dvd_pow 2 (by omega)

theorem Hit.first_lt (h : Hit count k d) (hpos : 0 < count) (hlt : count < 2 ^ 52 * quantaPerOne) :
    d.exponent + digitCount d.digits - 1 < 16 := by
  have hleading : leadingExponent count < 16 := by
    refine Int.lt_of_not_ge fun hge => ?_
    have hle := (le_leadingExponent (a := 16) (b := 0) hpos).mp hge
    omega
  rcases h.first with hfirst | ⟨hdigits, hfirst⟩
  · omega
  · refine Int.lt_of_not_ge fun hge => ?_
    -- the digits below were all nines, and so the count is above nine tenths of ten to the 16
    have hpow := powerOfTen_sub (e := d.exponent) (a := 15) (b := k) (by rw [h.exponent]; omega)
    have hm := (powerOfTen_pos d.exponent).2
    have hfloor := h.floor
    have hnines : 9 * 10 ^ k ≤ d.digits - 1 := by
      have := Nat.pow_pos (n := k) (Nat.succ_pos 9)
      rw [hdigits, Nat.pow_succ]
      omega
    generalize (powerOfTen d.exponent).1 = n at *
    generalize (powerOfTen d.exponent).2 = m at *
    have hle : 9 * 10 ^ 15 * quantaPerOne * m ≤ count * m := by
      calc 9 * 10 ^ 15 * quantaPerOne * m = 9 * 10 ^ k * (quantaPerOne * n) := by
            rw [Nat.mul_right_comm, Nat.mul_assoc 9, ← hpow]
            ring
        _ ≤ (d.digits - 1) * (quantaPerOne * n) := Nat.mul_le_mul_right _ hnines
        _ ≤ count * m := hfloor
    have := Nat.le_of_mul_le_mul_right hle hm
    omega

theorem Hit.le_first_iff (h : Hit count k d) (hpos : 0 < count) :
    -4 ≤ d.exponent + digitCount d.digits - 1 ↔ quantaPerOne ≤ 10 ^ 4 * count := by
  have hleading := le_leadingExponent (a := 0) (b := 4) hpos
  rw [Nat.pow_zero, Nat.one_mul, Nat.mul_comm] at hleading
  rw [← hleading]
  rcases h.first with hfirst | ⟨hdigits, hfirst⟩
  · omega
  · refine ⟨fun hge => ?_, fun hle => by omega⟩
    refine Int.not_lt.mp fun hlt => ?_
    -- the digits are those of ten to the -4, which rounds to a number above it
    have hpow := powerOfTen_sub (e := d.exponent) (a := 0) (b := 5 + k) (by rw [h.exponent]; omega)
    have hround : Binary64.nearest quantaPerOne (10 ^ 4) = count := by
      rw [← h.nearest, Decimal.nearest_eq]
      refine nearest_congr (by decide) (powerOfTen_pos d.exponent).2 ?_
      rw [Nat.pow_zero, Nat.one_mul] at hpow
      rw [← hpow, hdigits]
      ring
    have habove : quantaPerOne ≤ 10 ^ 4 * Binary64.nearest quantaPerOne (10 ^ 4) := by decide +kernel
    rw [hround] at habove
    have := hleading.mpr habove
    omega

/-- A number with a fraction is written without an exponent mark exactly when it is at least 0.0001. -/
theorem isPositional_shortest (hc : count % spacing count = 0) (hf : count % quantaPerOne ≠ 0) :
    isPositional (shortest count).scientific.2 = true ↔ quantaPerOne ≤ 10 ^ 4 * count := by
  have hpos : 0 < count := by
    refine Nat.pos_of_ne_zero ?_
    rintro rfl
    exact hf (Nat.zero_mod _)
  obtain ⟨k, hit⟩ := shortest_hit hpos hc
  have hlt := hit.first_lt hpos (lt_of_fraction hc hf)
  rw [← hit.le_first_iff hpos]
  simp only [isPositional, Bool.and_eq_true, decide_eq_true_eq]
  exact and_iff_left hlt

end Grid

end UnitCheck.Binary64
