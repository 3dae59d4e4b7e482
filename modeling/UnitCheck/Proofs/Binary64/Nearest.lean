import Mathlib.Tactic.Ring
import UnitCheck.Binary64.Basic

/-! # Rounding

A quotient rounds to every number of the format that it is close enough to. The numbers beside a number of
the format are at least one part in 2 ^ 53 away from it, so what differs by one part in 2 * 10 ^ 16 at most
is less than half of the way to them. Arithmetic whose exact result has the format is therefore exact. -/

namespace UnitCheck.Binary64

variable {n d c q : Nat}

theorem divideEven_eq (below : 2 * n < (2 * q + 1) * d) (above : 2 * (q * d) < 2 * n + d) : divideEven n d = q := by
  have hd : 0 < d := Nat.pos_of_ne_zero fun hd => by simp [hd] at below
  have hr := Nat.mod_lt n hd
  have hn := Nat.div_add_mod' n d
  have hbelow : (2 * q + 1) * d = 2 * (q * d) + d := by ring
  unfold divideEven
  dsimp only
  generalize n / d = p at *
  generalize n % d = r at *
  rcases Nat.lt_trichotomy p q with hlt | rfl | hlt
  · -- only the next number is left, and the remainder is above a half
    have hnext : (p + 1) * d = p * d + d := by ring
    have hmul := Nat.mul_le_mul_right d (show p + 1 ≤ q from hlt)
    have hq : q = p + 1 := by
      by_contra hne
      have hmul := Nat.mul_le_mul_right d (show p + 2 ≤ q by omega)
      have hnext : (p + 2) * d = p * d + 2 * d := by ring
      omega
    rw [if_neg (by omega), if_pos (by omega), hq]
  · rw [if_pos (by omega)]
  · have hmul := Nat.mul_le_mul_right d (show q + 1 ≤ p from hlt)
    have hnext : (q + 1) * d = q * d + d := by ring
    exact absurd above (by omega)

theorem divideEven_mul_right {k : Nat} (hk : 0 < k) : divideEven (n * k) (d * k) = divideEven n d := by
  have htwice : 2 * (n % d * k) = 2 * (n % d) * k := (Nat.mul_assoc ..).symm
  simp only [divideEven, Nat.mul_div_mul_right n d hk, Nat.mul_mod_mul_right, htwice, Nat.mul_lt_mul_right hk]

/-- Rounding depends on the quotient only. -/
theorem nearest_congr {n' d' : Nat} (hd : 0 < d) (hd' : 0 < d') (h : n * d' = n' * d) : nearest n d = nearest n' d' := by
  have scale {n d k : Nat} (hk : 0 < k) : nearest (n * k) (d * k) = nearest n d := by
    rw [nearest, nearest, Nat.mul_div_mul_right n d hk, Nat.mul_right_comm, divideEven_mul_right hk]
  rw [← scale hd', h, Nat.mul_comm d d', scale hd]

/-! ### Close quotients -/

/-- A quotient differs from a number by one part in 2 * 10 ^ 16 at most. -/
structure Close (n d c : Nat) : Prop where
  pos : 0 < d
  below : 2 * 10 ^ 16 * n ≤ (2 * 10 ^ 16 + 1) * (c * d)
  above : (2 * 10 ^ 16 - 1) * (c * d) ≤ 2 * 10 ^ 16 * n

theorem Close.exact (hd : 0 < d) : Close (c * d) d c :=
  ⟨hd, Nat.mul_le_mul_right _ (by decide), Nat.mul_le_mul_right _ (by decide)⟩

theorem spacing_dvd {m : Nat} (h : n.log2 ≤ m.log2) : spacing n ∣ spacing m :=
  Nat.pow_dvd_pow 2 (Nat.sub_le_sub_right h 52)

theorem lt_spacing (n : Nat) : n < 2 ^ 53 * spacing n := by
  refine Nat.lt_of_lt_of_le Nat.lt_log2_self ?_
  change 2 ^ (n.log2 + 1) ≤ 2 ^ 53 * 2 ^ (n.log2 - 52)
  rw [← Nat.pow_add]
  exact Nat.pow_le_pow_right (by decide) (by omega)

/-- Between a number of the format and the next power of two there is the weight of its last bit. -/
theorem add_spacing_le (hc : c % spacing c = 0) : c + spacing c ≤ 2 ^ (c.log2 + 1) := by
  obtain ⟨m, hm⟩ := Nat.dvd_of_mod_eq_zero hc
  have hpow : spacing c ∣ 2 ^ (c.log2 + 1) := Nat.pow_dvd_pow 2 (by omega)
  obtain ⟨k, hk⟩ := hpow
  have hlt : c < 2 ^ (c.log2 + 1) := Nat.lt_log2_self
  have hmk : m < k := by
    by_contra hle
    have := Nat.mul_le_mul_left (spacing c) (Nat.le_of_not_lt hle)
    omega
  have hle := Nat.mul_le_mul_left (spacing c) (Nat.succ_le_of_lt hmk)
  rw [Nat.mul_succ] at hle
  omega

/-- The multiples among which a close quotient is rounded have the number itself among them. -/
theorem Close.spacing_dvd (h : Close n d c) (hc : c % spacing c = 0) : spacing (n / d) ∣ c := by
  refine Nat.dvd_trans (Binary64.spacing_dvd ?_) (Nat.dvd_of_mod_eq_zero hc)
  by_contra hlt
  have hne : n / d ≠ 0 := by
    rintro h0
    rw [h0, Nat.log2_zero] at hlt
    omega
  have hpow : 2 ^ (c.log2 + 1) ≤ n / d :=
    Nat.le_trans (Nat.pow_le_pow_right (by decide) (Nat.succ_le_of_lt (Nat.lt_of_not_le hlt))) (Nat.log2_self_le hne)
  have hgap := Nat.le_trans (add_spacing_le hc) hpow
  have hn : (c + spacing c) * d ≤ n := Nat.le_trans (Nat.mul_le_mul_right d hgap) (Nat.div_mul_le_self n d)
  have hsmall : c * d < 2 ^ 53 * spacing c * d := Nat.mul_lt_mul_of_pos_right (lt_spacing c) h.pos
  have hbelow := h.below
  rw [Nat.add_mul] at hn
  rw [Nat.mul_assoc] at hsmall
  omega

theorem Close.half (h : Close n d c) :
    2 * n < 2 * (c * d) + d * spacing (n / d) ∧ 2 * (c * d) < 2 * n + d * spacing (n / d) := by
  have hn : n < 2 ^ 53 * (d * spacing (n / d)) := by
    have hlt := Nat.lt_mul_of_div_lt (Nat.lt_of_lt_of_le (Nat.lt_succ_self (n / d)) (lt_spacing (n / d))) h.pos
    rwa [Nat.mul_comm _ d, Nat.mul_left_comm] at hlt
  have hbelow := h.below
  have habove := h.above
  omega

/-- A quotient close to a number of the format rounds to it. -/
theorem nearest_of_close (h : Close n d c) (hc : c % spacing c = 0) : nearest n d = c := by
  obtain ⟨m, hm⟩ := h.spacing_dvd hc
  obtain ⟨hbelow, habove⟩ := h.half
  have hproduct : c * d = m * (d * spacing (n / d)) := by
    rw [hm]
    ring
  have heq : divideEven n (d * spacing (n / d)) = m := by
    refine divideEven_eq ?_ (by omega)
    rw [Nat.add_mul, Nat.one_mul, Nat.mul_assoc]
    omega
  rw [nearest, heq, Nat.mul_comm, ← hm]

/-! ### Exact arithmetic -/

theorem spacing_two_mul (hc : c % spacing c = 0) : 2 * c % spacing (2 * c) = 0 := by
  rcases Nat.eq_zero_or_pos c with rfl | hpos
  · rfl
  · refine Nat.mod_eq_zero_of_dvd (Nat.dvd_trans (b := 2 * spacing c) ?_ (Nat.mul_dvd_mul_left 2 (Nat.dvd_of_mod_eq_zero hc)))
    have hlog : (2 * c).log2 = c.log2 + 1 := Nat.log2_two_mul (Nat.ne_of_gt hpos)
    have hspacing : 2 * spacing c = 2 ^ (c.log2 - 52 + 1) := (Nat.pow_succ' ..).symm
    rw [hspacing]
    exact Nat.pow_dvd_pow 2 (by omega)

/-- Twice a number of the format is not rounded. -/
theorem nearest_two_mul (hc : c % spacing c = 0) : nearest (2 * c) 1 = 2 * c := by
  have h := Close.exact (c := 2 * c) Nat.one_pos
  rw [Nat.mul_one] at h
  exact nearest_of_close h (spacing_two_mul hc)

theorem quantaPerOne_pos : 0 < quantaPerOne := Nat.pow_pos (by decide)

theorem ofQuotient_of_nearest {x : Finite} (h : nearest n d = x.quanta.natAbs) :
    ofQuotient (x.quanta < 0) n d = .finite x := by
  obtain ⟨quanta, hx⟩ := x
  have hrep : Representable (nearest n d) := h ▸ hx
  rw [ofQuotient, dif_pos hrep]
  simp only [h, decide_eq_true_eq]
  congr 2
  split <;> omega

theorem natAbs_of_ofQuotient {x : Finite} {negative : Bool} (h : ofQuotient negative n d = .finite x) :
    x.quanta.natAbs = nearest n d := by
  rw [ofQuotient] at h
  split at h
  · cases h
    cases negative <;> simp
  · cases h

theorem ofQuotient_of_close {x : Finite} (h : Close n d x.quanta.natAbs) : ofQuotient (x.quanta < 0) n d = .finite x :=
  ofQuotient_of_nearest (nearest_of_close h x.representable.2)

namespace Finite
variable (x : Finite)

theorem ofQuanta_quanta : ofQuanta x.quanta = .finite x := by
  have h := Close.exact (c := x.quanta.natAbs) Nat.one_pos
  rw [Nat.mul_one] at h
  exact ofQuotient_of_close h

section Exact
variable {x} {y z : Finite}

theorem add_of_quanta (h : x.quanta + y.quanta = z.quanta) : x.add y = .finite z := by
  rw [add, h, ofQuanta_quanta]

theorem sub_of_quanta (h : x.quanta - y.quanta = z.quanta) : x.sub y = .finite z := by
  rw [sub, h, ofQuanta_quanta]

theorem mul_of_quanta (h : x.quanta * y.quanta = z.quanta * quantaPerOne) : x.mul y = .finite z := by
  have hsign : z.quanta * quantaPerOne < 0 ↔ z.quanta < 0 := by
    simpa using Int.mul_lt_mul_right (b := z.quanta) (c := 0) (Int.natCast_pos.mpr quantaPerOne_pos)
  simp only [mul, h, hsign, Int.natAbs_mul, Int.natAbs_natCast]
  exact ofQuotient_of_close (.exact quantaPerOne_pos)

end Exact

theorem zero_add : (0 : Finite).add x = .finite x := add_of_quanta (Int.zero_add _)

theorem add_zero : x.add 0 = .finite x := add_of_quanta (Int.add_zero _)

theorem zero_sub : (0 : Finite).sub x = .finite (-x) := sub_of_quanta (Int.zero_sub _)

theorem sub_zero : x.sub 0 = .finite x := sub_of_quanta (Int.sub_zero _)

theorem sub_self : x.sub x = .finite 0 := sub_of_quanta (Int.sub_self _)

theorem zero_mul : (0 : Finite).mul x = .finite 0 :=
  mul_of_quanta ((Int.zero_mul _).trans (Int.zero_mul _).symm)

theorem one_mul : (1 : Finite).mul x = .finite x := mul_of_quanta (Int.mul_comm ..)

end Finite

end UnitCheck.Binary64
