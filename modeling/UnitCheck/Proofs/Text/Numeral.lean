import Mathlib.Tactic.IntervalCases
import UnitCheck.Text.Digit

/-! # Numerals

ASCII digits read as the number that they write. Zeros in front of them change nothing, and a zero behind
them multiplies the number by ten. -/

namespace UnitCheck.Text

/-- The ASCII digits. -/
def digits : List Char := "0123456789".toList

theorem mem_digits {c : Char} : c ∈ digits ↔ c.isDigit := by
  constructor
  · intro h
    have hall : digits.all Char.isDigit = true := by decide
    exact List.all_eq_true.mp hall c h
  · intro h
    simp only [Char.isDigit, Bool.and_eq_true, decide_eq_true_eq, UInt32.le_iff_toNat_le] at h
    have hlow : 48 ≤ c.toNat := h.1
    have hhigh : c.toNat ≤ 57 := h.2
    rw [← Char.ofNat_toNat c]
    interval_cases c.toNat <;> decide

/-- What holds of every character of a numeral can be looked up. -/
theorem of_inNumeral {p : Char → Bool} (hp : ('.' :: digits).all p = true) {c : Char} (hc : c.isDigit ∨ c = '.') :
    p c = true := by
  refine List.all_eq_true.mp hp c (List.mem_cons.mpr ?_)
  rcases hc with hc | hc
  · exact Or.inr (mem_digits.mpr hc)
  · exact Or.inl hc

theorem isDigit_of_mem_toDigits {n : Nat} : ∀ c ∈ Nat.toDigits 10 n, c.isDigit := fun _ hc =>
  Nat.isDigit_of_mem_toDigits (by decide) (by decide) hc

/-! ### The number that digits write -/

theorem ofDigits_toDigits (n : Nat) : ofDigits (Nat.toDigits 10 n) = n := Nat.ofDigitChars_ten_toDigits

theorem ofDigits_append_zeros (cs : List Char) (k : Nat) :
    ofDigits (cs ++ List.replicate k '0') = ofDigits cs * 10 ^ k := by
  rw [Nat.mul_comm]
  exact (Nat.ofDigitChars_append 0).trans Nat.ofDigitChars_replicate_zero

theorem ofDigits_zeros_append (k : Nat) (cs : List Char) : ofDigits (List.replicate k '0' ++ cs) = ofDigits cs := by
  have hzeros : ofDigits (List.replicate k '0') = 0 := Nat.ofDigitChars_replicate_zero.trans (Nat.mul_zero _)
  exact (Nat.ofDigitChars_append 0).trans (congrArg (Nat.ofDigitChars 10 cs) hzeros)

theorem digitGroups?_of_digits {cs : List Char} (hne : cs ≠ []) (h : ∀ c ∈ cs, c.isDigit) : digitGroups? cs = some cs := by
  induction cs with
  | nil => exact absurd rfl hne
  | cons c rest ih =>
    have hc := h c List.mem_cons_self
    cases rest with
    | nil => simp [digitGroups?, hc]
    | cons d rest =>
      have hd : d ≠ '_' := by
        rintro rfl
        exact absurd (h '_' (by simp)) (by decide)
      have hrest := ih (List.cons_ne_nil d rest) fun x hx => h x (List.mem_cons_of_mem c hx)
      simp [digitGroups?, hc, hd, hrest]

end UnitCheck.Text
