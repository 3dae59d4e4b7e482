import UnitCheck.Dimension.Build
import UnitCheck.Proofs.Binary64.Integers
import UnitCheck.Proofs.Dimension.Arithmetic

/-! # Integer exponents

Where exponents are integers, and those of the result are no larger than 2 ^ 53, nothing is rounded, and only
zero is below the tolerance. So products, quotients and powers are sums, differences and multiples of vectors of
integers, and what holds of these holds of the dimensions: a dimension is determined by its vector. -/

namespace UnitCheck

open Binary64 (Finite Small quantaPerOne)

namespace Exponent

/-- An integer as an exponent: the tolerance is less than one. -/
def ofSmall (k : Int) (h : Small k) : Exponent :=
  ⟨.ofSmall k h, by
    have hone : tolerance ≤ quantaPerOne := by decide +kernel
    rcases eq_or_ne k 0 with rfl | hk
    · exact Or.inl (Int.zero_mul _)
    · refine Or.inr (Nat.le_trans hone ?_)
      rw [Finite.ofSmall, Int.natAbs_mul, Int.natAbs_natCast]
      exact Nat.le_mul_of_pos_left _ (Int.natAbs_pos.mpr hk)⟩

end Exponent

namespace Dimension

/-- The exponents that a dimension lists are the integers of a vector that are not zero. -/
def HasIntegers (d : Dimension) (v : Base → Int) : Prop :=
  d.items.map (fun item => (item.1, item.2.value.toInt?)) =
    (Base.sorted.filter fun b => v b ≠ 0).map fun b => (b, some (v b))

theorem hasIntegers_iff {d : Dimension} {v : Base → Int} :
    d.HasIntegers v ↔ ∀ b, (d.get b).value.quanta = v b * quantaPerOne := by
  have hone : quantaPerOne ≠ 0 := Nat.ne_of_gt Binary64.quantaPerOne_pos
  constructor
  · intro h b
    have hbases : d.bases = Base.sorted.filter fun b => v b ≠ 0 := by
      have hfirst := congrArg (List.map Prod.fst) h
      simpa [items, Function.comp_def] using hfirst
    by_cases hb : b ∈ d.bases
    · rw [HasIntegers, items, ← hbases, List.map_map] at h
      have hitem := List.map_inj_left.mp h b hb
      exact Finite.toInt?_eq_some.mp (congrArg Prod.snd hitem)
    · have hzero : v b = 0 := by
        rw [hbases] at hb
        simpa [Base.mem_sorted] using hb
      rw [hzero, Int.zero_mul]
      exact not_not.mp (mt mem_bases.mpr hb)
  · intro h
    have hbases : d.bases = Base.sorted.filter fun b => v b ≠ 0 :=
      List.filter_congr fun b _ => Bool.eq_iff_iff.mpr (by simp [Exponent.isZero, h b, hone])
    rw [HasIntegers, items, hbases, List.map_map]
    exact List.map_congr_left fun b _ => congrArg (b, ·) (Finite.toInt?_eq_some.mpr (h b))

section Vectors
variable {a b : Dimension} {u v : Base → Int}

/-- A vector has one dimension. -/
theorem HasIntegers.unique (ha : a.HasIntegers u) (hb : b.HasIntegers u) : a = b :=
  ext_get fun k => Exponent.ext_quanta ((hasIntegers_iff.mp ha k).trans (hasIntegers_iff.mp hb k).symm)

theorem hasIntegers_one : one.HasIntegers fun _ => 0 :=
  hasIntegers_iff.mpr fun k => by
    rw [one, get_ofFn, Int.zero_mul]
    rfl

/-- The exponents of a list, all others zero. -/
def exponents (es : List (Base × Int)) (b : Base) : Int := (es.lookup b).getD 0

theorem hasIntegers_ofInts {es : List (Base × Int)} (h : ∀ k, Small (exponents es k)) :
    (ofInts es).HasIntegers (exponents es) := by
  refine hasIntegers_iff.mpr fun k => ?_
  have hk := h k
  rw [ofInts, get_ofFn]
  unfold exponents at hk ⊢
  cases hlookup : es.lookup k with
  | none =>
    rw [Option.map_none, Option.bind_none, Option.getD_none, Option.getD_none, Int.zero_mul]
    exact congrArg (Finite.quanta ·.value) (Exponent.prune_value 0)
  | some i =>
    rw [hlookup, Option.getD_some] at hk
    rw [Option.map_some, Option.bind_some, Binary64.ofInt_of_small hk]
    exact congrArg (Finite.quanta ·.value) (Exponent.prune_value (.ofSmall i hk))

/-- Arithmetic that gives small integers gives the dimension of their vector. -/
theorem exists_ofNumbers {f : Base → Binary64} (h : ∀ k, Small (u k))
    (hf : ∀ k, f k = .finite (.ofSmall (u k) (h k))) :
    ∃ d, ofNumbers Base.sorted f = .ok d ∧ d.HasIntegers u := by
  refine ⟨ofFn fun k => .ofSmall (u k) (h k), ofNumbers_finite _ hf, hasIntegers_iff.mpr fun k => ?_⟩
  rw [get_ofFn]
  rfl

theorem HasIntegers.mul (ha : a.HasIntegers u) (hb : b.HasIntegers v) (h : ∀ k, Small (u k + v k)) :
    ∃ d, a.mul b = .ok d ∧ d.HasIntegers fun k => u k + v k := by
  refine exists_ofNumbers h fun k => Finite.add_of_quanta ?_
  rw [hasIntegers_iff.mp ha k, hasIntegers_iff.mp hb k]
  exact (Int.add_mul ..).symm

theorem HasIntegers.div (ha : a.HasIntegers u) (hb : b.HasIntegers v) (h : ∀ k, Small (u k - v k)) :
    ∃ d, a.div b = .ok d ∧ d.HasIntegers fun k => u k - v k := by
  refine exists_ofNumbers h fun k => Finite.sub_of_quanta ?_
  rw [hasIntegers_iff.mp ha k, hasIntegers_iff.mp hb k]
  exact (Int.sub_mul ..).symm

/-- The power to an integer. -/
def IsPower (a : Dimension) (n : Int) (d : Dimension) : Prop := a.raise? (.number (.integer n)) = .ok (some d)

theorem HasIntegers.power (ha : a.HasIntegers u) {n : Int} (hn : Small n) (h : ∀ k, Small (n * u k)) :
    ∃ d, a.IsPower n d ∧ d.HasIntegers fun k => n * u k := by
  obtain ⟨d, hd, hv⟩ := exists_ofNumbers (f := fun k => (a.get k).value.mul (.ofSmall n hn)) h fun k => by
    refine Finite.mul_of_quanta ?_
    rw [hasIntegers_iff.mp ha k]
    change u k * quantaPerOne * (n * quantaPerOne) = n * u k * quantaPerOne * quantaPerOne
    ring
  refine ⟨d, ?_, hv⟩
  have hpow : a.pow? (.finite (.ofSmall n hn)) = some d := toOption_eq_some.mpr hd
  rw [IsPower, raise?, Number.toBinary64?, Binary64.ofInt_of_small hn]
  exact congrArg _ hpow

/-- The product of `n` copies. -/
def copies (a : Dimension) : Nat → Except Overflow Dimension
  | 0 => .ok one
  | n + 1 => do (← a.copies n).mul a

theorem HasIntegers.copies (ha : a.HasIntegers u) {n : Nat} (h : ∀ k, Small (n * u k)) :
    ∃ d, a.copies n = .ok d ∧ d.HasIntegers fun k => n * u k := by
  induction n with
  | zero =>
    refine ⟨one, rfl, ?_⟩
    have hzero : (fun k => ((0 : Nat) : Int) * u k) = fun _ => 0 := funext fun k => Int.zero_mul _
    rw [hzero]
    exact hasIntegers_one
  | succ n ih =>
    have hless : ∀ k, Small (n * u k) := fun k => (h k).of_le (by
      rw [Int.natAbs_mul, Int.natAbs_mul]
      exact Nat.mul_le_mul_right _ (by omega))
    have hsum : (fun k => (n : Int) * u k + u k) = fun k => ((n + 1 : Nat) : Int) * u k :=
      funext fun k => by
        push_cast
        ring
    obtain ⟨d, hd, hv⟩ := ih hless
    obtain ⟨e, he, hw⟩ := hv.mul ha fun k => by rw [congrFun hsum k]; exact h k
    exact ⟨e, by rw [Dimension.copies, hd, ok_bind, he], hsum ▸ hw⟩

end Vectors

/-! ### Laws -/

section Laws
variable {a b c : Dimension} {u v w : Base → Int} {m n : Int}

theorem HasIntegers.mul_assoc (ha : a.HasIntegers u) (hb : b.HasIntegers v) (hc : c.HasIntegers w)
    (huv : ∀ k, Small (u k + v k)) (hvw : ∀ k, Small (v k + w k)) (huvw : ∀ k, Small (u k + v k + w k)) :
    ∃ x y d, a.mul b = .ok x ∧ b.mul c = .ok y ∧ x.mul c = .ok d ∧ a.mul y = .ok d := by
  have hassoc : (fun k => u k + v k + w k) = fun k => u k + (v k + w k) := funext fun k => Int.add_assoc ..
  obtain ⟨x, hx, hxv⟩ := ha.mul hb huv
  obtain ⟨y, hy, hyv⟩ := hb.mul hc hvw
  obtain ⟨d, hd, hdv⟩ := hxv.mul hc huvw
  obtain ⟨e, he, hev⟩ := ha.mul hyv fun k => congrFun hassoc k ▸ huvw k
  obtain rfl := hdv.unique (hassoc ▸ hev)
  exact ⟨x, y, d, hx, hy, hd, he⟩

theorem HasIntegers.power_eq_copies (ha : a.HasIntegers u) (hn : 0 ≤ n) (hsmall : Small n) (h : ∀ k, Small (n * u k)) :
    ∃ d, a.IsPower n d ∧ a.copies n.toNat = .ok d := by
  obtain ⟨n, rfl⟩ := Int.eq_ofNat_of_zero_le hn
  obtain ⟨d, hd, hdv⟩ := ha.power hsmall h
  obtain ⟨e, he, hev⟩ := ha.copies h
  obtain rfl := hdv.unique hev
  exact ⟨d, hd, he⟩

theorem HasIntegers.power_mul (ha : a.HasIntegers u) (hb : b.HasIntegers v) (hn : Small n)
    (huv : ∀ k, Small (u k + v k)) (hnu : ∀ k, Small (n * u k)) (hnv : ∀ k, Small (n * v k))
    (hnuv : ∀ k, Small (n * (u k + v k))) :
    ∃ x y z d, a.mul b = .ok x ∧ x.IsPower n d ∧ a.IsPower n y ∧ b.IsPower n z ∧ y.mul z = .ok d := by
  have hdistrib : (fun k => n * (u k + v k)) = fun k => n * u k + n * v k := funext fun k => Int.mul_add ..
  obtain ⟨x, hx, hxv⟩ := ha.mul hb huv
  obtain ⟨y, hy, hyv⟩ := ha.power hn hnu
  obtain ⟨z, hz, hzv⟩ := hb.power hn hnv
  obtain ⟨d, hd, hdv⟩ := hxv.power hn hnuv
  obtain ⟨e, he, hev⟩ := hyv.mul hzv fun k => congrFun hdistrib k ▸ hnuv k
  obtain rfl := hdv.unique (hdistrib ▸ hev)
  exact ⟨x, y, z, d, hx, hd, hy, hz, he⟩

theorem HasIntegers.power_power (ha : a.HasIntegers u) (hm : Small m) (hn : Small n) (hmn : Small (m * n))
    (hmu : ∀ k, Small (m * u k)) (hmnu : ∀ k, Small (m * n * u k)) :
    ∃ x d, a.IsPower m x ∧ x.IsPower n d ∧ a.IsPower (m * n) d := by
  have hassoc : (fun k => n * (m * u k)) = fun k => m * n * u k := funext fun k => by ring
  obtain ⟨x, hx, hxv⟩ := ha.power hm hmu
  obtain ⟨d, hd, hdv⟩ := hxv.power hn fun k => congrFun hassoc.symm k ▸ hmnu k
  obtain ⟨e, he, hev⟩ := ha.power hmn hmnu
  obtain rfl := hdv.unique (hassoc ▸ hev)
  exact ⟨x, d, hx, hd, he⟩

/-- While integers stay small, products, quotients and powers have the sums, differences and multiples of the exponents.
    So products are associative, powers to natural numbers are repeated products, and powers of products and of powers
    are products of powers and powers to products. -/
theorem arithmetic_of_integers (ha : a.HasIntegers u) (hb : b.HasIntegers v) (hc : c.HasIntegers w) (m n : Int) :
    ((∀ k, Small (u k + v k)) → ∃ d, a.mul b = .ok d ∧ d.HasIntegers fun k => u k + v k) ∧
      ((∀ k, Small (u k - v k)) → ∃ d, a.div b = .ok d ∧ d.HasIntegers fun k => u k - v k) ∧
      (Small n → (∀ k, Small (n * u k)) → ∃ d, a.IsPower n d ∧ d.HasIntegers fun k => n * u k) ∧
      ((∀ k, Small (u k + v k)) → (∀ k, Small (v k + w k)) → (∀ k, Small (u k + v k + w k)) →
        ∃ x y d, a.mul b = .ok x ∧ b.mul c = .ok y ∧ x.mul c = .ok d ∧ a.mul y = .ok d) ∧
      (0 ≤ n → Small n → (∀ k, Small (n * u k)) → ∃ d, a.IsPower n d ∧ a.copies n.toNat = .ok d) ∧
      (Small n → (∀ k, Small (u k + v k)) → (∀ k, Small (n * u k)) → (∀ k, Small (n * v k)) →
        (∀ k, Small (n * (u k + v k))) →
        ∃ x y z d, a.mul b = .ok x ∧ x.IsPower n d ∧ a.IsPower n y ∧ b.IsPower n z ∧ y.mul z = .ok d) ∧
      (Small m → Small n → Small (m * n) → (∀ k, Small (m * u k)) → (∀ k, Small (m * n * u k)) →
        ∃ x d, a.IsPower m x ∧ x.IsPower n d ∧ a.IsPower (m * n) d) := by
  refine ⟨ha.mul hb, ha.div hb, ha.power, ?_, ?_, ?_, ?_⟩
  · exact ha.mul_assoc hb hc
  · exact ha.power_eq_copies
  · exact ha.power_mul hb
  · exact ha.power_power

theorem arithmetic_of_integers_force :
    let u := exponents [(.mass, 1), (.length, 1), (.time, -2)]
    let v := exponents [(.length, 1), (.time, -1)]
    (∃ d, force.mul velocity = .ok d ∧ d.HasIntegers fun k => u k + v k) ∧
      (∃ x y d, force.mul velocity = .ok x ∧ velocity.mul energy = .ok y ∧ x.mul energy = .ok d ∧ force.mul y = .ok d) ∧
      ∃ x d, force.IsPower (-2) x ∧ x.IsPower 3 d ∧ force.IsPower (-2 * 3) d := by
  intro u v
  have hforce : force.HasIntegers u := hasIntegers_ofInts fun k => by cases k <;> decide
  have hvelocity : velocity.HasIntegers v := hasIntegers_ofInts fun k => by cases k <;> decide
  have henergy : energy.HasIntegers _ := hasIntegers_ofInts fun k => by cases k <;> decide
  obtain ⟨hmul, -, -, hassoc, -, -, hpower⟩ := arithmetic_of_integers hforce hvelocity henergy (-2) 3
  refine ⟨hmul ?_, hassoc ?_ ?_ ?_, hpower (by decide) (by decide) (by decide) ?_ ?_⟩
  all_goals
    intro k
    cases k <;> decide

end Laws

end Dimension

end UnitCheck
