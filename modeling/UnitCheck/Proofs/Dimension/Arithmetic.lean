import UnitCheck.Proofs.Binary64.Error
import UnitCheck.Proofs.Dimension.Single

/-! # Arithmetic, exponent by exponent

An operation on dimensions gives one if each of its exponents is finite, and then every exponent is the
rounded result, small ones taken as zero. Dimensions are near each other when every two exponents differ by
less than the tolerance: a difference that small is not rounded, and no exponent is that close to zero. -/

namespace UnitCheck

open Binary64 (Finite ofQuanta)

theorem Binary64.toFinite?_eq_none {x : Binary64} : x.toFinite? = none ↔ ¬∃ y, x = .finite y := by
  cases x with
  | finite y => simp [toFinite?]
  | infinite | nan => simp [toFinite?]

namespace Exponent

variable {x y : Exponent}

theorem tolerance_representable : Binary64.Representable tolerance := by decide +kernel

/-- Every exponent is a multiple of the spacing of the tolerance. -/
theorem spacing_dvd (x : Exponent) : (Binary64.spacing tolerance : Int) ∣ x.value.quanta := by
  rcases x.significant with hzero | hsize
  · rw [hzero]
    exact Int.dvd_zero _
  · exact Int.natCast_dvd.mpr
      (Nat.dvd_trans (Binary64.spacing_dvd_of_le hsize) (Nat.dvd_of_mod_eq_zero x.value.representable.2))

/-- Whether exponents are near each other does not depend on rounding. -/
theorem near_iff : x.near y = true ↔ (x.value.quanta - y.value.quanta).natAbs < tolerance := by
  have hdvd := Int.natCast_dvd.mp (Int.dvd_sub x.spacing_dvd y.spacing_dvd)
  unfold near Finite.sub
  constructor
  · intro h
    by_contra hfar
    split at h
    · rename_i d hd
      have hle := Binary64.le_natAbs_of_ofQuanta hd tolerance_representable.2 (Nat.le_of_not_lt hfar)
      exact Nat.not_lt_of_le hle (of_decide_eq_true h)
    · cases h
  · intro h
    have hrep := Binary64.representable_of_dvd tolerance_representable (Nat.le_of_lt h) hdvd
    rw [Binary64.ofQuanta_of_representable hrep]
    exact decide_eq_true h

theorem isZero_iff : x.isZero = true ↔ x.value.quanta = 0 := beq_iff_eq

theorem eq_zero_of_lt (h : x.value.quanta.natAbs < tolerance) : x.value.quanta = 0 :=
  x.significant.resolve_right (Nat.not_le_of_lt h)

/-- An exponent near zero is zero. -/
theorem isZero_eq_of_near (h : x.near y = true) : x.isZero = y.isZero := by
  have hnear := near_iff.mp h
  rw [Bool.eq_iff_iff, isZero_iff, isZero_iff]
  constructor
  · intro hx
    exact eq_zero_of_lt (by omega)
  · intro hy
    exact eq_zero_of_lt (by omega)

theorem prune_of_le {r : Finite} (h : tolerance ≤ r.quanta.natAbs) : (prune r).value = r := by
  rw [prune, dif_pos h]

theorem prune_of_lt {r : Finite} (h : r.quanta.natAbs < tolerance) : prune r = 0 := by
  rw [prune, dif_neg (Nat.not_le_of_lt h)]

theorem prune_eq_zero {r : Finite} : prune r = 0 ↔ r.quanta.natAbs < tolerance := by
  refine ⟨fun h => Nat.lt_of_not_le fun hle => ?_, prune_of_lt⟩
  have hr : r = 0 := (prune_of_le hle).symm.trans (congrArg value h)
  rw [hr] at hle
  exact absurd hle (Nat.not_le_of_lt tolerance_pos)

end Exponent

namespace Dimension

variable {a b d : Dimension} {f : Base → Binary64} {order : List Base} {o : Overflow}

theorem mem_bases {b : Base} : b ∈ d.bases ↔ (d.get b).value.quanta ≠ 0 := by
  simp [bases, Base.mem_sorted, Exponent.isZero]

theorem get_eq_zero {b : Base} (h : b ∉ d.bases) : d.get b = 0 :=
  Exponent.ext_quanta (not_not.mp (mt mem_bases.mpr h))

theorem isOne_iff : d.isOne = true ↔ d = one := by
  rw [isOne, List.isEmpty_iff, List.eq_nil_iff_forall_not_mem]
  constructor
  · intro h
    refine ext_get fun k => ?_
    rw [get_eq_zero (h k), one, get_ofFn]
  · rintro rfl k hk
    rw [mem_bases, one, get_ofFn] at hk
    exact hk rfl

/-- A list of base quantities with what belongs to each gives both back. -/
theorem pairs_inj {α : Type} {f g : Base → α} {bs cs : List Base}
    (h : (bs.map fun b => (b, f b)) = cs.map fun b => (b, g b)) : bs = cs ∧ ∀ k ∈ bs, f k = g k := by
  have hbases : bs = cs := by
    have hfirst := congrArg (List.map Prod.fst) h
    simpa [Function.comp_def] using hfirst
  subst hbases
  exact ⟨rfl, fun k hk => congrArg Prod.snd (List.map_inj_left.mp h k hk)⟩

/-- The exponents that are listed determine the dimension. -/
theorem items_inj : a.items = b.items ↔ a = b := by
  refine ⟨fun h => ext_get fun k => ?_, congrArg items⟩
  obtain ⟨hbases, hget⟩ := pairs_inj h
  by_cases hk : k ∈ a.bases
  · exact hget k hk
  · rw [get_eq_zero hk, get_eq_zero (hbases ▸ hk)]

/-! ### Results -/

/-- Where no number outside the order fails to be finite, the order does not matter. -/
theorem ofNumbers_eq_ok_of (h : ∀ k ∉ order, ∃ x, f k = .finite x) :
    ofNumbers order f = .ok d ↔ ∀ k, ∃ x, f k = .finite x ∧ d.get k = Exponent.prune x := by
  unfold ofNumbers
  constructor
  · intro hd k
    split at hd
    · cases hd
    · rename_i hnone
      obtain ⟨x, hx⟩ : ∃ x, f k = .finite x := by
        by_cases hk : k ∈ order
        · have hfinite := List.find?_eq_none.mp hnone k hk
          cases hx : f k with
          | finite x => exact ⟨x, rfl⟩
          | infinite | nan => simp [hx, Binary64.toFinite?] at hfinite
        · exact h k hk
      cases hd
      rw [get_ofFn, hx]
      exact ⟨x, rfl, rfl⟩
  · intro hall
    have hnone : (order.find? fun k => (f k).toFinite?.isNone) = none := by
      refine List.find?_eq_none.mpr fun k _ => ?_
      obtain ⟨x, hx, -⟩ := hall k
      simp [hx, Binary64.toFinite?]
    rw [hnone]
    refine congrArg Except.ok (ext_get fun k => ?_)
    obtain ⟨x, hx, hd⟩ := hall k
    rw [get_ofFn, hx, hd]
    rfl

theorem ofNumbers_eq_ok : ofNumbers Base.sorted f = .ok d ↔ ∀ k, ∃ x, f k = .finite x ∧ d.get k = Exponent.prune x :=
  ofNumbers_eq_ok_of fun k hk => absurd (Base.mem_sorted k) hk

/-- The overflow that is reported is one of the numbers. -/
theorem ofNumbers_eq_error (h : ofNumbers order f = .error o) : (f o.base).toFinite? = none ∧ o.value = f o.base := by
  unfold ofNumbers at h
  split at h
  · rename_i b hb
    cases h
    have hnone := List.find?_some hb
    exact ⟨Option.isNone_iff_eq_none.mp hnone, rfl⟩
  · cases h

theorem div_eq_ok : a.div b = .ok d ↔
    ∀ k, ∃ x, (a.get k).value.sub (b.get k).value = .finite x ∧ d.get k = Exponent.prune x := ofNumbers_eq_ok

theorem mul_eq_ok : a.mul b = .ok d ↔
    ∀ k, ∃ x, (a.get k).value.add (b.get k).value = .finite x ∧ d.get k = Exponent.prune x := ofNumbers_eq_ok

theorem pow?_eq_some {p : Finite} : a.pow? (.finite p) = some d ↔
    ∀ k, ∃ x, (a.get k).value.mul p = .finite x ∧ d.get k = Exponent.prune x :=
  toOption_eq_some.trans ofNumbers_eq_ok

/-- Where every exponent can be found, so can the dimension. -/
theorem exists_of_get {P : Base → Exponent → Prop} : (∃ d : Dimension, ∀ k, P k (d.get k)) ↔ ∀ k, ∃ e, P k e := by
  refine ⟨fun ⟨d, hd⟩ k => ⟨d.get k, hd k⟩, fun h => ?_⟩
  choose g hg using h
  exact ⟨ofFn g, fun k => by rw [get_ofFn]; exact hg k⟩

theorem near_iff : a.near b = true ↔
    ∀ k, ((a.get k).value.quanta - (b.get k).value.quanta).natAbs < Exponent.tolerance := by
  rw [near, List.all_eq_true]
  constructor
  · intro h k
    have hk := h k (Base.mem_all k)
    rw [Bool.and_eq_true] at hk
    exact Exponent.near_iff.mp hk.2
  · intro h k _
    have hk := Exponent.near_iff.mpr (h k)
    rw [Bool.and_eq_true, beq_iff_eq]
    exact ⟨Exponent.isZero_eq_of_near hk, hk⟩

end Dimension

end UnitCheck
