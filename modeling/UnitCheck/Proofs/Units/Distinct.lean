import UnitCheck.Equation.Verdict
import UnitCheck.Proofs.Dimension.Canonical
import UnitCheck.Proofs.Units.RoundTrip

/-! # Printed dimensions told apart

The division sign splits a printed product, and each half gives back its base quantities with the sizes of
their exponents. No product begins as the name of a derived unit does. So dimensions that are printed alike
are the same, or both are near the unit that they are printed as; in canonical form only the same dimensions
are printed alike. -/

namespace UnitCheck.Units

open Binary64 (Finite)

variable {a b d : Dimension}

/-! ### Products of base units -/

/-- The letters of a base unit. -/
def unitLetters (b : Base) : List Char := (baseUnit b).toList

theorem naming_unitLetters : Product.Naming unitLetters :=
  ⟨by decide, fun b => by cases b <;> decide, fun b => by cases b <;> decide⟩

theorem separator_times : Product.Separator '*' := ⟨rfl, by decide⟩

theorem separator_over : Product.Separator '/' := ⟨rfl, by decide⟩

/-- Base quantities with the sizes of their exponents. -/
def sizes (d : Dimension) (bs : List Base) : List (Base × Finite) := bs.map fun b => (b, (d.get b).size.value)

theorem powerText_eq_power (b : Base) (e : Exponent) : powerText b e = Product.power unitLetters (b, e.size.value) :=
  (powerText_eq b e).trans (Product.power_eq unitLetters (b, e.size.value)).symm

theorem product_cons (d : Dimension) (b : Base) (bs : List Base) :
    powerText b (d.get b) ++ furtherText d bs = Product.text '*' unitLetters (sizes d (b :: bs)) := by
  rw [← intercalate_powerText, Product.text]
  simp [Product.factors, sizes, powerText_eq_power, Function.comp_def]

theorem aboveText_eq (d : Dimension) : aboveText d = Product.text '*' unitLetters (sizes d (above d)) := by
  rw [aboveText]
  cases above d with
  | nil => rfl
  | cons b bs => exact product_cons d b bs

theorem belowText_eq (d : Dimension) :
    belowText d = if below d = [] then [] else '/' :: Product.text '*' unitLetters (sizes d (below d)) := by
  rw [belowText]
  cases below d with
  | nil => rfl
  | cons b bs => exact congrArg (List.cons '/') (product_cons d b bs)

theorem sizes_inj {bs cs : List Base} (h : sizes a bs = sizes b cs) :
    bs = cs ∧ ∀ k ∈ bs, (a.get k).size = (b.get k).size := by
  obtain ⟨hbases, hsizes⟩ := Dimension.pairs_inj h
  exact ⟨hbases, fun k hk => Exponent.ext_value (hsizes k hk)⟩

/-- The division sign splits a product. -/
theorem texts_split (h : aboveText a ++ belowText a = aboveText b ++ belowText b) :
    aboveText a = aboveText b ∧ belowText a = belowText b := by
  have habove (d : Dimension) : ∀ c ∈ aboveText d, (c != '/') = true := fun c hc => by
    rw [aboveText_eq] at hc
    refine bne_iff_ne.mpr fun he => ?_
    subst he
    exact Product.not_mem_text naming_unitLetters separator_over (by decide) hc
  have hbelow (d : Dimension) : ∀ c ∈ (belowText d).head?, (c != '/') = false := fun c hc => by
    rw [belowText_eq] at hc
    split at hc
    · cases hc
    · cases hc
      rfl
  have htake := congrArg (List.takeWhile (· != '/')) h
  rw [Text.takeWhile_run (habove a) (hbelow a), Text.takeWhile_run (habove b) (hbelow b)] at htake
  rw [htake] at h
  exact ⟨htake, List.append_cancel_left h⟩

theorem above_inj (h : aboveText a = aboveText b) : above a = above b ∧ ∀ k ∈ above a, (a.get k).size = (b.get k).size := by
  rw [aboveText_eq, aboveText_eq] at h
  exact sizes_inj (Product.text_inj naming_unitLetters separator_times h)

theorem below_inj (h : belowText a = belowText b) : below a = below b ∧ ∀ k ∈ below a, (a.get k).size = (b.get k).size := by
  rw [belowText_eq, belowText_eq] at h
  split at h
  · rename_i ha
    split at h
    · rename_i hb
      rw [ha, hb]
      exact ⟨rfl, fun k hk => absurd hk List.not_mem_nil⟩
    · cases h
  · split at h
    · cases h
    · exact sizes_inj (Product.text_inj naming_unitLetters separator_times (List.cons.inj h).2)

/-- A product gives back its dimension. -/
theorem product_inj (h : aboveText a ++ belowText a = aboveText b ++ belowText b) : a = b := by
  obtain ⟨habove, hbelow⟩ := texts_split h
  obtain ⟨habove, hsizes⟩ := above_inj habove
  obtain ⟨hbelow, hsizes'⟩ := below_inj hbelow
  refine Dimension.ext_get fun k => ?_
  by_cases hk : k ∈ below a
  · have hneg := mem_below.mp hk
    have hneg' := mem_below.mp (hbelow ▸ hk)
    rw [← Exponent.neg_size hneg, hsizes' k hk, Exponent.neg_size hneg']
  · rw [← upper_of_not_below hk, ← upper_of_not_below (hbelow ▸ hk)]
    by_cases hk' : k ∈ above a
    · rw [upper, upper, sizesOver, sizesOver, if_pos hk', if_pos (habove ▸ hk'), hsizes k hk']
    · rw [upper_of_not_above hk', upper_of_not_above (habove ▸ hk')]

/-! ### Derived units -/

theorem derived_names : derived.map Prod.fst = ["N", "J", "W", "Pa"] := by decide +kernel

/-- No product begins as the name of a derived unit does. -/
theorem derived_ne_product {u : String × Dimension} (hu : u ∈ derived) (d : Dimension) :
    u.1.toList ≠ aboveText d ++ belowText d := by
  intro h
  have hother : ∀ n ∈ ["N", "J", "W", "Pa"],
      n.toList.head? ≠ some '1' ∧ ∀ b ∈ Base.all, n.toList.head? ≠ (unitLetters b).head? := by decide
  have hname : u.1 ∈ ["N", "J", "W", "Pa"] := derived_names ▸ List.mem_map_of_mem hu
  obtain ⟨c, hc, hfirst⟩ := Product.text_head naming_unitLetters '*' (sizes d (above d))
  have hhead : u.1.toList.head? = some c := by
    rw [h, aboveText_eq, List.head?_append, hc]
    rfl
  rcases hfirst with rfl | ⟨b, hb⟩
  · exact (hother u.1 hname).1 hhead
  · exact (hother u.1 hname).2 b (Base.mem_all b) (hhead.trans hb)

theorem format_cases (d : Dimension) :
    (∃ u ∈ derived, u.2.near d = true ∧ format d = u.1.toList) ∨ format d = aboveText d ++ belowText d := by
  cases h : derived.find? fun u => u.2.near d with
  | some u =>
    refine Or.inl ⟨u, List.mem_of_find?_eq_some h, ?_, by rw [format, h]⟩
    exact List.find?_some (p := fun u : String × Dimension => u.2.near d) h
  | none => exact Or.inr (format_eq h)

/-- Dimensions that are printed alike are the same, or both are near the unit that they are printed as. -/
theorem format_inj (h : format a = format b) :
    a = b ∨ ∃ u ∈ derived, u.2.near a = true ∧ u.2.near b = true := by
  rcases format_cases a with ⟨u, hu, hnear, ha⟩ | ha
  · rcases format_cases b with ⟨v, hv, hnear', hb⟩ | hb
    · have hname : u.1 = v.1 := String.toList_injective (by rw [← ha, h, hb])
      have hnodup : (derived.map Prod.fst).Nodup := by rw [derived_names]; decide
      have huv : u = v := List.inj_on_of_nodup_map hnodup hu hv hname
      exact Or.inr ⟨u, hu, hnear, huv ▸ hnear'⟩
    · exact absurd (ha.symm.trans (h.trans hb)) (derived_ne_product hu b)
  · rcases format_cases b with ⟨v, hv, -, hb⟩ | hb
    · exact absurd (hb.symm.trans (h.symm.trans ha)) (derived_ne_product hv a)
    · exact Or.inl (product_inj (ha.symm.trans (h.trans hb)))

/-! ### What is shown -/

/-- The sides of a bad equation are not near each other. -/
theorem not_near_of_bad {scope : Markup.Scope} {text : List Char} (h : Verdict.of scope text = .bad a b) :
    a.near b = false := by
  unfold Verdict.of at h
  split at h
  · cases h
  split at h
  · cases h
  · cases h
  split at h
  · cases h
  · rename_i hnear
    cases h
    exact eq_false_of_ne_true hnear

/-- A canonical text belongs to one dimension, so a bad equation has two of them in its message. A unit expression
    belongs to one dimension too, apart from those near a derived unit, which are all printed as that unit. -/
theorem printed_apart (a b : Dimension) :
    (a.canonical = b.canonical ↔ a.items = b.items) ∧
      (∀ scope text, Verdict.of scope text = .bad a b →
        (Verdict.of scope text).message = "unit mismatch: LHS " ++ a.canonical ++ " vs RHS " ++ b.canonical ∧
          a.canonical ≠ b.canonical) ∧
      (format a = format b → a.items = b.items ∨ ∃ u ∈ derived, u.2.near a = true ∧ u.2.near b = true) := by
  refine ⟨Dimension.canonical_inj, ?_, ?_⟩
  · intro scope text h
    rw [h]
    refine ⟨rfl, fun hsame => ?_⟩
    have hab : a = b := Dimension.items_inj.mp (Dimension.canonical_inj.mp hsame)
    have hfar := not_near_of_bad h
    rw [hab, Dimension.near_refl] at hfar
    cases hfar
  · intro h
    exact (format_inj h).imp_left (congrArg Dimension.items)

/-- The number after one. -/
def afterOne : Exponent := ⟨⟨Nat.pow 2 1074 + Nat.pow 2 1022, by decide +kernel⟩, by decide +kernel⟩

/-- The force and a dimension near it are both printed as `N`. -/
theorem printed_apart_force :
    let other : Dimension := { Dimension.force with mass := afterOne }
    let scope : Markup.Scope := ⟨.ofList [("x", .ofBase .length), ("t", .ofBase .time)], .clamp 1⟩
    (format .force = format other ∧ Dimension.force.items ≠ other.items ∧
        ∃ u ∈ derived, u.2.near .force = true ∧ u.2.near other = true) ∧
      Verdict.of scope "x=t".toList = .bad (.ofBase .length) (.ofBase .time) ∧
        (Dimension.ofBase .length).canonical ≠ (Dimension.ofBase .time).canonical := by
  intro other scope
  have hsame : format .force = format other := by decide +kernel
  have hitems : Dimension.force.items ≠ other.items := by decide +kernel
  have hbad : Verdict.of scope "x=t".toList = .bad (.ofBase .length) (.ofBase .time) := by decide +kernel
  have hnear := ((printed_apart _ _).2.2 hsame).resolve_left hitems
  exact ⟨⟨hsame, hitems, hnear⟩, hbad, ((printed_apart _ _).2.1 _ _ hbad).2⟩

end UnitCheck.Units
