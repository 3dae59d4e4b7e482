import UnitCheck.Proofs.Binary64.Literal
import UnitCheck.Proofs.Dimension.Single
import UnitCheck.Proofs.Units.Spelling
import UnitCheck.Units.Printer

/-! # Printing and parsing back

A dimension near a derived unit is printed as that unit and read as it. Any other is printed as a product,
with the units of negative exponents behind one division sign. Operators are read from the left, so the
first unit behind that sign is divided by and the others are multiplied with: what is read is near what was
printed if at most one exponent is negative. An exponent that is written with a mark has a sign in it, and
then nothing is read. -/

namespace UnitCheck.Units

open Dimension (single ofFn)

/-! ### Powers of base units -/

section Power
variable {b : Base} {e : Exponent}

theorem size_plain : e.size.value.Plain ↔ e.value.Plain := by
  rw [e.size_value]
  split
  · rw [Binary64.Finite.Plain, Exponent.neg_quanta, Int.natAbs_neg]
    rfl
  · rfl

theorem powerText_eq (b : Base) (e : Exponent) :
    powerText b e =
      if e.size.value = 1 then (baseUnit b).toList else (baseUnit b).toList ++ '^' :: e.size.value.compactText := by
  rw [powerText, e.size_value]

theorem spells_baseUnit (b : Base) : Spells .primary (baseUnit b).toList (single b 1) := by
  have hletters : ((baseUnit b).toList.all Char.isAlpha) = true := by cases b <;> decide
  refine .unit (by cases b <;> decide) (List.all_eq_true.mp hletters) ?_
  rw [String.ofList_toList, ← Dimension.ofBase_eq_single]
  cases b <;> rfl

theorem spells_powerText (hne : e.value.quanta ≠ 0) (hp : e.value.Plain) : Spells .factor (powerText b e) (single b e.size) := by
  rw [powerText_eq]
  split
  · rename_i hone
    rw [show e.size = 1 from Exponent.ext_value hone]
    exact (spells_baseUnit b).factor
  · have hnumeral := Binary64.Finite.numeral_compactText (Exponent.size_pos hne) (size_plain.mpr hp)
    refine (spells_baseUnit b).power (Binary64.Finite.compactText_ne_nil _) hnumeral
      (Dimension.raised?_eq_some.mpr ⟨_, ?_, Dimension.pow?_single b e.size⟩)
    rw [String.toList_ofList, (Binary64.Finite.read?_text _).1]

end Power

/-! ### Products -/

section Product
variable {d : Dimension} {bs : List Base} {text : List Char} {f : Base → Exponent}

/-- Exponents that are not zero and have a plain text. -/
def Printable (d : Dimension) (bs : List Base) : Prop := ∀ b ∈ bs, (d.get b).value.quanta ≠ 0 ∧ (d.get b).value.Plain

/-- Further factors. -/
def furtherText (d : Dimension) (bs : List Base) : List Char := bs.flatMap fun b => '*' :: powerText b (d.get b)

theorem intercalate_powerText (b : Base) (bs : List Base) :
    ['*'].intercalate ((b :: bs).map fun b => powerText b (d.get b)) = powerText b (d.get b) ++ furtherText d bs := by
  induction bs generalizing b with
  | nil => simp [furtherText]
  | cons c bs ih =>
    have hc := ih c
    rw [List.map_cons] at hc
    rw [List.map_cons, List.map_cons, List.intercalate_cons_cons, hc]
    simp [furtherText]

/-- Exponents with the sizes of some written over them. -/
def sizesOver (d : Dimension) (bs : List Base) (f : Base → Exponent) (k : Base) : Exponent :=
  if k ∈ bs then (d.get k).size else f k

theorem sizesOver_nil : sizesOver d [] f = f := by
  funext k
  rw [sizesOver, if_neg List.not_mem_nil]

theorem sizesOver_cons {b : Base} (hb : b ∉ bs) :
    sizesOver d (b :: bs) f = sizesOver d bs (Function.update f b (d.get b).size) := by
  funext k
  by_cases hk : k = b
  · subst hk
    simp [sizesOver, hb]
  · simp [sizesOver, hk]

/-- Each further factor writes the size of its exponent. -/
theorem Spells.further (h : Spells .expression text (ofFn f)) (hn : bs.Nodup) (hf : ∀ b ∈ bs, f b = 0)
    (hp : Printable d bs) : Spells .expression (text ++ furtherText d bs) (ofFn (sizesOver d bs f)) := by
  induction bs generalizing text f with
  | nil => simpa [furtherText, sizesOver_nil] using h
  | cons b bs ih =>
    obtain ⟨hb, hn⟩ := List.nodup_cons.mp hn
    obtain ⟨hpb, hp⟩ := List.forall_mem_cons.mp hp
    obtain ⟨hfb, hf⟩ := List.forall_mem_cons.mp hf
    have hstep := h.times (spells_powerText hpb.1 hpb.2) (Dimension.mul_single hfb (d.get b).size)
    have htext : text ++ furtherText d (b :: bs) = text ++ '*' :: powerText b (d.get b) ++ furtherText d bs := by
      simp [furtherText]
    rw [htext, sizesOver_cons hb]
    refine ih hstep hn (fun k hk => ?_) hp
    rw [Function.update_of_ne (ne_of_mem_of_not_mem hk hb), hf k hk]

end Product

/-! ### What is printed -/

section Format
variable (d : Dimension)

/-- The base quantities with positive exponents. -/
def above : List Base := Base.all.filter fun b => 0 < (d.get b).value.quanta

/-- The base quantities with negative exponents. -/
def below : List Base := Base.all.filter fun b => (d.get b).value.quanta < 0

/-- The units above the division sign. -/
def aboveText : List Char :=
  match above d with
  | [] => ['1']
  | b :: bs => powerText b (d.get b) ++ furtherText d bs

/-- The division sign with the units behind it. -/
def belowText : List Char :=
  match below d with
  | [] => []
  | b :: bs => '/' :: powerText b (d.get b) ++ furtherText d bs

variable {d}

theorem powerText_ne_nil (b : Base) (e : Exponent) : powerText b e ≠ [] := by
  have hunit : (baseUnit b).toList ≠ [] := by cases b <;> decide
  rw [powerText_eq]
  split
  · exact hunit
  · simp [hunit]

theorem format_eq (h : derived.find? (fun u => u.2.near d) = none) : format d = aboveText d ++ belowText d := by
  have habove : productText d (fun x => 0 < x.quanta) = ['*'].intercalate ((above d).map fun b => powerText b (d.get b)) := rfl
  have hbelow : productText d (fun x => x.quanta < 0) = ['*'].intercalate ((below d).map fun b => powerText b (d.get b)) := rfl
  rw [format, h]
  dsimp only
  rw [habove, hbelow, aboveText, belowText]
  congr 1
  · cases above d with
    | nil => simp
    | cons b bs =>
      simp only [intercalate_powerText]
      simp [powerText_ne_nil]
  · cases below d with
    | nil => simp
    | cons b bs =>
      simp only [intercalate_powerText]
      simp [powerText_ne_nil]

/-! ### What is read -/

theorem mem_above {b : Base} : b ∈ above d ↔ 0 < (d.get b).value.quanta := by
  simp [above, Base.mem_all]

theorem mem_below {b : Base} : b ∈ below d ↔ (d.get b).value.quanta < 0 := by
  simp [below, Base.mem_all]

theorem nodup_all : Base.all.Nodup := by decide

/-- The exponents above the division sign. -/
def upper (d : Dimension) : Base → Exponent := sizesOver d (above d) 0

/-- What is read back of a dimension that is near no derived unit. -/
def reread (d : Dimension) : Dimension :=
  match below d with
  | [] => ofFn (upper d)
  | b :: bs => ofFn (sizesOver d bs (Function.update (upper d) b (d.get b)))

theorem upper_of_above {k : Base} (h : k ∈ above d) : upper d k = d.get k := by
  have hpos := mem_above.mp h
  rw [upper, sizesOver, if_pos h, Exponent.size_of_not_neg (by omega)]

theorem upper_of_not_above {k : Base} (h : k ∉ above d) : upper d k = 0 := by
  rw [upper, sizesOver, if_neg h]
  rfl

theorem upper_of_not_below {k : Base} (h : k ∉ below d) : upper d k = d.get k := by
  by_cases hk : k ∈ above d
  · exact upper_of_above hk
  · have hzero : (d.get k).value.quanta = 0 := by
      rw [mem_above] at hk
      rw [mem_below] at h
      omega
    rw [upper_of_not_above hk]
    exact Exponent.ext_quanta hzero.symm

theorem not_above_of_below {k : Base} (h : k ∈ below d) : k ∉ above d := fun ha => by
  have hneg := mem_below.mp h
  have hpos := mem_above.mp ha
  omega

theorem spells_aboveText (hp : ∀ b, (d.get b).value.Plain) : Spells .expression (aboveText d) (ofFn (upper d)) := by
  have hprintable : Printable d (above d) := fun b hb => ⟨Int.ne_of_gt (mem_above.mp hb), hp b⟩
  have hnodup : (above d).Nodup := nodup_all.filter _
  rw [upper, aboveText]
  cases h : above d with
  | nil =>
    rw [sizesOver_nil]
    exact Spells.one.factor.expression
  | cons b bs =>
    rw [h] at hprintable hnodup
    obtain ⟨hb, hbs⟩ := List.forall_mem_cons.mp hprintable
    obtain ⟨hmem, hnodup⟩ := List.nodup_cons.mp hnodup
    rw [sizesOver_cons hmem]
    refine (spells_powerText hb.1 hb.2).expression.further hnodup (fun k hk => ?_) hbs
    exact Function.update_of_ne (ne_of_mem_of_not_mem hk hmem) _ _

theorem spells_reread (hp : ∀ b, (d.get b).value.Plain) : Spells .expression (aboveText d ++ belowText d) (reread d) := by
  have habove := spells_aboveText hp
  have hprintable : Printable d (below d) := fun b hb => ⟨Int.ne_of_lt (mem_below.mp hb), hp b⟩
  have hnodup : (below d).Nodup := nodup_all.filter _
  have hzero : ∀ b ∈ below d, upper d b = 0 := fun b hb => upper_of_not_above (not_above_of_below hb)
  rw [reread, belowText]
  cases h : below d with
  | nil => simpa using habove
  | cons b bs =>
    have hneg : (d.get b).value.quanta < 0 := mem_below.mp (h ▸ List.mem_cons_self)
    rw [h] at hprintable hnodup hzero
    obtain ⟨hb, hbs⟩ := List.forall_mem_cons.mp hprintable
    obtain ⟨hmem, hnodup⟩ := List.nodup_cons.mp hnodup
    obtain ⟨hzb, hzero⟩ := List.forall_mem_cons.mp hzero
    have hstep := habove.quotient (spells_powerText hb.1 hb.2) (Dimension.div_single hzb (d.get b).size)
    rw [Exponent.neg_size hneg] at hstep
    rw [← List.append_assoc]
    refine hstep.further hnodup (fun k hk => ?_) hbs
    rw [Function.update_of_ne (ne_of_mem_of_not_mem hk hmem), hzero k hk]

/-- With one unit behind the division sign at most, the dimension itself is read, and with more of them none near it. -/
theorem near_reread : (reread d).near d = true ↔ (below d).length ≤ 1 := by
  have same {f : Base → Exponent} (hf : ∀ k, f k = d.get k) : (ofFn f).near d = true := by
    rw [show ofFn f = d from Dimension.ext_get fun k => by rw [Dimension.get_ofFn, hf k]]
    exact Dimension.near_refl d
  rw [reread]
  cases h : below d with
  | nil =>
    have hnear : (ofFn (upper d)).near d = true := same fun k => upper_of_not_below (by simp [h])
    simp [hnear]
  | cons b bs =>
    cases bs with
    | nil =>
      have hnear : (ofFn (sizesOver d [] (Function.update (upper d) b (d.get b)))).near d = true := same fun k => by
        rw [sizesOver_nil]
        by_cases hk : k = b
        · rw [hk, Function.update_self]
        · rw [Function.update_of_ne hk, upper_of_not_below (by simp [h, hk])]
      simp [hnear]
    | cons c bs =>
      -- the second unit is multiplied with, and so its exponent has the other sign
      have hneg : (d.get c).value.quanta < 0 := mem_below.mp (by simp [h])
      have hfar := Exponent.not_near_neg (Int.ne_of_lt hneg)
      refine iff_of_false (fun hnear => ?_) (by simp)
      have hc := Dimension.near_get hnear c
      rw [Dimension.get_ofFn, sizesOver, if_pos List.mem_cons_self, Exponent.size, if_pos hneg, hfar] at hc
      cases hc

end Format

/-! ### Printing and parsing -/

/-- The name of every derived unit is read as that unit. -/
theorem parse_derived : ∀ u ∈ derived, parse u.1.toList = .ok u.2 := by
  have hall : (derived.all fun u => (parse u.1.toList).toOption == some u.2) = true := by decide +kernel
  exact fun u hu => toOption_eq_some.mp (beq_iff_eq.mp (List.all_eq_true.mp hall u hu))

theorem format_of_derived {d : Dimension} {u : String × Dimension} (h : derived.find? (fun u => u.2.near d) = some u) :
    parse (format d) = .ok u.2 ∧ u.2.near d = true := by
  refine ⟨?_, List.find?_some (p := fun u : String × Dimension => u.2.near d) h⟩
  rw [format, h]
  exact parse_derived u (List.mem_of_find?_eq_some h)

section NotPlain
variable {d : Dimension} {b : Base} {c : Char}

theorem sign_mem_powerText (hp : ¬(d.get b).value.Plain) :
    (d.get b).value.quanta ≠ 0 ∧ ∃ c, (c = '-' ∨ c = '+') ∧ c ∈ powerText b (d.get b) := by
  have hne : (d.get b).value.quanta ≠ 0 := fun h => hp (Or.inl (by rw [h]; rfl))
  have hone : (d.get b).size.value ≠ 1 := fun h => by
    refine hp (size_plain.mp (Or.inl ?_))
    rw [h]
    exact Nat.mod_self _
  refine ⟨hne, ?_⟩
  rw [powerText_eq, if_neg hone]
  rcases Binary64.Finite.sign_mem_compactText (Exponent.size_pos hne) (size_plain.not.mpr hp) with h | h
  · exact ⟨'-', Or.inl rfl, by simp [h]⟩
  · exact ⟨'+', Or.inr rfl, by simp [h]⟩

theorem mem_product {bs : List Base} {k : Base} (hb : b ∈ k :: bs) (hc : c ∈ powerText b (d.get b)) :
    c ∈ powerText k (d.get k) ++ furtherText d bs := by
  rcases List.mem_cons.mp hb with rfl | hb
  · exact List.mem_append_left _ hc
  · exact List.mem_append_right _ (List.mem_flatMap.mpr ⟨b, hb, List.mem_cons_of_mem _ hc⟩)

theorem mem_texts (hb : (d.get b).value.quanta ≠ 0) (hc : c ∈ powerText b (d.get b)) : c ∈ aboveText d ++ belowText d := by
  rcases Int.lt_or_gt_of_ne hb with hneg | hpos
  · refine List.mem_append_right _ ?_
    have hmem := mem_below.mpr hneg
    rw [belowText]
    cases h : below d with
    | nil => simp [h] at hmem
    | cons k bs => exact List.mem_cons_of_mem _ (mem_product (h ▸ hmem) hc)
  · refine List.mem_append_left _ ?_
    have hmem := mem_above.mpr hpos
    rw [aboveText]
    cases h : above d with
    | nil => simp [h] at hmem
    | cons k bs => exact mem_product (h ▸ hmem) hc

/-- With an exponent that has no plain text nothing is read. -/
theorem parse_format_of_not_plain (h : derived.find? (fun u => u.2.near d) = none) (hp : ¬(d.get b).value.Plain)
    (e : Dimension) : parse (format d) ≠ .ok e := by
  obtain ⟨hne, c, hc, hmem⟩ := sign_mem_powerText hp
  rw [format_eq h]
  exact parse_of_sign hc (mem_texts hne hmem) e

end NotPlain

/-- A dimension is printed as a unit expression that reads as a dimension near it in two cases only: it is near a
    derived unit, or every exponent is an integer or at least 0.0001 in size, and no more than one is negative. -/
theorem exists_near_parse_format (d : Dimension) :
    (∃ e, parse (format d) = .ok e ∧ e.near d = true) ↔
      (∃ u ∈ derived, u.2.near d = true) ∨
        (∀ b, (d.get b).value.Plain) ∧ Base.all.countP (fun b => (d.get b).value.quanta < 0) ≤ 1 := by
  cases h : derived.find? fun u => u.2.near d with
  | some u =>
    obtain ⟨hparse, hnear⟩ := format_of_derived h
    exact iff_of_true ⟨_, hparse, hnear⟩ (Or.inl ⟨u, List.mem_of_find?_eq_some h, hnear⟩)
  | none =>
    have hnone : ¬∃ u ∈ derived, u.2.near d = true := fun ⟨u, hu, hnear⟩ => List.find?_eq_none.mp h u hu hnear
    have hcount : Base.all.countP (fun b => (d.get b).value.quanta < 0) = (below d).length := List.countP_eq_length_filter
    rw [or_iff_right hnone, hcount, ← near_reread]
    by_cases hp : ∀ b, (d.get b).value.Plain
    · have hparse : parse (format d) = .ok (reread d) := by
        rw [format_eq h]
        exact (spells_reread hp).parse
      rw [hparse, and_iff_right hp]
      exact ⟨fun ⟨e, he, hnear⟩ => Except.ok.inj he ▸ hnear, fun hnear => ⟨_, rfl, hnear⟩⟩
    · obtain ⟨b, hb⟩ := not_forall.mp hp
      exact iff_of_false (fun ⟨e, he, _⟩ => parse_format_of_not_plain h hb e he) fun hall => hp hall.1

theorem exists_of_any {text : List Char}
    (h : ((parse text).toOption.any fun d => !(parse (format d)).toOption.any fun e => e.near d) = true) :
    ∃ d, parse text = .ok d ∧ ¬∃ e, parse (format d) = .ok e ∧ e.near d = true := by
  cases hd : parse text with
  | error f =>
    rw [hd] at h
    cases h
  | ok d =>
    refine ⟨d, rfl, fun ⟨e, he, hnear⟩ => ?_⟩
    rw [hd] at h
    simp [Except.toOption, he, hnear] at h

/-- A unit divided by two others is printed with both behind one division sign, and an exponent below 0.0001 with a
    mark. Neither text reads as the dimension that was printed. -/
theorem not_near_parse_format :
    (∃ d, parse "kg/m/s".toList = .ok d ∧ ¬∃ e, parse (format d) = .ok e ∧ e.near d = true) ∧
      ∃ d, parse "m^0.00001".toList = .ok d ∧ ¬∃ e, parse (format d) = .ok e ∧ e.near d = true :=
  ⟨exists_of_any (by decide +kernel), exists_of_any (by decide +kernel)⟩

end UnitCheck.Units
