import Mathlib.Data.List.Nodup
import UnitCheck.Dimension.Printer
import UnitCheck.Proofs.Binary64.Literal
import UnitCheck.Proofs.Dimension.Arithmetic

/-! # Canonical texts

A product is printed as names with exponents between separators. Names are letters, so a name ends where its
exponent begins; a separator is in no name and in no number, so the text splits into its factors again. The
product of nothing is a one, and no name begins with that. So no two products have the same text, and with it
no two dimensions have the same canonical text. -/

namespace UnitCheck

open Binary64 (Finite textChars)

namespace Product

variable {name : Base → List Char} {ps qs : List (Base × Finite)} {p : Base × Finite} {c s : Char}

/-- Names of letters, each of another base quantity. -/
structure Naming (name : Base → List Char) : Prop where
  nodup : (Base.all.map name).Nodup
  nonempty : ∀ b, name b ≠ []
  letters : ∀ b, (name b).all Char.isAlpha = true

/-! ### Factors -/

/-- What an exponent adds to a name. -/
def exponentText (x : Finite) : List Char := if x = 1 then [] else '^' :: x.compactText

/-- A name to a power. -/
def power (name : Base → List Char) (p : Base × Finite) : List Char := name p.1 ++ exponentText p.2

theorem power_eq (name : Base → List Char) (p : Base × Finite) :
    power name p = if p.2 = 1 then name p.1 else name p.1 ++ '^' :: p.2.compactText := by
  unfold power exponentText
  split
  · exact List.append_nil _
  · rfl

theorem exponentText_inj {x y : Finite} (h : exponentText x = exponentText y) : x = y := by
  unfold exponentText at h
  by_cases hx : x = 1
  · by_cases hy : y = 1
    · rw [hx, hy]
    · rw [if_pos hx, if_neg hy] at h
      cases h
  · by_cases hy : y = 1
    · rw [if_neg hx, if_pos hy] at h
      cases h
    · rw [if_neg hx, if_neg hy] at h
      exact Finite.compactText_inj (List.cons.inj h).2

theorem exponentText_chars {x : Finite} (h : c ∈ exponentText x) : c ∈ '^' :: textChars := by
  unfold exponentText at h
  split at h
  · cases h
  · rcases List.mem_cons.mp h with rfl | h
    · exact List.mem_cons_self
    · exact List.mem_cons_of_mem _ (x.compactText_chars c h)

/-- An exponent does not go on with the name. -/
theorem exponentText_head (x : Finite) : ∀ c ∈ (exponentText x).head?, c.isAlpha = false := by
  intro c h
  unfold exponentText at h
  split at h
  · cases h
  · cases h
    rfl

theorem power_inj (hname : Naming name) : Function.Injective (power name) := by
  rintro ⟨b, x⟩ ⟨k, y⟩ h
  have hletters (b : Base) := List.all_eq_true.mp (hname.letters b)
  have hnames := congrArg (List.takeWhile Char.isAlpha) h
  simp only [power] at h hnames
  rw [Text.takeWhile_run (hletters b) (exponentText_head x), Text.takeWhile_run (hletters k) (exponentText_head y)] at hnames
  rw [hnames] at h
  have hb : b = k := List.inj_on_of_nodup_map hname.nodup (Base.mem_all b) (Base.mem_all k) hnames
  have hx : x = y := exponentText_inj (List.append_cancel_left h)
  rw [hb, hx]

theorem power_head (hname : Naming name) (p : Base × Finite) : (power name p).head? = (name p.1).head? :=
  List.head?_append_of_ne_nil _ (hname.nonempty p.1)

/-! ### Products -/

/-- The texts of the factors; a product of none is a one. -/
def factors (name : Base → List Char) (ps : List (Base × Finite)) : List (List Char) :=
  if ps = [] then [['1']] else ps.map (power name)

/-- A product with a separator between its factors. -/
def text (s : Char) (name : Base → List Char) (ps : List (Base × Finite)) : List Char :=
  [s].intercalate (factors name ps)

/-- A character that no factor has in it. -/
def Separator (c : Char) : Prop := c.isAlpha = false ∧ c ∉ '^' :: textChars

theorem factors_ne_nil : factors name ps ≠ [] := by
  unfold factors
  split
  · exact List.cons_ne_nil _ _
  · rename_i h
    exact mt List.map_eq_nil_iff.mp h

theorem factors_inj (hname : Naming name) (h : factors name ps = factors name qs) : ps = qs := by
  have hone (p : Base × Finite) (ps : List (Base × Finite)) : [['1']] ≠ (p :: ps).map (power name) := fun h => by
    have hp : ['1'] = power name p := (List.cons.inj h).1
    have hletter := List.all_eq_true.mp (hname.letters p.1) '1'
    have hhead := power_head hname p
    rw [← hp] at hhead
    cases hletter (List.mem_of_head? hhead.symm)
  cases ps with
  | nil =>
    cases qs with
    | nil => rfl
    | cons q qs => exact absurd h (hone q qs)
  | cons p ps =>
    cases qs with
    | nil => exact absurd h.symm (hone p ps)
    | cons q qs => exact List.map_injective_iff.mpr (power_inj hname) h

theorem not_mem_factors (hname : Naming name) (hc : Separator c) : ∀ l ∈ factors name ps, c ∉ l := by
  intro l hl hmem
  unfold factors at hl
  split at hl
  · rw [List.mem_singleton.mp hl] at hmem
    rw [List.mem_singleton.mp hmem] at hc
    exact hc.2 (by decide)
  · obtain ⟨p, -, rfl⟩ := List.mem_map.mp hl
    rcases List.mem_append.mp hmem with hmem | hmem
    · exact Bool.false_ne_true (hc.1.symm.trans (List.all_eq_true.mp (hname.letters p.1) c hmem))
    · exact hc.2 (exponentText_chars hmem)

theorem not_mem_intercalate {ls : List (List Char)} (hne : c ≠ s) (h : ∀ l ∈ ls, c ∉ l) : c ∉ [s].intercalate ls := by
  induction ls with
  | nil => exact List.not_mem_nil
  | cons l ls ih =>
    obtain ⟨hl, hrest⟩ := List.forall_mem_cons.mp h
    cases ls with
    | nil => rwa [List.intercalate_singleton]
    | cons m ls =>
      rw [List.intercalate_cons_cons]
      simp only [List.mem_append, List.mem_singleton, not_or]
      exact ⟨⟨hl, hne⟩, ih hrest⟩

theorem not_mem_text (hname : Naming name) (hc : Separator c) (hne : c ≠ s) : c ∉ text s name ps :=
  not_mem_intercalate hne (not_mem_factors hname hc)

theorem text_inj (hname : Naming name) (hs : Separator s) (h : text s name ps = text s name qs) : ps = qs := by
  have hsplit (ps : List (Base × Finite)) : (text s name ps).splitOn s = factors name ps :=
    List.splitOn_intercalate s (not_mem_factors hname hs) factors_ne_nil
  exact factors_inj hname (by rw [← hsplit ps, h, hsplit qs])

theorem head_intercalate {l : List Char} (hl : l ≠ []) (ls : List (List Char)) :
    ([s].intercalate (l :: ls)).head? = l.head? := by
  cases ls with
  | nil => rw [List.intercalate_singleton]
  | cons m ls => rw [List.intercalate_cons_cons, List.append_assoc, List.head?_append_of_ne_nil _ hl]

/-- A product begins with a one or as a name does. -/
theorem text_head (hname : Naming name) (s : Char) (ps : List (Base × Finite)) :
    ∃ c, (text s name ps).head? = some c ∧ (c = '1' ∨ ∃ b, some c = (name b).head?) := by
  cases ps with
  | nil => exact ⟨'1', rfl, Or.inl rfl⟩
  | cons p ps =>
    obtain ⟨c, rest, hp⟩ := List.exists_cons_of_ne_nil (hname.nonempty p.1)
    have hpower : power name p = c :: (rest ++ exponentText p.2) := by rw [power, hp, List.cons_append]
    refine ⟨c, (head_intercalate (l := power name p) ?_ _).trans ?_, Or.inr ⟨p.1, ?_⟩⟩
    · rw [hpower]
      exact List.cons_ne_nil _ _
    · rw [hpower]
      rfl
    · rw [hp]
      rfl

end Product

/-! ### Dimensions -/

namespace Dimension

variable {a b : Dimension}

theorem naming_symbol : Product.Naming fun b => b.symbol.toList :=
  ⟨by decide, fun b => by cases b <;> decide, fun b => by cases b <;> decide⟩

theorem canonicalText_eq (d : Dimension) :
    d.canonicalText = Product.text ' ' (fun b => b.symbol.toList) (d.items.map fun p => (p.1, p.2.value)) := by
  have hitem (p : Base × Exponent) : itemText p.1 p.2 = Product.power (fun b => b.symbol.toList) (p.1, p.2.value) :=
    (Product.power_eq (fun b => b.symbol.toList) (p.1, p.2.value)).symm
  rw [canonicalText, isOne, items, Product.text, Product.factors]
  cases d.bases with
  | nil => rfl
  | cons b bs => simp [hitem, Function.comp_def]

/-- Dimensions with the same canonical text have the same exponents, and conversely. -/
theorem canonical_inj : a.canonical = b.canonical ↔ a.items = b.items := by
  constructor
  · intro h
    have htext : a.canonicalText = b.canonicalText := String.ofList_injective h
    rw [canonicalText_eq, canonicalText_eq] at htext
    have hitems := Product.text_inj naming_symbol ⟨rfl, by decide⟩ htext
    refine List.map_injective_iff.mpr ?_ hitems
    rintro ⟨k, x⟩ ⟨l, y⟩ h
    obtain ⟨hk, hvalue⟩ := Prod.mk.inj h
    exact Prod.ext hk (Exponent.ext_value hvalue)
  · intro h
    rw [items_inj.mp h]

end Dimension

end UnitCheck
