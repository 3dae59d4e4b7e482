import UnitCheck.Dimension.Build
import UnitCheck.Proofs.Dimension.Arithmetic

/-! # Products as merged tables

The exponents of a product or a quotient can be collected in a table: those of the first dimension in their
order, then those of the second, each added to what is under its base quantity, or put behind the others. The
dimension is then built from the entries, which sums them once more and reports the first that is not finite
in the order of the table. That is the product, or the quotient, failures included: an exponent overflows only
if both dimensions list it, and those are in the table in the order in which either of them lists them. -/

namespace UnitCheck

open Binary64 (Finite)

/-! ### Tables -/

namespace Table
variable {κ α : Type} [DecidableEq κ]

theorem keys_prefix_insertEntry (k : κ) (v : α) (es : List (κ × α)) :
    es.map Prod.fst <+: (insertEntry k v es).map Prod.fst := by
  induction es with
  | nil => exact List.nil_prefix
  | cons e rest ih =>
    by_cases hk : e.1 = k
    · have hsame : (insertEntry k v (e :: rest)).map Prod.fst = (e :: rest).map Prod.fst := by
        rw [insertEntry, if_pos hk, List.map_cons, List.map_cons, hk]
      exact hsame.symm ▸ List.prefix_rfl
    · rw [insertEntry, if_neg hk, List.map_cons, List.map_cons]
      exact (List.prefix_cons_inj e.1).mpr ih

/-- A written key stays behind those that were there. -/
theorem keys_prefix_update (t : Table κ α) (k : κ) (f : Option α → α) : t.keys <+: (t.update k f).keys :=
  keys_prefix_insertEntry k _ t.entries

omit [DecidableEq κ] in
theorem ext_entries {t u : Table κ α} (h : t.entries = u.entries) : t = u := by
  obtain ⟨es, _⟩ := t
  obtain ⟨fs, _⟩ := u
  dsimp only at h
  subst h
  rfl

theorem find?_eq_none {t : Table κ α} {k : κ} : t.find? k = none ↔ k ∉ t.keys := by
  rw [find?, List.lookup_eq_none_iff]
  constructor
  · intro h hk
    obtain ⟨e, he, rfl⟩ := List.mem_map.mp hk
    simpa using h e he
  · intro h e he
    have hne : k ≠ e.1 := by
      rintro rfl
      exact h (List.mem_map_of_mem he)
    simpa using hne

theorem contains_eq_false {t : Table κ α} {k : κ} : t.contains k = false ↔ k ∉ t.keys := by
  rw [contains, Option.isSome_eq_false_iff, Option.isNone_iff_eq_none, find?_eq_none]

/-- Entries under new keys are written behind the others. -/
theorem entries_foldl_insert (es : List (κ × α)) {t : Table κ α} (h : (t.keys ++ es.map Prod.fst).Nodup) :
    (es.foldl (fun t e => t.insert e.1 e.2) t).entries = t.entries ++ es := by
  induction es generalizing t with
  | nil => rw [List.foldl_nil, List.append_nil]
  | cons e rest ih =>
    have hfresh : t.contains e.1 = false := contains_eq_false.mpr fun hk =>
      (List.nodup_append.mp h).2.2 _ hk _ List.mem_cons_self rfl
    have hentries := entries_insert (v := e.2) hfresh
    rw [List.foldl_cons, ih, hentries, List.append_assoc, List.singleton_append]
    rw [keys, hentries, List.map_append, List.append_assoc]
    exact h

theorem ofList_entries (t : Table κ α) : ofList t.entries = t := by
  refine ext_entries ?_
  rw [ofList, entries_foldl_insert (t := empty) t.entries t.nodup]
  rfl

end Table

namespace Dimension

variable {a b : Dimension}

theorem nodup_bases (d : Dimension) : d.bases.Nodup := by
  have hsorted : Base.sorted.Nodup := by decide
  exact hsorted.filter _

/-! ### Summing -/

/-- Each exponent is summed where it first came. -/
theorem find?_foldl_add {bs : List Base} (h : bs.Nodup) (t : Table Base Binary64) (g : Base → Binary64) (k : Base) :
    (bs.foldl (fun t b => t.update b fun old => (old.getD (.finite 0)).add (g b)) t).find? k =
      if k ∈ bs then some (((t.find? k).getD (.finite 0)).add (g k)) else t.find? k := by
  induction bs generalizing t with
  | nil => rw [List.foldl_nil, if_neg List.not_mem_nil]
  | cons b bs ih =>
    obtain ⟨hb, hbs⟩ := List.nodup_cons.mp h
    rw [List.foldl_cons, ih hbs, Table.update, Table.find?_insert]
    by_cases hk : k = b
    · subst hk
      rw [if_neg hb, if_pos rfl, if_pos List.mem_cons_self]
    · rw [if_neg hk]
      simp only [List.mem_cons, hk, false_or]

theorem keys_prefix_foldl (bs : List Base) (t : Table Base Binary64) (g : Base → Option Binary64 → Binary64) :
    t.keys <+: (bs.foldl (fun t b => t.update b (g b)) t).keys := by
  induction bs generalizing t with
  | nil => exact List.prefix_rfl
  | cons b bs ih => exact (t.keys_prefix_update b (g b)).trans (ih _)

theorem zero_add_number (x : Binary64) : (Binary64.finite 0).add x = x := by
  cases x with
  | finite x => exact Finite.zero_add x
  | infinite | nan => rfl

theorem add_zero_number (x : Binary64) : x.add (.finite 0) = x := by
  cases x with
  | finite x => exact Finite.add_zero x
  | infinite | nan => rfl

/-- Summing the entries of a table from zero gives the table. -/
theorem sums_entries (es : List (Base × Binary64)) {t : Table Base Binary64} (h : (t.keys ++ es.map Prod.fst).Nodup) :
    sums (es.map fun e => (e.1, .real e.2)) t = .ok (es.foldl (fun t e => t.insert e.1 e.2) t) := by
  induction es generalizing t with
  | nil => rfl
  | cons e rest ih =>
    have hfresh : e.1 ∉ t.keys := fun hk => (List.nodup_append.mp h).2.2 _ hk _ List.mem_cons_self rfl
    rw [List.map_cons, sums, Number.toBinary64?, List.foldl_cons]
    dsimp only
    rw [Table.update, Table.find?_eq_none.mpr hfresh, Option.getD_none, zero_add_number, ih]
    rw [Table.keys, Table.entries_insert (Table.contains_eq_false.mpr hfresh), List.map_append, List.append_assoc]
    exact h

theorem namedBases_symbols (es : List (Base × Number)) :
    namedBases (es.map fun e => (e.1.symbol, e.2)) = .ok es := by
  induction es with
  | nil => rfl
  | cons e rest ih =>
    rw [List.map_cons, namedBases, Base.ofSymbol?_symbol]
    dsimp only
    rw [ih]
    rfl

/-- A dimension is built from the entries of a table without another failure than an exponent that is not finite. -/
theorem ofParts_entries (t : Table Base Binary64) :
    ofParts (t.entries.map fun e => (e.1.symbol, .real e.2)) =
      (ofNumbers t.keys fun b => (t.find? b).getD (.finite 0)).mapError .overflow := by
  have hnamed := namedBases_symbols (t.entries.map fun e => (e.1, .real e.2))
  rw [List.map_map] at hnamed
  have hsums : sums (t.entries.map fun e => (e.1, .real e.2)) ∅ = .ok t := by
    rw [sums_entries (t := ∅) t.entries t.nodup]
    exact congrArg Except.ok t.ofList_entries
  calc ofParts (t.entries.map fun e => (e.1.symbol, .real e.2))
      = (namedBases (t.entries.map fun e => (e.1.symbol, .real e.2)) >>= fun named => sums named ∅ >>= fun total =>
          (ofNumbers total.keys fun b => (total.find? b).getD (.finite 0)).mapError .overflow) := rfl
    _ = (sums (t.entries.map fun e => (e.1, .real e.2)) ∅ >>= fun total =>
          (ofNumbers total.keys fun b => (total.find? b).getD (.finite 0)).mapError .overflow) := congrArg (· >>= _) hnamed
    _ = _ := congrArg (· >>= _) hsums

/-! ### Merging -/

/-- The exponents of `a`, and those of `b` put through `f` and added. -/
def merged (f : Finite → Finite) (a b : Dimension) : Table Base Binary64 :=
  b.items.foldl (fun t i => t.update i.1 fun old => (old.getD (.finite 0)).add (.finite (f i.2.value)))
    (Table.ofList (a.items.map fun i => (i.1, .finite i.2.value)))

/-- The dimension that is built from the merged exponents. -/
def combined (f : Finite → Finite) (a b : Dimension) : Except BuildError Dimension :=
  ofParts ((merged f a b).entries.map fun e => (e.1.symbol, .real e.2))

section Merged
variable {f : Finite → Finite}

/-- The exponents that a dimension lists, under their base quantities. -/
def listed (d : Dimension) : Table Base Binary64 := Table.ofList (d.bases.map fun k => (k, .finite (d.get k).value))

theorem entries_listed (d : Dimension) : d.listed.entries = d.bases.map fun k => (k, .finite (d.get k).value) := by
  refine Table.entries_foldl_insert (t := Table.empty) _ ?_
  have hkeys : (d.bases.map fun k => (k, Binary64.finite (d.get k).value)).map Prod.fst = d.bases := by
    rw [List.map_map]
    exact List.map_id _
  rw [hkeys]
  exact d.nodup_bases

theorem keys_listed (d : Dimension) : d.listed.keys = d.bases := by
  rw [Table.keys, entries_listed, List.map_map]
  exact List.map_id _

theorem find?_listed (d : Dimension) (k : Base) : (d.listed.find? k).getD (.finite 0) = .finite (d.get k).value := by
  by_cases hk : k ∈ d.bases
  · have hentry : (k, .finite (d.get k).value) ∈ d.listed.entries := by
      rw [entries_listed]
      exact List.mem_map.mpr ⟨k, hk, rfl⟩
    rw [Table.find?_of_mem hentry, Option.getD_some]
  · have hnone : d.listed.find? k = none := Table.find?_eq_none.mpr (d.keys_listed ▸ hk)
    rw [hnone, Option.getD_none, get_eq_zero hk]
    rfl

theorem merged_eq (f : Finite → Finite) (a b : Dimension) :
    merged f a b = b.bases.foldl (fun t k => t.update k fun old => (old.getD (.finite 0)).add (.finite (f (b.get k).value)))
      a.listed := by
  rw [merged, items, items, List.foldl_map, List.map_map]
  rfl

/-- The base quantities of the first dimension come first, in their order. -/
theorem keys_merged (f : Finite → Finite) (a b : Dimension) : a.bases <+: (merged f a b).keys := by
  rw [merged_eq, ← keys_listed a]
  exact keys_prefix_foldl b.bases a.listed fun k old => (old.getD (.finite 0)).add (.finite (f (b.get k).value))

theorem find?_merged (hf : f 0 = 0) (a b : Dimension) (k : Base) :
    ((merged f a b).find? k).getD (.finite 0) = (a.get k).value.add (f (b.get k).value) := by
  rw [merged_eq, find?_foldl_add b.nodup_bases]
  by_cases hk : k ∈ b.bases
  · rw [if_pos hk, Option.getD_some, find?_listed]
    rfl
  · rw [if_neg hk, find?_listed, get_eq_zero hk]
    exact (hf ▸ Finite.add_zero _).symm

/-- An exponent that overflows is one that the first dimension lists. -/
theorem mem_bases_of_not_finite {k : Base} {y : Finite}
    (h : ((a.get k).value.add y).toFinite?.isNone = true) : k ∈ a.bases := by
  by_contra hk
  rw [get_eq_zero hk] at h
  have hsum : (0 : Exponent).value.add y = .finite y := Finite.zero_add y
  rw [hsum] at h
  cases h

theorem find?_keys_merged (f : Finite → Finite) (a b : Dimension) (g : Base → Finite) :
    (merged f a b).keys.find? (fun k => ((a.get k).value.add (g k)).toFinite?.isNone) =
      Base.sorted.find? fun k => ((a.get k).value.add (g k)).toFinite?.isNone := by
  obtain ⟨rest, hkeys⟩ := keys_merged f a b
  have hbases : a.bases.find? (fun k => ((a.get k).value.add (g k)).toFinite?.isNone) =
      Base.sorted.find? fun k => ((a.get k).value.add (g k)).toFinite?.isNone := by
    rw [bases, List.find?_filter]
    refine congrArg (List.find? · Base.sorted) (funext fun k => ?_)
    rw [Bool.eq_iff_iff, decide_eq_true_eq]
    refine and_iff_right_of_imp fun hk => ?_
    have hmem := List.mem_filter.mp (mem_bases_of_not_finite hk)
    exact hmem.2
  rw [← hkeys, List.find?_append, hbases]
  cases hfind : Base.sorted.find? fun k => ((a.get k).value.add (g k)).toFinite?.isNone with
  | some k => rfl
  | none =>
    rw [Option.none_or]
    exact List.find?_eq_none.mpr fun k _ => List.find?_eq_none.mp hfind k (Base.mem_sorted k)

/-- The merged exponents give the dimension of the sums, or the overflow that the sums give. -/
theorem combined_eq (hf : f 0 = 0) (a b : Dimension) :
    combined f a b =
      (ofNumbers Base.sorted fun k => (a.get k).value.add (f (b.get k).value)).mapError .overflow := by
  have hnumbers : (fun k => ((merged f a b).find? k).getD (.finite 0)) = fun k => (a.get k).value.add (f (b.get k).value) :=
    funext (find?_merged hf a b)
  rw [combined, ofParts_entries, hnumbers, ofNumbers, ofNumbers, find?_keys_merged]

theorem combined_id (a b : Dimension) : combined id a b = (a.mul b).mapError .overflow := combined_eq rfl a b

end Merged

end Dimension

end UnitCheck
