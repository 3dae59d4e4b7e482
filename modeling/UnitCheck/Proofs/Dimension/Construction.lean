import Mathlib.Data.List.Nodup
import Mathlib.Data.List.Perm.Basic
import UnitCheck.Dimension.Named
import UnitCheck.Proofs.Dimension.Merging

/-! # Dimensions as they are written

A dimension is written as the list of its exponents, each under the symbol of its base quantity. Construction
takes any list of numbers under symbols: it sums those under each symbol, and writes the sums that are at least
the tolerance in size, in the order of their symbols. So what is written is always of one form, and constructing
from it, in any order, gives it back. Products, quotients and powers construct from what they compute. -/

namespace UnitCheck

open Binary64 (Finite)

/-! ### Tables of numbers -/

namespace Table
variable {κ α β : Type} [DecidableEq κ]

theorem map_insertEntry (f : α → β) (k : κ) (v : α) (es : List (κ × α)) :
    (insertEntry k v es).map (fun e => (e.1, f e.2)) = insertEntry k (f v) (es.map fun e => (e.1, f e.2)) := by
  induction es with
  | nil => rfl
  | cons e es ih =>
    rw [insertEntry, List.map_cons, insertEntry]
    by_cases hk : e.1 = k
    · rw [if_pos hk, if_pos hk, List.map_cons]
    · rw [if_neg hk, if_neg hk, List.map_cons, ih]

theorem map_insert (f : α → β) (t : Table κ α) (k : κ) (v : α) : (t.insert k v).map f = (t.map f).insert k (f v) :=
  ext_entries (map_insertEntry f k v t.entries)

theorem map_foldl_insert (f : α → β) (es : List (κ × α)) (t : Table κ α) :
    (es.foldl (fun t e => t.insert e.1 e.2) t).map f =
      (es.map fun e => (e.1, f e.2)).foldl (fun t e => t.insert e.1 e.2) (t.map f) := by
  induction es generalizing t with
  | nil => rfl
  | cons e es ih => rw [List.foldl_cons, ih, map_insert, List.map_cons, List.foldl_cons]

theorem map_ofList (f : α → β) (es : List (κ × α)) : (ofList es).map f = ofList (es.map fun e => (e.1, f e.2)) :=
  map_foldl_insert f es empty

theorem map_union (f : α → β) (t u : Table κ α) : (t.union u).map f = (t.map f).union (u.map f) :=
  map_foldl_insert f u.entries t

end Table

namespace Dimension

/-! ### Numbers under keys -/

section Sums
variable {κ : Type} [DecidableEq κ]

/-- The numbers under a key, added in their order to another. -/
def sumFrom (sum : Binary64) (parts : List (κ × Binary64)) (k : κ) : Binary64 :=
  parts.foldl (fun sum p => if p.1 = k then sum.add p.2 else sum) sum

/-- The sum of the numbers under a key. -/
def total (parts : List (κ × Binary64)) (k : κ) : Binary64 := sumFrom (.finite 0) parts k

variable {parts : List (κ × Binary64)} {sum : Binary64} {k : κ}

theorem sumFrom_append (sum : Binary64) (ps qs : List (κ × Binary64)) (k : κ) :
    sumFrom sum (ps ++ qs) k = sumFrom (sumFrom sum ps k) qs k :=
  List.foldl_append

theorem sumFrom_of_not_mem (h : k ∉ parts.map Prod.fst) : sumFrom sum parts k = sum := by
  induction parts generalizing sum with
  | nil => rfl
  | cons p parts ih =>
    rw [List.map_cons, List.mem_cons, not_or] at h
    rw [sumFrom, List.foldl_cons, if_neg (Ne.symm h.1)]
    exact ih h.2

theorem total_of_not_mem (h : k ∉ parts.map Prod.fst) : total parts k = .finite 0 := sumFrom_of_not_mem h

/-- Where every key comes once, its number is added. -/
theorem sumFrom_of_mem {x : Binary64} (hn : (parts.map Prod.fst).Nodup) (h : (k, x) ∈ parts) :
    sumFrom sum parts k = sum.add x := by
  induction parts generalizing sum with
  | nil => cases h
  | cons p parts ih =>
    obtain ⟨hfresh, hn⟩ := List.nodup_cons.mp hn
    rw [sumFrom, List.foldl_cons]
    rcases List.mem_cons.mp h with rfl | hmem
    · rw [if_pos rfl]
      exact sumFrom_of_not_mem hfresh
    · have hne : p.1 ≠ k := fun hk => hfresh (List.mem_map.mpr ⟨(k, x), hmem, hk.symm⟩)
      rw [if_neg hne]
      exact ih hn hmem

/-- The order does not matter where every key comes once. -/
theorem total_perm {ps qs : List (κ × Binary64)} (h : ps.Perm qs) (hn : (ps.map Prod.fst).Nodup) (k : κ) :
    total ps k = total qs k := by
  refine h.foldl_eq' (fun p hp q hq sum => ?_) _
  by_cases hk : p.1 = k ∧ q.1 = k
  · rw [List.inj_on_of_nodup_map hn hp hq (hk.1.trans hk.2.symm)]
  · rcases not_and_or.mp hk with hp | hq
    · rw [if_neg hp, if_neg hp]
    · rw [if_neg hq, if_neg hq]

theorem sumFrom_map_fst {ι : Type} [DecidableEq ι] {f : ι → κ} (hf : Function.Injective f) (sum : Binary64)
    (es : List (ι × Binary64)) (i : ι) : sumFrom sum (es.map fun e => (f e.1, e.2)) (f i) = sumFrom sum es i := by
  rw [sumFrom, List.foldl_map]
  simp only [hf.eq_iff]
  rfl

end Sums

/-! ### Construction from real numbers -/

/-- The symbols of the base quantities. -/
def symbols : List String := Base.all.map Base.symbol

/-- The dimension of real numbers under symbols. -/
def ofReals (parts : List (String × Binary64)) : Except BuildError Dimension :=
  ofParts (parts.map fun p => (p.1, .real p.2))

section Construction
variable {parts : List (String × Binary64)} {es : List (Base × Binary64)} {d : Dimension}

theorem symbol_injective : Function.Injective Base.symbol := fun a b h => by
  have hb := Base.ofSymbol?_symbol b
  rw [← h, Base.ofSymbol?_symbol] at hb
  exact Option.some.inj hb

theorem mem_symbols {s : String} : s ∈ symbols ↔ ∃ b : Base, b.symbol = s := by
  simp [symbols, Base.mem_all]

theorem symbol_of_ofSymbol? {s : String} {b : Base} (h : Base.ofSymbol? s = some b) : b.symbol = s :=
  of_decide_eq_true (List.find?_some (p := fun b : Base => decide (b.symbol = s)) h)

theorem not_mem_symbols {s : String} (h : Base.ofSymbol? s = none) : s ∉ symbols := by
  rw [mem_symbols]
  rintro ⟨b, rfl⟩
  rw [Base.ofSymbol?_symbol] at h
  cases h

/-- The symbols are all known, or the first that is not is refused. -/
theorem exists_named (parts : List (String × Binary64)) :
    (∃ es : List (Base × Binary64), parts = es.map fun e => (e.1.symbol, e.2)) ∨
      ∃ p ∈ parts, p.1 ∉ symbols ∧ namedBases (parts.map fun p => (p.1, .real p.2)) = .error (.unknownBase p.1) := by
  induction parts with
  | nil => exact Or.inl ⟨[], rfl⟩
  | cons p parts ih =>
    cases hb : Base.ofSymbol? p.1 with
    | none => exact Or.inr ⟨p, List.mem_cons_self, not_mem_symbols hb, by rw [List.map_cons, namedBases, hb]⟩
    | some b =>
      rcases ih with ⟨es, rfl⟩ | ⟨q, hq, hnot, herror⟩
      · exact Or.inl ⟨(b, p.2) :: es, by rw [List.map_cons, symbol_of_ofSymbol? hb]⟩
      · refine Or.inr ⟨q, List.mem_cons_of_mem p hq, hnot, ?_⟩
        rw [List.map_cons, namedBases, hb]
        dsimp only
        rw [herror]
        rfl

theorem exists_sums (es : List (Base × Binary64)) (t : Table Base Binary64) :
    ∃ u, sums (es.map fun e => (e.1, .real e.2)) t = .ok u ∧
      ∀ k, (u.find? k).getD (.finite 0) = sumFrom ((t.find? k).getD (.finite 0)) es k := by
  induction es generalizing t with
  | nil => exact ⟨t, rfl, fun k => rfl⟩
  | cons e es ih =>
    obtain ⟨u, hu, hfind⟩ := ih (t.update e.1 fun old => (old.getD (.finite 0)).add e.2)
    refine ⟨u, hu, fun k => ?_⟩
    rw [hfind, Table.update, Table.find?_insert, sumFrom, sumFrom, List.foldl_cons]
    by_cases hk : k = e.1
    · rw [if_pos hk, if_pos hk.symm, hk, Option.getD_some]
    · rw [if_neg hk, if_neg (Ne.symm hk)]

/-- Numbers under known symbols are summed, and the dimension is that of the sums. -/
theorem ofReals_cases (parts : List (String × Binary64)) :
    ((∀ p ∈ parts, p.1 ∈ symbols) ∧ ∃ t : Table Base Binary64,
      (∀ k, (t.find? k).getD (.finite 0) = total parts k.symbol) ∧
      ofReals parts = (ofNumbers t.keys fun k => (t.find? k).getD (.finite 0)).mapError .overflow) ∨
    ∃ p ∈ parts, p.1 ∉ symbols ∧ ofReals parts = .error (.unknownBase p.1) := by
  rcases exists_named parts with ⟨es, rfl⟩ | ⟨p, hp, hnot, hnamed⟩
  · obtain ⟨t, ht, hfind⟩ := exists_sums es ∅
    have hnamed : namedBases ((es.map fun e => (e.1.symbol, e.2)).map fun p => (p.1, .real p.2)) =
        .ok (es.map fun e => (e.1, .real e.2)) := by
      rw [← namedBases_symbols, List.map_map, List.map_map]
      rfl
    refine Or.inl ⟨fun p hp => ?_, t, fun k => ?_, ?_⟩
    · obtain ⟨e, -, rfl⟩ := List.mem_map.mp hp
      exact mem_symbols.mpr ⟨e.1, rfl⟩
    · rw [hfind, total, sumFrom_map_fst symbol_injective]
      rfl
    · rw [ofReals, ofParts, hnamed, ok_bind, ht, ok_bind]
  · refine Or.inr ⟨p, hp, hnot, ?_⟩
    rw [ofReals, ofParts, hnamed, error_bind]

/-- There is a dimension when every symbol is known and every sum finite, and its exponents are the sums that count. -/
theorem ofReals_eq_ok : ofReals parts = .ok d ↔
    (∀ p ∈ parts, p.1 ∈ symbols) ∧ ∀ k : Base, ∃ x, total parts k.symbol = .finite x ∧ d.get k = Exponent.prune x := by
  rcases ofReals_cases parts with ⟨hknown, t, hfind, heq⟩ | ⟨p, hp, hnot, heq⟩
  · have hkeys : ∀ k ∉ t.keys, ∃ x, (t.find? k).getD (.finite 0) = .finite x := fun k hk =>
      ⟨0, by rw [Table.find?_eq_none.mpr hk, Option.getD_none]⟩
    rw [heq, mapError_eq_ok, ofNumbers_eq_ok_of hkeys]
    simp only [hfind]
    exact (and_iff_right hknown).symm
  · rw [heq]
    constructor
    · intro hd
      cases hd
    · exact fun h => absurd (h.1 p hp) hnot

/-- What construction from real numbers can refuse: a symbol, or a sum where all symbols are known. -/
inductive Refused (parts : List (String × Binary64)) : BuildError → Prop where
  | unknown {p : String × Binary64} (mem : p ∈ parts) (unknown : p.1 ∉ symbols) : Refused parts (.unknownBase p.1)
  | overflow {k : Base} (known : ∀ p ∈ parts, p.1 ∈ symbols) (unbounded : (total parts k.symbol).toFinite? = none) :
      Refused parts (.overflow ⟨k, total parts k.symbol⟩)

theorem ofReals_refused (parts : List (String × Binary64)) : OnError (Refused parts) (ofReals parts) := by
  rcases ofReals_cases parts with ⟨hknown, t, hfind, heq⟩ | ⟨p, hp, hnot, heq⟩
  · intro e he
    rw [heq] at he
    rcases ok_or_error (ofNumbers t.keys fun k => (t.find? k).getD (.finite 0)) with ⟨d, hd⟩ | ⟨⟨k, x⟩, ho⟩
    · rw [hd] at he
      cases he
    · rw [ho] at he
      cases he
      obtain ⟨hnone, hx⟩ := ofNumbers_eq_error ho
      dsimp only at hnone hx
      rw [hfind] at hnone hx
      exact hx ▸ .overflow hknown hnone
  · rw [heq]
    exact .error (.unknown hp hnot)

end Construction

/-! ### Written exponents -/

/-- What is made of each exponent, under the symbol of its base quantity. -/
def listing (g : Finite → Binary64) (d : Dimension) : List (String × Binary64) :=
  d.items.map fun i => (i.1.symbol, g i.2.value)

/-- The exponents under the symbols of their base quantities. -/
def written (d : Dimension) : List (String × Binary64) := d.listing .finite

/-- A finite number of at least the tolerance in size. -/
def Significant (x : Binary64) : Prop := ∃ y, x = .finite y ∧ Exponent.tolerance ≤ y.quanta.natAbs

theorem significant_finite {y : Finite} : Significant (.finite y) ↔ Exponent.tolerance ≤ y.quanta.natAbs := by
  constructor
  · rintro ⟨z, hz, hle⟩
    rwa [Binary64.finite.inj hz]
  · exact fun hle => ⟨y, rfl, hle⟩

/-- Significant numbers under symbols of base quantities that increase. -/
structure Canonical (items : List (String × Binary64)) : Prop where
  increasing : (items.map Prod.fst).Pairwise (· < ·)
  known : ∀ i ∈ items, i.1 ∈ symbols
  significant : ∀ i ∈ items, Significant i.2

section Written
variable {parts : List (String × Binary64)} {g : Finite → Binary64} {a b d : Dimension} {k : Base}

theorem listing_eq (g : Finite → Binary64) (d : Dimension) :
    d.listing g = d.bases.map fun k => (k.symbol, g (d.get k).value) := by
  rw [listing, items, List.map_map]
  rfl

theorem fst_listing (g : Finite → Binary64) (d : Dimension) : (d.listing g).map Prod.fst = d.bases.map Base.symbol := by
  rw [listing_eq, List.map_map]
  rfl

theorem nodup_listing (g : Finite → Binary64) (d : Dimension) : ((d.listing g).map Prod.fst).Nodup := by
  rw [fst_listing]
  exact d.nodup_bases.map symbol_injective

theorem mem_written {s : String} {x : Binary64} :
    (s, x) ∈ d.written ↔ ∃ k ∈ d.bases, k.symbol = s ∧ .finite (d.get k).value = x := by
  simp [written, listing_eq]

theorem mem_written_symbol {x : Binary64} :
    (k.symbol, x) ∈ d.written ↔ k ∈ d.bases ∧ .finite (d.get k).value = x := by
  rw [mem_written]
  constructor
  · rintro ⟨l, hl, hsymbol, hx⟩
    rw [← symbol_injective hsymbol]
    exact ⟨hl, hx⟩
  · rintro ⟨hk, hx⟩
    exact ⟨k, hk, rfl, hx⟩

theorem known_listing (g : Finite → Binary64) (d : Dimension) : ∀ i ∈ d.listing g, i.1 ∈ symbols := by
  intro i hi
  obtain ⟨j, -, rfl⟩ := List.mem_map.mp hi
  exact mem_symbols.mpr ⟨j.1, rfl⟩

theorem canonical_written (d : Dimension) : Canonical d.written where
  increasing := by
    have hsorted : (Base.sorted.map Base.symbol).Pairwise (· < ·) := by decide
    rw [written, fst_listing]
    exact hsorted.sublist (List.filter_sublist.map Base.symbol)
  known := d.known_listing .finite
  significant := by
    rintro ⟨s, x⟩ hi
    obtain ⟨k, hk, -, rfl⟩ := mem_written.mp hi
    exact ⟨_, rfl, (d.get k).significant.resolve_left (mem_bases.mp hk)⟩

/-- A listing adds to a sum what it makes of the exponent, and nothing where there is none. -/
theorem sumFrom_listing (hg : g 0 = .finite 0) (sum : Binary64) (d : Dimension) (k : Base) :
    sumFrom sum (d.listing g) k.symbol = sum.add (g (d.get k).value) := by
  by_cases hk : k ∈ d.bases
  · refine sumFrom_of_mem (d.nodup_listing g) ?_
    rw [listing_eq]
    exact List.mem_map.mpr ⟨k, hk, rfl⟩
  · have hnot : k.symbol ∉ (d.listing g).map Prod.fst := by
      rw [fst_listing, List.mem_map_of_injective symbol_injective]
      exact hk
    have hzero : g (d.get k).value = .finite 0 := by
      rw [get_eq_zero hk]
      exact hg
    rw [sumFrom_of_not_mem hnot, hzero, add_zero_number]

theorem total_listing (hg : g 0 = .finite 0) (d : Dimension) (k : Base) :
    total (d.listing g) k.symbol = g (d.get k).value := by
  rw [total, sumFrom_listing hg, zero_add_number]

/-- The written exponents give back the dimension, in any order. -/
theorem ofReals_of_perm {items : List (String × Binary64)} (h : items.Perm d.written) : ofReals items = .ok d := by
  have hn : (items.map Prod.fst).Nodup := (h.map Prod.fst).nodup_iff.mpr (d.nodup_listing .finite)
  refine ofReals_eq_ok.mpr ⟨fun p hp => d.known_listing .finite p (h.subset hp), fun k => ⟨(d.get k).value, ?_, ?_⟩⟩
  · rw [total_perm h hn]
    exact total_listing rfl d k
  · exact (Exponent.prune_value _).symm

/-- A number is the exponent that counts where it is written if it counts, and nothing is otherwise. -/
theorem get_eq_prune_iff {y : Finite} :
    d.get k = Exponent.prune y ↔ ∀ x, (k.symbol, x) ∈ d.written ↔ x = .finite y ∧ Significant x := by
  constructor
  · intro h x
    rw [mem_written_symbol, mem_bases, h]
    rcases Nat.lt_or_ge y.quanta.natAbs Exponent.tolerance with hlt | hle
    · rw [Exponent.prune_of_lt hlt]
      refine ⟨fun hk => absurd rfl hk.1, ?_⟩
      rintro ⟨rfl, hx⟩
      exact absurd (significant_finite.mp hx) (Nat.not_le_of_lt hlt)
    · have hne : y.quanta ≠ 0 := Int.natAbs_ne_zero.mp (Nat.ne_of_gt (Nat.lt_of_lt_of_le Exponent.tolerance_pos hle))
      rw [Exponent.prune_of_le hle]
      constructor
      · rintro ⟨-, rfl⟩
        exact ⟨rfl, significant_finite.mpr hle⟩
      · rintro ⟨rfl, -⟩
        exact ⟨hne, rfl⟩
  · intro h
    rcases Nat.lt_or_ge y.quanta.natAbs Exponent.tolerance with hlt | hle
    · have hk : k ∉ d.bases := fun hk => by
        obtain ⟨hx, hcounts⟩ := (h _).mp (mem_written_symbol.mpr ⟨hk, rfl⟩)
        rw [hx] at hcounts
        exact absurd (significant_finite.mp hcounts) (Nat.not_le_of_lt hlt)
      rw [get_eq_zero hk, Exponent.prune_of_lt hlt]
    · have hx := (mem_written_symbol.mp ((h _).mpr ⟨rfl, significant_finite.mpr hle⟩)).2
      refine Exponent.ext_value ?_
      rw [Exponent.prune_of_le hle]
      exact Binary64.finite.inj hx

/-- A sum is finite where nothing is summed. -/
theorem finite_total (h : ∀ p ∈ parts, ∃ y, total parts p.1 = .finite y) (s : String) :
    ∃ y, total parts s = .finite y := by
  by_cases hs : s ∈ parts.map Prod.fst
  · obtain ⟨p, hp, rfl⟩ := List.mem_map.mp hs
    exact h p hp
  · exact ⟨0, total_of_not_mem hs⟩

/-- Construction gives what counts of the sums, all of which are finite. -/
theorem ofReals_eq_ok_iff_written : ofReals parts = .ok d ↔
    (∀ p ∈ parts, p.1 ∈ symbols ∧ ∃ y, total parts p.1 = .finite y) ∧
      ∀ s x, (s, x) ∈ d.written ↔ x = total parts s ∧ Significant x := by
  rw [ofReals_eq_ok]
  constructor
  · rintro ⟨hknown, hsums⟩
    refine ⟨fun p hp => ⟨hknown p hp, ?_⟩, fun s x => ?_⟩
    · obtain ⟨k, hk⟩ := mem_symbols.mp (hknown p hp)
      obtain ⟨y, hy, -⟩ := hsums k
      exact ⟨y, hk ▸ hy⟩
    · by_cases hs : s ∈ symbols
      · obtain ⟨k, rfl⟩ := mem_symbols.mp hs
        obtain ⟨y, hy, hget⟩ := hsums k
        rw [hy]
        exact get_eq_prune_iff.mp hget x
      · -- Nothing is summed under a symbol that is not known, and zero does not count.
        have hnone : s ∉ parts.map Prod.fst := fun hmem => by
          obtain ⟨p, hp, rfl⟩ := List.mem_map.mp hmem
          exact hs (hknown p hp)
        rw [total_of_not_mem hnone]
        refine ⟨fun hx => absurd (d.known_listing .finite _ hx) hs, ?_⟩
        rintro ⟨rfl, hx⟩
        exact absurd (significant_finite.mp hx) (Nat.not_le_of_lt Exponent.tolerance_pos)
  · rintro ⟨hparts, hwritten⟩
    refine ⟨fun p hp => (hparts p hp).1, fun k => ?_⟩
    obtain ⟨y, hy⟩ := finite_total (fun p hp => (hparts p hp).2) k.symbol
    refine ⟨y, hy, get_eq_prune_iff.mpr fun x => ?_⟩
    rw [hwritten, hy]

/-- There is a dimension where every symbol is known and every sum is finite. -/
theorem exists_ofReals_eq_ok : (∃ d, ofReals parts = .ok d) ↔
    ∀ p ∈ parts, p.1 ∈ symbols ∧ ∃ y, total parts p.1 = .finite y := by
  refine ⟨fun ⟨d, hd⟩ => (ofReals_eq_ok_iff_written.mp hd).1, fun h => ?_⟩
  simp only [ofReals_eq_ok, exists_and_left]
  refine ⟨fun p hp => (h p hp).1,
    (exists_of_get (P := fun k e => ∃ x, total parts k.symbol = .finite x ∧ e = Exponent.prune x)).mpr fun k => ?_⟩
  obtain ⟨y, hy⟩ := finite_total (fun p hp => (h p hp).2) k.symbol
  exact ⟨Exponent.prune y, y, hy, rfl⟩

/-- Construction fails at a symbol that is not known or a sum that is not finite, and only there. -/
theorem exists_ofReals_eq_error : (∃ e, ofReals parts = .error e) ↔
    ∃ p ∈ parts, p.1 ∉ symbols ∨ (total parts p.1).toFinite? = none := by
  have hok : (∃ e, ofReals parts = .error e) ↔ ¬∃ d, ofReals parts = .ok d := by
    rcases ok_or_error (ofReals parts) with ⟨d, hd⟩ | ⟨e, he⟩
    · simp [hd]
    · simp [he]
  rw [hok, exists_ofReals_eq_ok]
  simp only [Binary64.toFinite?_eq_none, not_forall, not_and_or, exists_prop]

end Written

/-! ### Operations -/

section Operations
variable {g : Finite → Binary64} {a b d : Dimension}

theorem ofReals_listing (hg : g 0 = .finite 0) : ofReals (a.listing g) = .ok d ↔
    ∀ k, ∃ x, g (a.get k).value = .finite x ∧ d.get k = Exponent.prune x := by
  rw [ofReals_eq_ok, and_iff_right (a.known_listing g)]
  simp only [total_listing hg]

theorem ofReals_append_listing (hg : g 0 = .finite 0) : ofReals (a.written ++ b.listing g) = .ok d ↔
    ∀ k, ∃ x, (Binary64.finite (a.get k).value).add (g (b.get k).value) = .finite x ∧ d.get k = Exponent.prune x := by
  have hknown : ∀ p ∈ a.written ++ b.listing g, p.1 ∈ symbols := fun p hp =>
    (List.mem_append.mp hp).elim (a.known_listing .finite p) (b.known_listing g p)
  have htotal (k : Base) : total (a.written ++ b.listing g) k.symbol =
      (Binary64.finite (a.get k).value).add (g (b.get k).value) := by
    rw [total, sumFrom_append, sumFrom_listing hg]
    exact congrArg (fun x => x.add (g (b.get k).value)) (total_listing rfl a k)
  rw [ofReals_eq_ok, and_iff_right hknown]
  simp only [htotal]

/-- A product is constructed from the exponents of both. -/
theorem mul_eq_ok_iff_ofReals : a.mul b = .ok d ↔ ofReals (a.written ++ b.written) = .ok d :=
  mul_eq_ok.trans (ofReals_append_listing (g := .finite) rfl).symm

/-- A quotient is constructed from the exponents of the first and the negated ones of the second. -/
theorem div_eq_ok_iff_ofReals : a.div b = .ok d ↔
    ofReals (a.written ++ b.listing fun y => .finite (-y)) = .ok d := by
  have hsub (x y : Finite) : x.sub y = (Binary64.finite x).add (.finite (-y)) :=
    congrArg Binary64.ofQuanta Int.sub_eq_add_neg
  rw [div_eq_ok, ofReals_append_listing (g := fun y => .finite (-y)) rfl]
  simp only [hsub]

/-- A power is constructed from the scaled exponents. -/
theorem pow?_eq_some_iff_ofReals {p : Binary64} : a.pow? p = some d ↔
    ∃ x, p = .finite x ∧ ofReals (a.listing (·.mul x)) = .ok d := by
  cases p with
  | finite p =>
    have hzero : Finite.mul 0 p = .finite 0 := Finite.zero_mul p
    rw [pow?_eq_some, ← ofReals_listing (g := (·.mul p)) hzero]
    constructor
    · exact fun h => ⟨p, rfl, h⟩
    · rintro ⟨x, hx, h⟩
      rwa [Binary64.finite.inj hx]
  | infinite | nan =>
    constructor
    · intro hd
      cases hd
    · rintro ⟨x, hx, -⟩
      cases hx

/-- Two tables of real numbers construct from what both hold, the second before the first. -/
theorem ofTables_reals (ps qs : List (String × Binary64)) :
    ofTables (ps.map fun p => (p.1, .real p.2)) (qs.map fun q => (q.1, .real q.2)) =
      ofReals ((Table.ofList ps).union (Table.ofList qs)).entries := by
  rw [ofTables, ← Table.map_ofList, ← Table.map_ofList, ← Table.map_union, Table.entries_map]
  rfl

end Operations

/-- Whichever operation or reader gave a dimension, what is written of it is canonical and constructs it again in
    any order. Construction writes the sums that count, and fails exactly where a symbol is unknown or a sum is
    not finite; tables, products, quotients and powers are constructed in the same way. -/
theorem construction_canonical :
    (∀ d : Dimension, Canonical d.written ∧ ∀ items, items.Perm d.written → ofReals items = .ok d) ∧
    (∀ parts d, ofReals parts = .ok d ↔
      (∀ p ∈ parts, p.1 ∈ symbols ∧ ∃ y, total parts p.1 = .finite y) ∧
        ∀ s x, (s, x) ∈ d.written ↔ x = total parts s ∧ Significant x) ∧
    (∀ parts, OnError (Refused parts) (ofReals parts) ∧
      ((∃ e, ofReals parts = .error e) ↔ ∃ p ∈ parts, p.1 ∉ symbols ∨ (total parts p.1).toFinite? = none)) ∧
    (∀ ps qs : List (String × Binary64),
      ofTables (ps.map fun p => (p.1, .real p.2)) (qs.map fun q => (q.1, .real q.2)) =
        ofReals ((Table.ofList ps).union (Table.ofList qs)).entries) ∧
    (∀ a b d : Dimension, a.mul b = .ok d ↔ ofReals (a.written ++ b.written) = .ok d) ∧
    (∀ a b d : Dimension, a.div b = .ok d ↔ ofReals (a.written ++ b.listing fun y => .finite (-y)) = .ok d) ∧
    (∀ (a d : Dimension) (p : Binary64), a.pow? p = some d ↔
      ∃ x, p = .finite x ∧ ofReals (a.listing (·.mul x)) = .ok d) :=
  ⟨fun d => ⟨d.canonical_written, fun _ => ofReals_of_perm⟩, fun _ _ => ofReals_eq_ok_iff_written,
    fun parts => ⟨ofReals_refused parts, exists_ofReals_eq_error⟩, ofTables_reals,
    fun _ _ _ => mul_eq_ok_iff_ofReals, fun _ _ _ => div_eq_ok_iff_ofReals, fun _ _ _ => pow?_eq_some_iff_ofReals⟩

theorem construction_canonical_acceleration :
    [("T", Binary64.ofInt (-2)), ("L", Binary64.ofInt 1)].Perm acceleration.written ∧
      ofReals [("T", Binary64.ofInt (-2)), ("L", Binary64.ofInt 1)] = .ok acceleration :=
  have hperm : [("T", Binary64.ofInt (-2)), ("L", Binary64.ofInt 1)].Perm acceleration.written := by decide +kernel
  ⟨hperm, (construction_canonical.1 acceleration).2 _ hperm⟩

end Dimension

end UnitCheck
