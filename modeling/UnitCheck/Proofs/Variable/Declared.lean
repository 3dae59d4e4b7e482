import Mathlib.Data.List.Induction
import UnitCheck.Proofs.Dimension.Merging
import UnitCheck.Proofs.Outcome
import UnitCheck.Variable.Basic

/-! # What is declared

A symbol has the dimension of the last of its declarations that can be read; a declaration that cannot be
read takes nothing away and is reported. What further declarations add does not depend on those before
them: their table is written over the table before, and their reports follow. Both are inductions from the
end of the list, since the last declaration is the one that is taken last. -/

namespace UnitCheck

/-! ### Writing one table over another -/

namespace Table
variable {κ α : Type} [DecidableEq κ] {k j : κ} {v w : α}

theorem insertEntry_insertEntry (es : List (κ × α)) : insertEntry k v (insertEntry k w es) = insertEntry k v es := by
  induction es with
  | nil => simp [insertEntry]
  | cons e rest ih =>
    by_cases hk : e.1 = k
    · simp [insertEntry, hk]
    · simp [insertEntry, hk, ih]

theorem insertEntry_comm {es : List (κ × α)} (hne : k ≠ j) (hk : k ∈ es.map Prod.fst) :
    insertEntry k v (insertEntry j w es) = insertEntry j w (insertEntry k v es) := by
  induction es with
  | nil => cases hk
  | cons e rest ih =>
    by_cases hj : e.1 = j
    · simp [insertEntry, hj, hne.symm]
    · by_cases hek : e.1 = k
      · simp [insertEntry, hek, hne]
      · have hrest : k ∈ rest.map Prod.fst := (List.mem_cons.mp hk).resolve_left (Ne.symm hek)
        simp [insertEntry, hj, hek, ih hrest]

theorem insert_insert (t : Table κ α) : (t.insert k w).insert k v = t.insert k v :=
  ext_entries (insertEntry_insertEntry t.entries)

/-- A value is written in its place, before or behind others, if the key has a place. -/
theorem insert_comm {t : Table κ α} (hne : k ≠ j) (hk : k ∈ t.keys) :
    (t.insert j w).insert k v = (t.insert k v).insert j w :=
  ext_entries (insertEntry_comm hne hk)

theorem mem_keys_insert {t : Table κ α} : j ∈ (t.insert k v).keys ↔ j = k ∨ j ∈ t.keys :=
  mem_keys_insertEntry

theorem insert_foldl {es : List (κ × α)} {t : Table κ α} (hk : k ∈ t.keys) (hfresh : k ∉ es.map Prod.fst) :
    (es.foldl (fun t e => t.insert e.1 e.2) t).insert k v =
      es.foldl (fun t e => t.insert e.1 e.2) (t.insert k v) := by
  induction es generalizing t with
  | nil => rfl
  | cons e rest ih =>
    obtain ⟨hne, hrest⟩ := not_or.mp (List.mem_cons.not.mp hfresh)
    rw [List.foldl_cons, List.foldl_cons, ih (mem_keys_insert.mpr (Or.inr hk)) hrest, insert_comm hne hk]

theorem foldl_insertEntry {es : List (κ × α)} (hn : (es.map Prod.fst).Nodup) (t : Table κ α) :
    (insertEntry k v es).foldl (fun t e => t.insert e.1 e.2) t =
      (es.foldl (fun t e => t.insert e.1 e.2) t).insert k v := by
  induction es generalizing t with
  | nil => rfl
  | cons e rest ih =>
    obtain ⟨hfresh, hrest⟩ := List.nodup_cons.mp hn
    by_cases hk : e.1 = k
    · subst hk
      rw [insertEntry, if_pos rfl, List.foldl_cons, List.foldl_cons,
        insert_foldl (mem_keys_insert.mpr (Or.inl rfl)) hfresh, insert_insert]
    · rw [insertEntry, if_neg hk, List.foldl_cons, List.foldl_cons, ih hrest]

theorem union_insert (t u : Table κ α) : t.union (u.insert k v) = (t.union u).insert k v :=
  foldl_insertEntry u.nodup t

theorem find?_foldl_insert {es : List (κ × α)} (hn : (es.map Prod.fst).Nodup) (t : Table κ α) :
    (es.foldl (fun t e => t.insert e.1 e.2) t).find? k = (es.lookup k).or (t.find? k) := by
  induction es generalizing t with
  | nil => rfl
  | cons e rest ih =>
    obtain ⟨hfresh, hrest⟩ := List.nodup_cons.mp hn
    rw [List.foldl_cons, ih hrest, find?_insert, List.lookup_cons]
    by_cases hk : k = e.1
    · subst hk
      have hnone : (⟨rest, hrest⟩ : Table κ α).find? e.1 = none := find?_eq_none.mpr hfresh
      rw [find?] at hnone
      simp [hnone]
    · rw [beq_eq_false_iff_ne.mpr hk, if_neg hk]

/-- What a table is written over with is found before what was there. -/
theorem find?_union (t u : Table κ α) (k : κ) : (t.union u).find? k = (u.find? k).or (t.find? k) :=
  find?_foldl_insert u.nodup t

end Table

/-! ### Declarations -/

namespace Declaration

/-- What the declaration gives to a symbol. -/
def gives? (s : String) (d : Declaration) : Option Dimension := if d.symbol = s then d.dimension.toOption else none

/-- What is reported about the declaration. -/
def diagnostic? (d : Declaration) : Option Diagnostic :=
  match d.dimension with
  | .ok _ => none
  | .error failure => some ⟨d, failure⟩

section
variable {d : Declaration} {s : String} {x : Dimension}

theorem gives?_eq_some : d.gives? s = some x ↔ d.symbol = s ∧ d.dimension = .ok x := by
  rw [gives?, Option.ite_none_right_eq_some, toOption_eq_some]

theorem gives?_eq_none : d.gives? s = none ↔ (d.symbol = s → ∀ y, d.dimension ≠ .ok y) := by
  simp only [Option.eq_none_iff_forall_ne_some, ne_eq, gives?_eq_some, not_and]
  exact forall_comm

theorem diagnostic?_eq_some {g : Diagnostic} :
    d.diagnostic? = some g ↔ g.declaration = d ∧ d.dimension = .error g.failure := by
  unfold diagnostic?
  cases d.dimension with
  | ok x => simp
  | error f =>
    obtain ⟨e, f'⟩ := g
    simp [eq_comm]

end

theorem of?_eq_none {symbol unitText : String} : of? symbol unitText = none ↔ symbol = "" := by
  simp [of?]

theorem ofPairs?_cons (symbol unitText : String) (pairs : List (String × String)) :
    ofPairs? ((symbol, unitText) :: pairs) =
      (of? symbol unitText).bind fun d => (ofPairs? pairs).map (d :: ·) := by
  simp only [ofPairs?, List.mapM_cons, Option.bind_eq_bind, Option.pure_def, Option.map_eq_bind]
  rfl

/-- Pairs make declarations unless one of them has no symbol. -/
theorem ofPairs?_eq_none {pairs : List (String × String)} : ofPairs? pairs = none ↔ "" ∈ pairs.map Prod.fst := by
  induction pairs with
  | nil => simp [ofPairs?]
  | cons pair pairs ih =>
    obtain ⟨symbol, unitText⟩ := pair
    rw [ofPairs?_cons, List.map_cons, List.mem_cons, ← ih]
    cases hs : of? symbol unitText with
    | none => simp [of?_eq_none.mp hs]
    | some d =>
      have hne : symbol ≠ "" := fun he => by
        rw [of?_eq_none.mpr he] at hs
        cases hs
      simp [hne.symm]

theorem ofPairs?_map (ds : List Declaration) : ofPairs? (ds.map fun d => (d.symbol, d.unitText)) = some ds := by
  induction ds with
  | nil => rfl
  | cons d ds ih =>
    have hd : of? d.symbol d.unitText = some d := dif_neg d.symbol_ne
    rw [List.map_cons, ofPairs?_cons, ih, hd]
    rfl

/-- Declarations hold the pairs that they were made of. -/
theorem map_of_ofPairs? {pairs : List (String × String)} {ds : List Declaration} (h : ofPairs? pairs = some ds) :
    ds.map (fun d => (d.symbol, d.unitText)) = pairs := by
  induction pairs generalizing ds with
  | nil =>
    cases h
    rfl
  | cons pair pairs ih =>
    obtain ⟨symbol, unitText⟩ := pair
    rw [ofPairs?_cons] at h
    obtain ⟨d, hd, h⟩ := Option.bind_eq_some_iff.mp h
    obtain ⟨ds', hds, rfl⟩ := Option.map_eq_some_iff.mp h
    rw [List.map_cons, ih hds]
    unfold of? at hd
    split at hd
    · cases hd
    · cases hd
      rfl

end Declaration

namespace Analysis

variable {a : Analysis} {d : Declaration} {s : String} {x : Dimension} {f : Failure Units.Cause}

theorem add_of_ok (h : d.dimension = .ok x) : a.add d = { a with declared := a.declared.insert d.symbol x } := by
  rw [add, h]

theorem add_of_error (h : d.dimension = .error f) : a.add d = { a with diagnostics := a.diagnostics ++ [⟨d, f⟩] } := by
  rw [add, h]

theorem of_concat (ds : List Declaration) (d : Declaration) : of (ds ++ [d]) = (of ds).add d := by
  rw [of, List.foldl_append, List.foldl_cons, List.foldl_nil, of]

/-- The last declaration that gives the symbol something is the one that counts. -/
theorem find?_eq_findSome? (ds : List Declaration) (s : String) :
    (of ds).declared.find? s = ds.reverse.findSome? (·.gives? s) := by
  induction ds using List.reverseRecOn with
  | nil => rfl
  | append_singleton ds d ih =>
    rw [of_concat, List.reverse_concat, List.findSome?_cons, ← ih]
    cases hd : d.dimension with
    | error f => simp [add_of_error hd, Declaration.gives?, hd, Except.toOption]
    | ok x =>
      rw [add_of_ok hd, Table.find?_insert]
      by_cases hs : s = d.symbol
      · simp [Declaration.gives?, hd, hs, Except.toOption]
      · simp [Declaration.gives?, hs, Ne.symm hs]

theorem diagnostics_eq (ds : List Declaration) : (of ds).diagnostics = ds.filterMap (·.diagnostic?) := by
  induction ds using List.reverseRecOn with
  | nil => rfl
  | append_singleton ds d ih =>
    rw [of_concat, List.filterMap_append, ← ih]
    cases hd : d.dimension with
    | error f => simp [add_of_error hd, Declaration.diagnostic?, hd]
    | ok x => simp [add_of_ok hd, Declaration.diagnostic?, hd]

theorem of_append (xs ys : List Declaration) :
    of (xs ++ ys) = ⟨(of xs).declared.union (of ys).declared, (of xs).diagnostics ++ (of ys).diagnostics⟩ := by
  induction ys using List.reverseRecOn with
  | nil =>
    have hnone : of [] = ⟨∅, []⟩ := rfl
    rw [List.append_nil, hnone, List.append_nil]
    rfl
  | append_singleton ys d ih =>
    rw [← List.append_assoc, of_concat, of_concat, ih]
    cases hd : d.dimension with
    | error f => rw [add_of_error hd, add_of_error hd, List.append_assoc]
    | ok x => rw [add_of_ok hd, add_of_ok hd, Table.union_insert]

theorem find?_eq_some {ds : List Declaration} : (of ds).declared.find? s = some x ↔
    ∃ before d after, ds = before ++ d :: after ∧ d.symbol = s ∧ d.dimension = .ok x ∧
      ∀ e ∈ after, e.symbol = s → ∀ y, e.dimension ≠ .ok y := by
  rw [find?_eq_findSome?, List.findSome?_eq_some_iff]
  simp only [Declaration.gives?_eq_some, Declaration.gives?_eq_none]
  constructor
  · rintro ⟨after, d, before, hds, ⟨hs, hx⟩, hafter⟩
    refine ⟨before.reverse, d, after.reverse, ?_, hs, hx, fun e he => hafter e (List.mem_reverse.mp he)⟩
    rw [← List.reverse_reverse ds, hds]
    simp
  · rintro ⟨before, d, after, rfl, hs, hx, hafter⟩
    exact ⟨after.reverse, d, before.reverse, by simp, ⟨hs, hx⟩, fun e he => hafter e (List.mem_reverse.mp he)⟩

theorem contains_iff {ds : List Declaration} :
    (of ds).declared.contains s = true ↔ ∃ d ∈ ds, d.symbol = s ∧ ∃ x, d.dimension = .ok x := by
  rw [Table.contains, find?_eq_findSome?, List.findSome?_isSome_iff]
  simp only [Option.isSome_iff_exists, Declaration.gives?_eq_some, List.mem_reverse, exists_and_left]

/-- A symbol has the dimension of the last of its declarations that can be read, and none if there is none. Each
    declaration that cannot be read is reported once, in its turn and with its own failure. What follows is taken as if
    it stood alone, and put over and behind the rest. -/
theorem of_lastReadable (xs ys : List Declaration) :
    (∀ s, (of xs).declared.contains s = true ↔ ∃ d ∈ xs, d.symbol = s ∧ ∃ x, d.dimension = .ok x) ∧
    (∀ s x, (of xs).declared.find? s = some x ↔
      ∃ before d after, xs = before ++ d :: after ∧ d.symbol = s ∧ d.dimension = .ok x ∧
        ∀ e ∈ after, e.symbol = s → ∀ y, e.dimension ≠ .ok y) ∧
    (of xs).diagnostics = xs.filterMap (·.diagnostic?) ∧
    (∀ g ∈ (of xs).diagnostics, ∃ f, g.declaration.dimension = .error f ∧ g.symbol = g.declaration.symbol ∧
      g.code = f.cause.code ∧ g.message = f.cause.message) ∧
    of (xs ++ ys) = ⟨(of xs).declared.union (of ys).declared, (of xs).diagnostics ++ (of ys).diagnostics⟩ ∧
    ∀ s, (of (xs ++ ys)).declared.find? s = ((of ys).declared.find? s).or ((of xs).declared.find? s) := by
  refine ⟨fun s => contains_iff, fun s x => find?_eq_some, diagnostics_eq xs, fun g hg => ?_, of_append xs ys, fun s => ?_⟩
  · rw [diagnostics_eq] at hg
    obtain ⟨d, -, hd⟩ := List.mem_filterMap.mp hg
    obtain ⟨rfl, hf⟩ := Declaration.diagnostic?_eq_some.mp hd
    exact ⟨g.failure, hf, rfl, rfl, rfl⟩
  · rw [of_append, Table.find?_union]

/-- A symbol declared twice with a unit and then with none, and another that has none. -/
def redeclared : List Declaration :=
  [⟨"t", "m", by decide⟩, ⟨"u", "", by decide⟩, ⟨"t", "s", by decide⟩, ⟨"t", "furlong", by decide⟩]

theorem of_lastReadable_redeclared :
    (of redeclared).declared.find? "t" = some (.ofBase .time) ∧
      (of redeclared).diagnostics.map (fun g => (g.symbol, g.code)) = [("u", .empty), ("t", .unknownUnit)] := by
  obtain ⟨-, hfind, hdiagnostics, -⟩ := of_lastReadable redeclared []
  have hread : (Units.parse "s".toList).toOption = some (.ofBase .time) := by decide +kernel
  have hunread : ∀ e ∈ redeclared.drop 3, e.dimension.toOption = none := by decide +kernel
  refine ⟨(hfind "t" _).mpr ⟨redeclared.take 2, ⟨"t", "s", by decide⟩, redeclared.drop 3, rfl, rfl, ?_, ?_⟩, ?_⟩
  · exact toOption_eq_some.mp hread
  · intro e he _ y hy
    have hnone := hunread e he
    rw [toOption_eq_some.mpr hy] at hnone
    cases hnone
  · rw [hdiagnostics]
    decide +kernel

end Analysis

end UnitCheck
