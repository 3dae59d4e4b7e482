/-! # Ordered tables

A finite map that keeps the order in which its keys first came. Writing a key that is there already
replaces its value and leaves it in its place. -/

namespace UnitCheck

/-- A map with an order on its keys, each of which it holds once. -/
structure Table (κ α : Type) where
  entries : List (κ × α)
  nodup : (entries.map Prod.fst).Nodup

namespace Table

variable {κ α β : Type}

/-- The table without entries. -/
def empty : Table κ α := ⟨[], List.nodup_nil⟩

instance : EmptyCollection (Table κ α) := ⟨empty⟩

instance : Inhabited (Table κ α) := ⟨empty⟩

/-- The keys, in their order. -/
def keys (t : Table κ α) : List κ := t.entries.map Prod.fst

/-- The values, in the order of their keys. -/
def values (t : Table κ α) : List α := t.entries.map Prod.snd

/-- How many entries there are. -/
def size (t : Table κ α) : Nat := t.entries.length

/-- Applies a function to every value. -/
def map (f : α → β) (t : Table κ α) : Table κ β :=
  ⟨t.entries.map fun e => (e.1, f e.2), by simpa [Function.comp_def] using t.nodup⟩

@[simp] theorem entries_map (f : α → β) (t : Table κ α) :
    (t.map f).entries = t.entries.map fun e => (e.1, f e.2) := rfl

variable [DecidableEq κ]

/-- The value under a key. -/
def find? (t : Table κ α) (k : κ) : Option α := t.entries.lookup k

/-- Whether a key is there. -/
def contains (t : Table κ α) (k : κ) : Bool := (t.find? k).isSome

/-- Writes one entry into a list of entries. -/
def insertEntry (k : κ) (v : α) : List (κ × α) → List (κ × α)
  | [] => [(k, v)]
  | e :: rest => if e.1 = k then (k, v) :: rest else e :: insertEntry k v rest

theorem mem_keys_insertEntry {k x : κ} {v : α} {es : List (κ × α)} :
    x ∈ (insertEntry k v es).map Prod.fst ↔ x = k ∨ x ∈ es.map Prod.fst := by
  induction es with
  | nil => simp [insertEntry]
  | cons e rest ih =>
    by_cases h : e.1 = k
    · simp [insertEntry, h]
    · simp only [insertEntry, h, if_false, List.map_cons, List.mem_cons, ih]
      constructor
      · rintro (h | h | h) <;> simp [h]
      · rintro (h | h | h) <;> simp [h]

theorem nodup_insertEntry {k : κ} {v : α} {es : List (κ × α)} (h : (es.map Prod.fst).Nodup) :
    ((insertEntry k v es).map Prod.fst).Nodup := by
  induction es with
  | nil => simp [insertEntry]
  | cons e rest ih =>
    rw [List.map_cons, List.nodup_cons] at h
    by_cases hk : e.1 = k
    · subst hk
      simp only [insertEntry, if_true, List.map_cons, List.nodup_cons]
      exact h
    · simp only [insertEntry, hk, if_false, List.map_cons, List.nodup_cons]
      refine ⟨fun hm => ?_, ih h.2⟩
      rcases mem_keys_insertEntry.mp hm with he | he
      · exact hk he
      · exact h.1 he

/-- Writes a value under a key. -/
def insert (t : Table κ α) (k : κ) (v : α) : Table κ α :=
  ⟨insertEntry k v t.entries, nodup_insertEntry t.nodup⟩

theorem lookup_insertEntry (k x : κ) (v : α) (es : List (κ × α)) :
    (insertEntry k v es).lookup x = if x = k then some v else es.lookup x := by
  induction es with
  | nil =>
    by_cases hx : x = k
    · simp [insertEntry, hx]
    · simp [insertEntry, hx, List.lookup_cons, beq_eq_false_iff_ne.mpr hx]
  | cons e rest ih =>
    obtain ⟨key, value⟩ := e
    by_cases hk : key = k
    · subst hk
      by_cases hx : x = key
      · simp [insertEntry, hx]
      · simp [insertEntry, hx, List.lookup_cons, beq_eq_false_iff_ne.mpr hx]
    · by_cases hx : x = key
      · subst hx
        simp [insertEntry, hk]
      · simp [insertEntry, hk, List.lookup_cons, beq_eq_false_iff_ne.mpr hx, ih]

/-- A written value is found under its key, and nothing else changes. -/
theorem find?_insert (t : Table κ α) (k x : κ) (v : α) :
    (t.insert k v).find? x = if x = k then some v else t.find? x :=
  lookup_insertEntry k x v t.entries

theorem insertEntry_of_fresh {k : κ} {v : α} {es : List (κ × α)} (h : ∀ e ∈ es, e.1 ≠ k) :
    insertEntry k v es = es ++ [(k, v)] := by
  induction es with
  | nil => rfl
  | cons e rest ih =>
    obtain ⟨he, hrest⟩ := List.forall_mem_cons.mp h
    rw [insertEntry, if_neg he, ih hrest, List.cons_append]

/-- A value under a new key is written behind the others. -/
theorem entries_insert {t : Table κ α} {k : κ} {v : α} (h : t.contains k = false) :
    (t.insert k v).entries = t.entries ++ [(k, v)] := by
  refine insertEntry_of_fresh fun e he hk => ?_
  have hnone : t.entries.lookup k = none := by simpa [contains, find?] using h
  have hne := List.lookup_eq_none_iff.mp hnone e he
  rw [hk] at hne
  simp at hne

theorem lookup_of_mem {k : κ} {v : α} {es : List (κ × α)} (hn : (es.map Prod.fst).Nodup) (h : (k, v) ∈ es) :
    es.lookup k = some v := by
  induction es with
  | nil => cases h
  | cons e rest ih =>
    obtain ⟨key, value⟩ := e
    obtain ⟨hnotin, hn⟩ := List.nodup_cons.mp hn
    rcases List.mem_cons.mp h with heq | h
    · cases heq
      simp
    · have hne : k ≠ key := fun hk => hnotin (List.mem_map.mpr ⟨(k, v), h, hk⟩)
      rw [List.lookup_cons, beq_eq_false_iff_ne.mpr hne]
      exact ih hn h

/-- An entry is found under its key. -/
theorem find?_of_mem {t : Table κ α} {k : κ} {v : α} (h : (k, v) ∈ t.entries) : t.find? k = some v :=
  lookup_of_mem t.nodup h

/-- Writes a value under a key that depends on the one there. -/
def update (t : Table κ α) (k : κ) (f : Option α → α) : Table κ α :=
  t.insert k (f (t.find? k))

/-- The table of a list of entries, written in order. -/
def ofList (es : List (κ × α)) : Table κ α :=
  es.foldl (fun t e => t.insert e.1 e.2) empty

/-- Writes all entries of a second table. -/
def union (t u : Table κ α) : Table κ α :=
  u.entries.foldl (fun t e => t.insert e.1 e.2) t

end Table

end UnitCheck
