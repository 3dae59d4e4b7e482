import UnitCheck.Proofs.Markup.Lexing

/-! # The symbols of a text

The symbols of a text are what its live tokens name, short of operators and layout. Among the tokens that
a text is cut into, every one that can be looked up and is not denied is of this kind or a layout command.
The table of usage lists an equation under a symbol exactly when the equation names it. -/

namespace UnitCheck.Markup

theorem mem_symbols {text : List Char} {s : String} :
    s ∈ symbols text ↔ ∃ t ∈ live (tokenize text), t.isSymbol = true ∧ t.text = s := by
  simp only [symbols, List.mem_eraseDups, mentions_eq, List.mem_map, List.mem_filter, and_assoc]

theorem Token.isSymbol_iff {t : Token} :
    t.isSymbol = true ↔ (t.kind = .identifier ∨ t.kind = .command) ∧ t.text ∉ nonSymbolCommands := by
  simp [Token.isSymbol]

/-- The commands that are no symbols are those that are denied or wrap a symbol, and the one of fractions. -/
theorem layout_of_nonSymbol :
    ∀ s ∈ nonSymbolCommands, s ≠ "\\frac" → deniedAtStart? s.toList = none → s ∈ layoutCommands := by
  decide

theorem head_of_nonSymbol : ∀ s ∈ nonSymbolCommands, s.toList.head? = some '\\' := by
  decide

theorem isSymbol_or_layout {start : Int} {cs : List Char} {t : Token} (h : t ∈ tokenizeFrom start cs)
    (hn : t.NamesSymbol) (hd : t.denied? = none) : t.isSymbol = true ∨ t.text ∈ layoutCommands := by
  by_cases hs : t.text ∈ nonSymbolCommands
  · right
    rcases hn with hk | ⟨hk, htext⟩
    · -- A letter is not written like a command.
      obtain ⟨c, rest, hspelled⟩ := spelled_of_mem h
      rw [hk] at hspelled
      generalize t.text = name at hs hspelled
      cases hspelled with
      | identifier letter =>
        have hhead := head_of_nonSymbol _ hs
        rw [String.toList_ofList] at hhead
        cases hhead
        exact absurd letter (by decide)
    · rw [Token.denied?, if_pos hk] at hd
      exact layout_of_nonSymbol _ hs htext hd
  · left
    exact Token.isSymbol_iff.mpr ⟨hn.imp_right And.left, hs⟩

/-! ### The table of usage -/

theorem find?_update {κ α : Type} [DecidableEq κ] (t : Table κ α) (k x : κ) (f : Option α → α) :
    (t.update k f).find? x = if x = k then some (f (t.find? k)) else t.find? x :=
  t.find?_insert k x _

/-- The ids under a symbol. -/
def listed (usage : Table String (List String)) (s : String) : List String := (usage.find? s).getD []

section Listed
variable {s n id other : String} {usage : Table String (List String)}

theorem mem_listed_update : id ∈ listed (usage.update n fun ids => ids.getD [] ++ [other]) s ↔
    id ∈ listed usage s ∨ (s = n ∧ id = other) := by
  rw [listed, find?_update]
  by_cases hn : s = n
  · rw [if_pos hn, hn]
    simp [listed]
  · rw [if_neg hn]
    simp [listed, hn]

theorem mem_listed_addUsage {e : Equation} :
    id ∈ listed (addUsage usage e) s ↔ id ∈ listed usage s ∨ (s ∈ symbols e.text.toList ∧ id = e.id) := by
  unfold addUsage
  generalize symbols e.text.toList = names
  induction names generalizing usage with
  | nil => simp
  | cons n names ih => rw [List.foldl_cons, ih, mem_listed_update, List.mem_cons, or_and_right, or_assoc]

theorem mem_listed_foldl {equations : List Equation} : id ∈ listed (equations.foldl addUsage usage) s ↔
    id ∈ listed usage s ∨ ∃ e ∈ equations, s ∈ symbols e.text.toList ∧ id = e.id := by
  induction equations generalizing usage with
  | nil => simp
  | cons e equations ih =>
    rw [List.foldl_cons, ih, mem_listed_addUsage, or_assoc]
    simp only [List.mem_cons, exists_eq_or_imp]

/-- The equations under a symbol are those that name it. -/
theorem mem_usageOf {equations : List Equation} :
    id ∈ listed (usageOf equations) s ↔ ∃ e ∈ equations, s ∈ symbols e.text.toList ∧ id = e.id := by
  rw [usageOf, mem_listed_foldl]
  exact or_iff_right fun h => by cases h

end Listed

end UnitCheck.Markup
