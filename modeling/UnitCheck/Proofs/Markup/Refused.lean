import UnitCheck.Proofs.Markup.Denial
import UnitCheck.Proofs.Markup.Usage

/-! # Symbols that are refused

Denied commands are left out of the symbols by their whole names, but a command is refused already when its
name begins with a denied one. So the two disagree on the commands whose names go on behind a denied one:
`\sinh` is listed as a symbol, and an expression that holds it is refused for `\sin`. They agree on all
other symbols. -/

namespace UnitCheck.Markup

section
variable {text : List Char} {s name : String} {p : Int}

theorem findDenied?_word (c : Char) {letters : List Char} (h : ∀ x ∈ letters, isLetter x = true) :
    findDenied? (c :: letters) = (deniedAtStart? (c :: letters)).map (·, 0) := by
  have hne : ∀ x ∈ letters, x ≠ '\\' := by
    rintro x hx rfl
    exact absurd (h _ hx) (by decide)
  have hrest := findDeniedFrom_append (0 + 1) hne []
  rw [List.append_nil] at hrest
  rw [findDenied?_eq, findDeniedFrom, hrest]
  cases deniedAtStart? (c :: letters) with
  | none => rfl
  | some name => rfl

/-- A symbol is a letter, or a backslash with letters behind it. -/
theorem letters_of_isSymbol {start : Int} {t : Token} (h : t ∈ tokenizeFrom start text) (hs : t.isSymbol = true) :
    (t.kind = .identifier ∧ ∃ c, t.text.toList = [c]) ∨
      (t.kind = .command ∧ ∃ letters, t.text.toList = '\\' :: letters ∧ ∀ x ∈ letters, isLetter x = true) := by
  obtain ⟨c, rest, hspelled⟩ := spelled_of_mem h
  have hk := (Token.isSymbol_iff.mp hs).1
  generalize t.kind = kind at hspelled hk
  generalize t.text = name at hspelled
  cases hspelled with
  | identifier => exact Or.inl ⟨rfl, c, String.toList_ofList⟩
  | command backslash =>
    subst backslash
    exact Or.inr ⟨rfl, _, String.toList_ofList, List.all_eq_true.mp List.all_takeWhile⟩
  | multiplication | number | operator | subscript => simp at hk

theorem denied_nonSymbol : ∀ name ∈ deniedCommands, name ∈ nonSymbolCommands := by
  decide

/-- No command that is left out of the symbols has a longer name than a denied one. -/
theorem eq_of_nonSymbol_denied : ∀ s ∈ nonSymbolCommands, ∀ name ∈ deniedCommands,
    name.toList.isPrefixOf s.toList = true → s = name := by
  decide

theorem symbol_ne_denied (h : s ∈ symbols text) (hname : name ∈ deniedCommands) : s ≠ name := by
  rintro rfl
  obtain ⟨t, -, hs, rfl⟩ := mem_symbols.mp h
  exact (Token.isSymbol_iff.mp hs).2 (denied_nonSymbol _ hname)

theorem findDenied?_symbol (h : s ∈ symbols text) :
    findDenied? s.toList = some (name, p) ↔ p = 0 ∧ name ∈ deniedCommands ∧ name.toList <+: s.toList := by
  have hword : ∃ c letters, s.toList = c :: letters ∧ ∀ x ∈ letters, isLetter x = true := by
    obtain ⟨t, ht, hs, rfl⟩ := mem_symbols.mp h
    rcases letters_of_isSymbol ((live_sublist _).subset ht) hs with ⟨-, c, hc⟩ | ⟨-, letters, hletters⟩
    · exact ⟨c, [], hc, List.forall_mem_nil _⟩
    · exact ⟨'\\', letters, hletters⟩
  obtain ⟨c, letters, hs, hletters⟩ := hword
  rw [hs, findDenied?_word c hletters, Option.map_eq_some_iff]
  simp only [Prod.mk.injEq, deniedAtStart?_eq_some]
  constructor
  · rintro ⟨other, hother, rfl, rfl⟩
    exact ⟨rfl, hother⟩
  · rintro ⟨rfl, hname⟩
    exact ⟨name, hname, rfl, rfl⟩

theorem symbol_of_refused {t : Token} (ht : t ∈ live (tokenize text)) (hr : t.Refused name) (hne : t.text ≠ name) :
    t.text ∈ symbols text := by
  obtain ⟨hk, hname, hfront⟩ := hr
  have hfree : t.text ∉ nonSymbolCommands := fun hmem =>
    hne (eq_of_nonSymbol_denied _ hmem name hname (List.isPrefixOf_iff_prefix.mpr hfront))
  exact mem_symbols.mpr ⟨t, ht, Token.isSymbol_iff.mpr ⟨Or.inr hk, hfree⟩, rfl⟩

theorem refused_of_symbol (h : s ∈ symbols text) (hname : name ∈ deniedCommands) (hfront : name.toList <+: s.toList) :
    ∃ t ∈ live (tokenize text), t.text = s ∧ t.Refused name := by
  obtain ⟨t, ht, hs, rfl⟩ := mem_symbols.mp h
  rcases letters_of_isSymbol ((live_sublist _).subset ht) hs with ⟨-, c, hc⟩ | ⟨hk, -⟩
  · -- A letter does not begin with a backslash and letters.
    obtain ⟨letters, hletters, hne, -⟩ := exists_of_denied hname
    rw [hletters, hc, List.cons_prefix_cons, List.prefix_nil] at hfront
    exact absurd hfront.2 hne
  · exact ⟨t, ht, rfl, hk, hname, hfront⟩

end

/-- A listed symbol is refused exactly when its name goes on behind that of a denied command. No listed symbol is
    refused exactly when no command outside the subscripts has such a name. -/
theorem refused_symbol_iff (text : List Char) :
    (∀ s ∈ symbols text, ∀ name p, findDenied? s.toList = some (name, p) ↔
      p = 0 ∧ name ∈ deniedCommands ∧ name.toList <+: s.toList ∧ s ≠ name) ∧
    ((∀ s ∈ symbols text, findDenied? s.toList = none) ↔
      ∀ t ∈ live (tokenize text), ∀ name, t.Refused name → t.text = name) := by
  refine ⟨fun s hs name p => ?_, fun h t ht name hr => ?_, fun h s hs => ?_⟩
  · rw [findDenied?_symbol hs]
    constructor
    · rintro ⟨hp, hname, hfront⟩
      exact ⟨hp, hname, hfront, symbol_ne_denied hs hname⟩
    · rintro ⟨hp, hname, hfront, -⟩
      exact ⟨hp, hname, hfront⟩
  · by_contra hne
    have hs := symbol_of_refused ht hr hne
    have hfound := (findDenied?_symbol hs).mpr ⟨rfl, hr.2⟩
    rw [h _ hs] at hfound
    cases hfound
  · refine Option.eq_none_iff_forall_ne_some.mpr fun ⟨name, p⟩ hfound => ?_
    obtain ⟨-, hname, hfront⟩ := (findDenied?_symbol hs).mp hfound
    obtain ⟨t, ht, rfl, hr⟩ := refused_of_symbol hs hname hfront
    exact symbol_ne_denied hs hname (h t ht name hr)

/-- A hyperbolic sine of a product, the sine in a subscript. -/
def hyperbolic : List Char := "\\sinh x_\x7b\\sin y\x7d".toList

theorem refused_symbol_hyperbolic :
    "\\sinh" ∈ symbols hyperbolic ∧ findDenied? "\\sinh".toList = some ("\\sin", 0) := by
  have hs : "\\sinh" ∈ symbols hyperbolic := by decide +kernel
  exact ⟨hs, ((refused_symbol_iff hyperbolic).1 "\\sinh" hs "\\sin" 0).mpr ⟨rfl, by decide, by decide, by decide⟩⟩

theorem not_forall_symbol_allowed : ¬∀ text, ∀ s ∈ symbols text, findDenied? s.toList = none := by
  intro h
  have hs : "\\sinh" ∈ symbols "\\sinh x".toList := by decide +kernel
  have hfound : findDenied? "\\sinh".toList = some ("\\sin", 0) := by decide +kernel
  rw [h _ "\\sinh" hs] at hfound
  cases hfound

end UnitCheck.Markup
