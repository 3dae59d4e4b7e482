import UnitCheck.Proofs.Equation.InPlace
import UnitCheck.Proofs.Markup.Complete
import UnitCheck.Proofs.Markup.Usage

/-! # What a verdict depends on

A verdict depends on the declarations of the symbols of its equation and of the layout commands, and of
nothing else. On the left of the equals sign the live tokens are live in the whole. On the right they need
not be: a subscript that is still open at the equals sign reaches across it. But then the left side cannot
be read, and hides the right. -/

namespace UnitCheck.Verdict

open Markup

/-- The declarations agree on the symbols of a text and on layout commands. -/
def Agree (declared declared' : Variables) (text : List Char) : Prop :=
  ∀ s, s ∈ symbols text ∨ s ∈ layoutCommands → declared.find? s = declared'.find? s

section
variable {declared declared' : Variables} {limit : Limit} {text : List Char}

theorem Agree.token (h : Agree declared declared' text) {t : Token} (ht : t ∈ live (tokenize text))
    (hn : t.NamesSymbol) (hd : t.denied? = none) : declared.find? t.text = declared'.find? t.text := by
  rcases isSymbol_or_layout ((live_sublist _).subset ht) hn hd with hs | hl
  · exact h t.text (Or.inl (mem_symbols.mpr ⟨t, ht, hs, rfl⟩))
  · exact h t.text (Or.inr hl)

/-- Behind a left side that can be read, the scan for symbols goes on with the equals sign. -/
theorem aligned_of_parseTokens {scope : Scope} {stop : Int} {tokens : List Token} {d : Dimension}
    (h : parseTokens scope stop tokens = .ok d) : Aligned tokens := by
  obtain ⟨-, e, he, -, -⟩ := complete_expression_eq_ok.mp h
  exact he.aligned

end

end UnitCheck.Verdict
