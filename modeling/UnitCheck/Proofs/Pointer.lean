import UnitCheck.Proofs.Markup.Denial
import UnitCheck.Proofs.Markup.Offsets
import UnitCheck.Proofs.Units.Located
import UnitCheck.Proofs.Units.Stack

/-! # Failures that can be shown

Every failure lies in the text that was read, or at the end of it, so a caret can be drawn under it: for
units in their normal form, for markup in the text itself, and for a list of tokens in every text that
they fit into. The reader of units has no limit of its own on how deep they nest, so it fails without a place
where there is no more room on the stack. -/

namespace UnitCheck

/-- A text with a caret under its character at `p`. -/
def caretUnder (text : String) (p : Nat) : String :=
  text ++ "\n" ++ String.ofList (List.replicate p ' ') ++ "^"

theorem Failure.pointer_eq {κ : Type} {f : Failure κ} {text : String} (h : 0 ≤ f.position ∧ f.position ≤ text.length) :
    f.pointer text = caretUnder text f.position.toNat := by
  rw [Failure.pointer, UnitCheck.pointer]
  exact if_pos h

namespace Markup

/-- A failure of a text lies at its beginning if it is blank, at its end or at one of its tokens. -/
theorem position_of_parse {scope : Scope} {text : List Char} {f : Failure Cause} (h : parse scope text = .error f) :
    (text.all Text.isBlank = true ∧ f.position = 0) ∨ f.position = text.length ∨
      ∃ t ∈ tokenize text, f.position = t.start := by
  by_cases hblank : text.all Text.isBlank = true
  · rw [parse, if_pos hblank] at h
    cases h
    exact Or.inl ⟨hblank, rfl⟩
  · rw [parse_of_not_blank scope (Bool.eq_false_iff.mpr hblank)] at h
    exact Or.inr (position_of_parseTokens h)

theorem start_of_mem_tokenize {text : List Char} {t : Token} (h : t ∈ tokenize text) :
    0 ≤ t.start ∧ t.start ≤ text.length := by
  have := start_of_mem_tokenizeFrom h
  omega

end Markup

namespace Units

/-- On a stack with room for it a text has a dimension, or a failure that can be shown in its normal form. -/
theorem parseOn_shown {room : Nat} {text : List Char} (h : ¬TooDeep room text) :
    (∃ d, parseOn room text = .ok d) ∨ ∃ f, parseOn room text = .error (.failure f) ∧
      0 ≤ f.position ∧ f.position ≤ (normalize text).length ∧
      f.pointer (String.ofList (normalize text)) = caretUnder (String.ofList (normalize text)) f.position.toNat := by
  rw [parseOn_of_not_tooDeep h]
  rcases ok_or_error (parse text) with ⟨d, hd⟩ | ⟨f, hf⟩
  · exact Or.inl ⟨d, mapError_eq_ok.mpr hd⟩
  · obtain ⟨hle, hlt⟩ := position_of_parse hf
    refine Or.inr ⟨f, mapError_eq_error.mpr ⟨f, hf, rfl⟩, hle, hlt, Failure.pointer_eq ?_⟩
    rw [String.length_ofList]
    exact ⟨hle, hlt⟩

theorem next_of_raiseOn_notFinite {stop : Nat} {d : Dimension} {tokens : List Token} {f : Failure Cause}
    (h : (raise stop d tokens : Except Stop Reading) = .error (.failure f)) (hc : f.cause = .exponentNotFinite) :
    tokens.head?.map (fun t => (t.start : Int)) = some f.position := by
  have hfollows : Follows (raise stop d tokens) (raise stop d tokens) := raise_follows
  rw [hfollows.resolve_left raise_ne_exhausted] at h
  obtain ⟨g, hg, hfg⟩ := mapError_eq_error.mp h
  cases hfg
  exact next_of_raise_notFinite hg hc

theorem raise_of_infinite {ε : Type} [Reason ε] {stop start : Nat} {d : Dimension} {text : String} {rest : List Token}
    {negative : Bool} (h : Binary64.read? text.toList = some (.infinite negative)) :
    raise stop d (⟨.number, text, start⟩ :: rest) = (refuse .exponentNotFinite start : Except ε Reading) := by
  simp only [raise, h, Dimension.pow?]

end Units

/-- Readings of units, of markup texts and of tokens give a dimension, or a failure with a place to show it at. In the
    reader of exponents the place is that of the next token, and there is one wherever it is needed. Of the units this is
    true as long as there is room for them: one that is too deep for the stack gives neither. -/
theorem failure_shown (room : Nat) :
    (∀ text, (Units.TooDeep room text → Units.parseOn room text = .error .exhausted) ∧
      (¬Units.TooDeep room text → (∃ d, Units.parseOn room text = .ok d) ∨
        ∃ f, Units.parseOn room text = .error (.failure f) ∧
          0 ≤ f.position ∧ f.position ≤ (Units.normalize text).length ∧
          f.pointer (String.ofList (Units.normalize text)) =
            caretUnder (String.ofList (Units.normalize text)) f.position.toNat)) ∧
    (∀ stop d tokens f, (Units.raise stop d tokens : Except Units.Stop Units.Reading) = .error (.failure f) →
      f.cause = .exponentNotFinite → tokens.head?.map (fun t => (t.start : Int)) = some f.position) ∧
    (∀ scope text, (∃ d, Markup.parse scope text = .ok d) ∨ ∃ f, Markup.parse scope text = .error f ∧
      ((text.all Text.isBlank = true ∧ f.position = 0) ∨ f.position = text.length ∨
        ∃ t ∈ Markup.tokenize text, f.position = t.start) ∧
      f.pointer (String.ofList text) = caretUnder (String.ofList text) f.position.toNat) ∧
    ∀ scope stop tokens, (∃ d, Markup.parseTokens scope stop tokens = .ok d) ∨
      ∃ f, Markup.parseTokens scope stop tokens = .error f ∧
        (f.position = stop ∨ ∃ t ∈ tokens, f.position = t.start) ∧
        ∀ text : String, (0 ≤ stop ∧ stop ≤ text.length) → (∀ t ∈ tokens, 0 ≤ t.start ∧ t.start ≤ text.length) →
          f.pointer text = caretUnder text f.position.toNat := by
  refine ⟨fun text => ⟨Units.parseOn_eq_exhausted.mpr, Units.parseOn_shown⟩,
    fun stop d tokens f => Units.next_of_raiseOn_notFinite, fun scope text => ?_, fun scope stop tokens => ?_⟩
  · refine (ok_or_error _).imp id fun ⟨f, hf⟩ => ?_
    have hplace := Markup.position_of_parse hf
    refine ⟨f, hf, hplace, Failure.pointer_eq ?_⟩
    rw [String.length_ofList]
    rcases hplace with ⟨-, hp⟩ | hp | ⟨t, ht, hp⟩
    · omega
    · omega
    · rw [hp]
      exact Markup.start_of_mem_tokenize ht
  · refine (ok_or_error _).imp id fun ⟨f, hf⟩ => ?_
    have hplace := Markup.position_of_parseTokens hf
    refine ⟨f, hf, hplace, fun text hstop htokens => Failure.pointer_eq ?_⟩
    rcases hplace with hp | ⟨t, ht, hp⟩
    · rw [hp]
      exact hstop
    · rw [hp]
      exact htokens t ht

/-- An exponent beyond all numbers. -/
def beyondNumbers : Units.Token := ⟨.number, String.ofList (List.replicate 400 '9'), 2⟩

/-- Tokens out of their order, as no text has them. -/
def outOfOrder : List Markup.Token := [⟨.number, "2", 5, 6⟩, ⟨.operator, "^", 3, 4⟩, ⟨.operator, "^", 4, 5⟩]

theorem failure_shown_outOfOrder :
    (Units.raise 402 .one [beyondNumbers] =
        (.error (.failure ⟨.exponentNotFinite, 2⟩) : Except Units.Stop Units.Reading) ∧
      [beyondNumbers].head?.map (fun t => (t.start : Int)) = some 2) ∧
    (¬Units.TooDeep Units.usualRoom "(m)^-2".toList ∧
      ∃ f, Units.parseOn Units.usualRoom "(m)^-2".toList = .error (.failure f) ∧
        f.pointer (String.ofList (Units.normalize "(m)^-2".toList)) =
          caretUnder (String.ofList (Units.normalize "(m)^-2".toList)) f.position.toNat) ∧
    ∃ f, Markup.parseTokens ⟨.empty, .standard⟩ 6 outOfOrder = .error f ∧
      f.pointer "m^^ s2" = caretUnder "m^^ s2" f.position.toNat := by
  have hnines : Binary64.read? (List.replicate 400 '9') = some (.infinite false) := by decide +kernel
  rw [← String.toList_ofList (l := List.replicate 400 '9')] at hnines
  have hraise : Units.raise 402 .one [beyondNumbers] =
      (.error (.failure ⟨.exponentNotFinite, 2⟩) : Except Units.Stop Units.Reading) := Units.raise_of_infinite hnines
  have hread : Markup.parseTokens ⟨.empty, .standard⟩ 6 outOfOrder = .error ⟨.exponentMissing, 4⟩ := by decide +kernel
  have hroom : ¬Units.TooDeep Units.usualRoom "(m)^-2".toList := Units.not_tooDeep_of_count (by decide)
  obtain ⟨hunits, hnext, -, htokens⟩ := failure_shown Units.usualRoom
  refine ⟨⟨hraise, hnext _ _ _ _ hraise rfl⟩, ⟨hroom, ?_⟩, ?_⟩
  · rcases (hunits _).2 hroom with ⟨d, hd⟩ | ⟨f, hf, -, -, hpointer⟩
    · rw [Units.parseOn_of_not_tooDeep hroom] at hd
      exact absurd (mapError_eq_ok.mp hd) (Units.parse_of_sign (Or.inl rfl) (by decide) d)
    · exact ⟨f, hf, hpointer⟩
  · rcases htokens ⟨.empty, .standard⟩ 6 outOfOrder with ⟨d, hd⟩ | ⟨f, hf, -, hpointer⟩
    · rw [hread] at hd
      cases hd
    · exact ⟨f, hf, hpointer "m^^ s2" (by decide) (by decide)⟩

/-- A metre in parentheses gives neither a dimension nor a failure, if they are too many. -/
theorem failure_shown_wrappedMetre :
    Units.parse Units.wrappedMetre = .ok (.ofBase .length) ∧
      Units.parseOn Units.usualRoom Units.wrappedMetre = .error .exhausted := by
  obtain ⟨hmetre, hdeep⟩ := Units.wrappedMetre_tooDeep
  exact ⟨hmetre, Units.parseOn_eq_exhausted.mpr hdeep⟩

end UnitCheck
