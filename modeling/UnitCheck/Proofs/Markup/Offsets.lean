import UnitCheck.Proofs.Markup.Follow

/-! # Offsets

The reading of a list of tokens does not depend on the offsets in it, nor on what is declared for symbols
that are not live. Other offsets give the same dimension, or the same failure at the offset of the same
token. So the place of a failure is one of those that the reader was given: were it none, it would have to
stay where it is when it is moved. -/

namespace UnitCheck.Markup

section Offsets
variable {c : Change} {scope scope' : Scope} {stop : Int} {tokens : List Token}

theorem symbol_follows {declared declared' : Variables} {t : Token}
    (h : declared.find? t.text = declared'.find? t.text) :
    Follows c id (symbol declared t) (symbol declared' (t.place c)) := by
  simp only [symbol, Token.place_text, Token.place_start, h]
  cases declared'.find? t.text with
  | some d => exact .ok d
  | none => exact .ite (fun _ => .error _) fun _ => .error _

/-- The second run ends as the first one if what it finds declared for the live tokens is the same. -/
theorem parseTokens_eq (hc : ∀ cause, ¬c.lifts cause) (hl : scope.limit = scope'.limit)
    (h : ∀ t ∈ live tokens, t.NamesSymbol → t.denied? = none →
      scope.declared.find? t.text = scope'.declared.find? t.text) :
    parseTokens scope' (c.start stop) (tokens.map (·.place c)) =
      (parseTokens scope stop tokens).mapError (·.place c.start) := by
  have hlevels : LevelsFollow c scope scope' scope.limit.levels scope'.limit.levels := Or.inl ⟨congrArg _ hl, hl⟩
  have hfollows : Follows c id (parseTokens scope stop tokens)
      (parseTokens scope' (c.start stop) (tokens.map (·.place c))) :=
    parseTokens_follows hlevels fun hd t ht hn => symbol_follows (h t ht hn (hd t ((live_sublist tokens).subset ht)))
  rw [hfollows.eq_of_not_lifts hc]
  cases parseTokens scope stop tokens <;> rfl

theorem parseTokens_place (hc : ∀ cause, ¬c.lifts cause) :
    parseTokens scope (c.start stop) (tokens.map (·.place c)) =
      (parseTokens scope stop tokens).mapError (·.place c.start) :=
  parseTokens_eq hc rfl fun _ _ _ _ => rfl

/-- The change that takes one offset to the next one and no other. -/
def nudge (p : Int) : Change := ⟨fun q => if q = p then p + 1 else q, id, fun _ => False⟩

theorem Token.place_nudge {p : Int} {t : Token} (h : t.start ≠ p) : t.place (nudge p) = t := by
  simp [Token.place, nudge, h]

/-- A failure lies where one of the tokens begins, or at the end. -/
theorem position_of_parseTokens {f : Failure Cause} (h : parseTokens scope stop tokens = .error f) :
    f.position = stop ∨ ∃ t ∈ tokens, f.position = t.start := by
  by_cases hstop : f.position = stop
  · exact Or.inl hstop
  by_cases htokens : ∃ t ∈ tokens, f.position = t.start
  · exact Or.inr htokens
  exfalso
  have hmap : tokens.map (·.place (nudge f.position)) = tokens := by
    refine (List.map_congr_left fun t ht => ?_).trans (List.map_id tokens)
    exact Token.place_nudge fun he => htokens ⟨t, ht, he.symm⟩
  have hstay : (nudge f.position).start stop = stop := if_neg (Ne.symm hstop)
  have hplace : parseTokens scope ((nudge f.position).start stop) (tokens.map (·.place (nudge f.position))) =
      (parseTokens scope stop tokens).mapError (·.place (nudge f.position).start) := parseTokens_place fun _ hl => hl
  rw [hmap, hstay, h] at hplace
  have hposition := congrArg Failure.position (Except.error.inj hplace)
  simp only [Failure.place, nudge, if_true] at hposition
  omega

end Offsets

end UnitCheck.Markup
