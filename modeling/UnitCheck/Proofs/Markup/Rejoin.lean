import Mathlib.Data.List.TakeWhile
import UnitCheck.Dimension.Named
import UnitCheck.Proofs.Markup.Denial
import UnitCheck.Proofs.Markup.Offsets
import UnitCheck.Proofs.Markup.Spans

/-! # Texts from tokens

The texts of the tokens of a text, with a space between each and the next, are cut into the same tokens
again: a piece is decided by its own characters, and none reaches over a space. The tokens have other
offsets then, and this is all that the reading of the new text can show. What both readings share is
the reading of the tokens with their numbers in place of offsets. -/

namespace UnitCheck.Markup

/-- A token without its offsets. -/
def Token.form (t : Token) : Kind × String := (t.kind, t.text)

/-! ### Lists that differ in offsets -/

/-- The tokens of these kinds and texts, with their numbers as offsets. -/
def numbered (forms : List (Kind × String)) : List Token := forms.mapIdx fun i f => ⟨f.1, f.2, i, i⟩

/-- The change from numbers to the offsets in a list that ends at `stop`. -/
def toOffsets (ts : List Token) (stop : Int) : Change :=
  ⟨fun p => ts[p.toNat]?.elim stop Token.start, fun p => ts[p.toNat]?.elim stop Token.stop, fun _ => False⟩

/-- An offset in each of two lists that end at `stop` and `stop'`, of tokens with the same number or of both ends. -/
def SamePlace (ts us : List Token) (stop stop' p q : Int) : Prop :=
  (p = stop ∧ q = stop') ∨ ∃ (i : Nat) (t u : Token), ts[i]? = some t ∧ us[i]? = some u ∧ p = t.start ∧ q = u.start

/-- The same dimension, or failures of one cause at corresponding offsets. -/
inductive Alike (place : Int → Int → Prop) :
    Except (Failure Cause) Dimension → Except (Failure Cause) Dimension → Prop where
  | ok (d : Dimension) : Alike place (.ok d) (.ok d)
  | error (cause : Cause) {p q : Int} (h : place p q) : Alike place (.error ⟨cause, p⟩) (.error ⟨cause, q⟩)

section Numbered
variable {scope : Scope} {ts us : List Token} {stop stop' : Int}

theorem numbered_place (ts : List Token) (stop : Int) :
    (numbered (ts.map Token.form)).map (·.place (toOffsets ts stop)) = ts := by
  refine List.ext_getElem (by simp [numbered]) fun i hi hi' => ?_
  simp [numbered, Token.form, Token.place, toOffsets, hi']

theorem parseTokens_numbered (ts : List Token) (stop : Int) :
    parseTokens scope stop ts =
      (parseTokens scope ts.length (numbered (ts.map Token.form))).mapError (·.place (toOffsets ts stop).start) := by
  have hend : (toOffsets ts stop).start ts.length = stop := by simp [toOffsets]
  have hplace : parseTokens scope ((toOffsets ts stop).start ts.length)
        ((numbered (ts.map Token.form)).map (·.place (toOffsets ts stop))) =
      (parseTokens scope ts.length (numbered (ts.map Token.form))).mapError (·.place (toOffsets ts stop).start) :=
    parseTokens_place fun _ h => h
  rwa [numbered_place, hend] at hplace

theorem parseTokens_alike (h : us.map Token.form = ts.map Token.form) :
    Alike (SamePlace ts us stop stop') (parseTokens scope stop ts) (parseTokens scope stop' us) := by
  have hlength : us.length = ts.length := by simpa using congrArg List.length h
  rw [parseTokens_numbered ts, parseTokens_numbered us, h, hlength]
  cases hr : parseTokens scope ts.length (numbered (ts.map Token.form)) with
  | ok d => exact .ok d
  | error f =>
    refine .error f.cause ?_
    rcases position_of_parseTokens hr with hp | ⟨t, ht, hp⟩
    · refine Or.inl ?_
      simp [toOffsets, hp, hlength]
    · refine Or.inr ?_
      obtain ⟨i, hi, rfl⟩ := List.mem_iff_getElem.mp ht
      have hi' : i < ts.length := by simpa [numbered] using hi
      refine ⟨i, ts[i], us[i], List.getElem?_eq_getElem hi', List.getElem?_eq_getElem (hlength ▸ hi'), ?_⟩
      simp [hp, toOffsets, numbered, hi', hlength]

end Numbered

/-! ### Texts of tokens -/

/-- The texts of tokens, with a space between each and the next. -/
def rejoin (ts : List Token) : List Char := [' '].intercalate (ts.map (·.text.toList))

/-- The text of the token, cut for itself, is that token. -/
def Token.Lexeme (t : Token) : Prop := ∀ start, (tokenizeFrom start t.text.toList).map Token.form = [t.form]

/-- A piece is decided by its own characters. -/
theorem piece_take (c : Char) (rest : List Char) : piece c (rest.take (piece c rest).2) = piece c rest := by
  unfold piece
  split
  · simp only [Text.take_length_takeWhile, List.takeWhile_idem]
  · split
    · simp only [Text.take_length_takeWhile, List.takeWhile_idem]
    · split
      · rfl
      · split
        · rfl
        · split <;> rfl

/-- A token has the characters of its piece, unless it is a multiplication sign. -/
theorem text_of_piece {c : Char} {rest : List Char} {kind : Kind} {text : String} {more : Nat}
    (h : piece c rest = (some (kind, text), more)) :
    text = String.ofList (c :: rest.take more) ∨ (kind = .operator ∧ text = "*") := by
  obtain ⟨lexeme, behind, hcs, hlength, hpiece⟩ := exists_piece c rest
  rw [h] at hlength hpiece
  have hlexeme : lexeme = c :: rest.take more := by
    have htake := congrArg (List.take lexeme.length) hcs
    rw [List.take_left, hlength, List.take_succ_cons] at htake
    exact htake.symm
  rw [← hlexeme]
  cases hpiece with
  | number | command | identifier | operator | subscript => exact Or.inl rfl
  | multiplication => exact Or.inr ⟨rfl, rfl⟩

theorem lexeme_of_mem {start : Int} {cs : List Char} {t : Token} (h : t ∈ tokenizeFrom start cs) : t.Lexeme := by
  obtain ⟨begin, c, rest, hp⟩ := exists_piece_of_mem h
  unfold pieceTokens at hp
  split at hp
  · rename_i kind text more hpiece
    obtain rfl := List.mem_singleton.mp hp
    intro start'
    rcases text_of_piece hpiece with rfl | ⟨rfl, rfl⟩
    · have htake : piece c (rest.take more) = (some (kind, String.ofList (c :: rest.take more)), more) := by
        have := piece_take c rest
        rwa [hpiece] at this
      rw [String.toList_ofList, tokenizeFrom_cons, pieceTokens, htake]
      simp [Token.form]
    · have htimes : piece '*' [] = (some (.operator, "*"), 0) := by decide
      have hchars : "*".toList = ['*'] := by decide
      rw [hchars, tokenizeFrom_cons, pieceTokens, htimes]
      simp [Token.form]
  · cases hp

theorem apart_space (cs : List Char) : Apart ([' '] ++ cs) := fun c hc => by
  cases hc
  decide

theorem tokenizeFrom_rejoin {ts : List Token} (h : ∀ t ∈ ts, t.Lexeme) (start : Int) :
    (tokenizeFrom start (rejoin ts)).map Token.form = ts.map Token.form := by
  induction ts generalizing start with
  | nil => simp [rejoin, List.intercalate]
  | cons t ts ih =>
    obtain ⟨ht, hts⟩ := List.forall_mem_cons.mp h
    cases ts with
    | nil =>
      rw [rejoin, List.map_singleton, List.intercalate_singleton]
      exact ht start
    | cons u ts =>
      have hspace : ∀ c ∈ [' '], Text.isBlank c = true := List.forall_mem_singleton.mpr rfl
      have hjoin : rejoin (t :: u :: ts) = t.text.toList ++ ([' '] ++ rejoin (u :: ts)) := by
        simp only [rejoin, List.map_cons, List.intercalate_cons_cons, List.append_assoc]
      rw [hjoin, tokenizeFrom_append _ _ (apart_space _), List.map_append, ht, tokenizeFrom_blank_append _ hspace,
        ih hts]
      rfl

theorem tokenize_rejoin (text : List Char) :
    (tokenize (rejoin (tokenize text))).map Token.form = (tokenize text).map Token.form :=
  tokenizeFrom_rejoin (fun _ ht => lexeme_of_mem ht) 0

theorem not_blank_of_tokenize {text : List Char} (h : tokenize text ≠ []) : text.all Text.isBlank = false :=
  Bool.eq_false_iff.mpr fun hblank => h (tokenizeFrom_of_blank 0 (List.all_eq_true.mp hblank))

/-- The texts of the tokens of a text, with spaces between them, are cut into the same tokens. If there are any, both
    texts are read in the same way: with one dimension, or with failures of one cause that lie at the same token or both
    at the end. -/
theorem parse_rejoin (text : List Char) :
    (tokenize (rejoin (tokenize text))).map Token.form = (tokenize text).map Token.form ∧
      (tokenize text ≠ [] → ∀ scope,
        Alike (SamePlace (tokenize text) (tokenize (rejoin (tokenize text))) text.length (rejoin (tokenize text)).length)
          (parse scope text) (parse scope (rejoin (tokenize text)))) := by
  have hforms := tokenize_rejoin text
  refine ⟨hforms, fun htokens scope => ?_⟩
  have hagain : tokenize (rejoin (tokenize text)) ≠ [] := fun hnil => by
    rw [hnil] at hforms
    exact htokens (List.map_eq_nil_iff.mp hforms.symm)
  rw [parse_of_not_blank scope (not_blank_of_tokenize htokens), parse_of_not_blank scope (not_blank_of_tokenize hagain)]
  exact parseTokens_alike hforms

/-- A text with a sizing command, a multiplication command and characters that make no token. -/
def sizedProduct : List Char := "\\left(x\\cdot 2.5#\\right)+\\alpha_iy".toList

/-- The symbol that is not declared is the seventh token of both texts. -/
theorem parse_rejoin_sizedProduct :
    let scope : Scope := ⟨.ofList [("x", .ofBase .length)], .standard⟩
    let again := rejoin (tokenize sizedProduct)
    tokenize sizedProduct ≠ [] ∧ again = "( x * 2.5 ) + \\alpha _ i y".toList ∧
      parse scope sizedProduct = .error ⟨.undeclared "\\alpha", 25⟩ ∧
      Alike (SamePlace (tokenize sizedProduct) (tokenize again) sizedProduct.length again.length)
        (parse scope sizedProduct) (parse scope again) := by
  intro scope again
  have htokens : tokenize sizedProduct ≠ [] := by decide +kernel
  have hagain : again = "( x * 2.5 ) + \\alpha _ i y".toList := by decide +kernel
  have hfails : parse scope sizedProduct = .error ⟨.undeclared "\\alpha", 25⟩ := by decide +kernel
  exact ⟨htokens, hagain, hfails, (parse_rejoin sizedProduct).2 htokens scope⟩

end UnitCheck.Markup
