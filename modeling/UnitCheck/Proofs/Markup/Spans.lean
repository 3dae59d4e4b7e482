import Mathlib.Data.List.Basic
import UnitCheck.Proofs.Markup.Lexing
import UnitCheck.Proofs.Text.Numeral

/-! # The spans of tokens

A text is cut into pieces that follow each other without a gap. A piece makes a token, whose span it then
is, or it is one that makes none: a sizing command, a backslash without a name, or a character outside the
alphabet. So the tokens lie one behind the other, and what no token covers is known. -/

namespace UnitCheck.Markup

/-- A character that belongs to a token or begins one. Blanks do not. -/
def InAlphabet (c : Char) : Prop :=
  isLetter c = true ∨ isNumberChar c = true ∨ c ∈ operatorChars ∨ c = '_' ∨ c = '\\'

/-- What a piece can be, with the text behind it and the kind and text of the token that it makes. Letters of a command
    and characters of a number are taken as far as they go. -/
inductive Piece : List Char → List Char → Option (Kind × String) → Prop where
  | number {run behind : List Char} (nonempty : run ≠ []) (digits : ∀ c ∈ run, isNumberChar c = true)
      (ends : ∀ c ∈ behind.head?, isNumberChar c = false) : Piece run behind (some (.number, String.ofList run))
  | command {letters behind : List Char} (nonempty : letters ≠ []) (letter : ∀ c ∈ letters, isLetter c = true)
      (other : String.ofList ('\\' :: letters) ∉ multiplicationCommands ++ sizingCommands)
      (ends : ∀ c ∈ behind.head?, isLetter c = false) :
      Piece ('\\' :: letters) behind (some (.command, String.ofList ('\\' :: letters)))
  | multiplication {name : String} {behind : List Char} (mem : name ∈ multiplicationCommands)
      (ends : ∀ c ∈ behind.head?, isLetter c = false) : Piece name.toList behind (some (.operator, "*"))
  | sizing {name : String} {behind : List Char} (mem : name ∈ sizingCommands)
      (ends : ∀ c ∈ behind.head?, isLetter c = false) : Piece name.toList behind none
  | backslash {behind : List Char} (alone : ∀ c ∈ behind.head?, isLetter c = false) : Piece ['\\'] behind none
  | identifier {c : Char} {behind : List Char} (letter : isLetter c = true) :
      Piece [c] behind (some (.identifier, String.ofList [c]))
  | operator {c : Char} {behind : List Char} (mem : c ∈ operatorChars) :
      Piece [c] behind (some (.operator, String.ofList [c]))
  | subscript {behind : List Char} : Piece ['_'] behind (some (.subscript, "_"))
  | outside {c : Char} {behind : List Char} (foreign : ¬InAlphabet c) : Piece [c] behind none

/-! ### One piece -/

theorem not_number_of_letter {c : Char} (h : isLetter c = true) : isNumberChar c = false := by
  refine Bool.eq_false_iff.mpr fun hn => ?_
  have hdigit : c.isDigit = true ∨ c = '.' := by simpa [isNumberChar] using hn
  have hc := Text.of_inNumeral (p := fun x => !isLetter x) (by decide) hdigit
  simp [h] at hc

theorem not_number_of_name {name : String} (h : name ∈ multiplicationCommands ++ sizingCommands) :
    ∀ c ∈ name.toList, isNumberChar c = false := by
  have names : (multiplicationCommands ++ sizingCommands).all (·.toList.all (!isNumberChar ·)) = true := by decide
  intro c hc
  simpa using List.all_eq_true.mp (List.all_eq_true.mp names name h) c hc

theorem piece_of_name {letters behind : List Char} (hl : ∀ c ∈ letters, isLetter c = true)
    (he : ∀ c ∈ behind.head?, isLetter c = false) :
    Piece ('\\' :: letters) behind (piece '\\' (letters ++ behind)).1 := by
  have hpiece : (piece '\\' (letters ++ behind)).1 =
      if letters.isEmpty then none else commandPiece (String.ofList ('\\' :: letters)) := by
    simp only [piece, if_true, Text.takeWhile_run hl he]
  rw [hpiece]
  cases letters with
  | nil => exact .backslash he
  | cons l letters =>
    rw [if_neg (by simp), commandPiece]
    have hname : (String.ofList ('\\' :: l :: letters)).toList = '\\' :: l :: letters := String.toList_ofList
    split
    · rename_i hm
      rw [← hname]
      exact .multiplication (List.contains_iff_mem.mp hm) he
    · rename_i hm
      split
      · rename_i hs
        rw [← hname]
        exact .sizing (List.contains_iff_mem.mp hs) he
      · rename_i hs
        refine .command (List.cons_ne_nil l letters) hl (fun h => ?_) he
        rcases List.mem_append.mp h with h | h
        · exact hm (List.contains_iff_mem.mpr h)
        · exact hs (List.contains_iff_mem.mpr h)

/-- Each step of the lexer takes a piece. -/
theorem exists_piece (c : Char) (rest : List Char) :
    ∃ lexeme behind, c :: rest = lexeme ++ behind ∧ lexeme.length = (piece c rest).2 + 1 ∧
      Piece lexeme behind (piece c rest).1 := by
  by_cases hb : c = '\\'
  · subst hb
    obtain ⟨letters, behind, rfl, hl, he⟩ := Text.exists_run isLetter rest
    refine ⟨'\\' :: letters, behind, rfl, ?_, piece_of_name hl he⟩
    simp only [piece, if_true, Text.takeWhile_run hl he, List.length_cons]
  · by_cases hn : isNumberChar c = true
    · obtain ⟨digits, behind, rfl, hd, he⟩ := Text.exists_run isNumberChar rest
      have hpiece : piece c (digits ++ behind) = (some (.number, String.ofList (c :: digits)), digits.length) := by
        simp only [piece, hb, hn, if_false, if_true, Text.takeWhile_run hd he]
      rw [hpiece]
      exact ⟨c :: digits, behind, rfl, rfl, .number (List.cons_ne_nil c digits) (List.forall_mem_cons.mpr ⟨hn, hd⟩) he⟩
    · refine ⟨[c], rest, rfl, ?_⟩
      by_cases hl : isLetter c = true
      · simp only [piece, hb, hn, hl, if_false, if_true]
        exact ⟨rfl, .identifier hl⟩
      · by_cases ho : c ∈ operatorChars
        · simp only [piece, hb, hn, hl, List.contains_iff_mem.mpr ho, if_false, if_true]
          exact ⟨rfl, .operator ho⟩
        · by_cases hs : c = '_'
          · subst hs
            exact ⟨rfl, .subscript⟩
          · simp only [piece, hb, hn, hl, List.contains_iff_mem, ho, hs, if_false]
            refine ⟨rfl, .outside ?_⟩
            rintro (h | h | h | h | h)
            · exact hl h
            · exact hn h
            · exact ho h
            · exact hs h
            · exact hb h

theorem Piece.ne_nil {lexeme behind : List Char} {made : Option (Kind × String)} (h : Piece lexeme behind made) :
    lexeme ≠ [] := by
  have names : ∀ name ∈ multiplicationCommands ++ sizingCommands, name.toList ≠ [] := by decide
  cases h with
  | number nonempty _ _ => exact nonempty
  | multiplication mem _ => exact names _ (List.mem_append_left _ mem)
  | sizing mem _ => exact names _ (List.mem_append_right _ mem)
  | command | backslash | identifier | operator | subscript | outside => exact List.cons_ne_nil _ _

/-- A piece that is no number has no character of a number. -/
theorem Piece.not_number {lexeme behind : List Char} {made : Option (Kind × String)} (h : Piece lexeme behind made)
    (hk : ∀ f ∈ made, f.1 ≠ .number) : ∀ c ∈ lexeme, isNumberChar c = false := by
  cases h with
  | number => exact absurd rfl (hk _ rfl)
  | command _ letter _ _ =>
    intro c hc
    rcases List.mem_cons.mp hc with rfl | hc
    · rfl
    · exact not_number_of_letter (letter c hc)
  | multiplication mem _ => exact not_number_of_name (List.mem_append_left _ mem)
  | sizing mem _ => exact not_number_of_name (List.mem_append_right _ mem)
  | backslash | subscript => exact List.forall_mem_singleton.mpr rfl
  | identifier letter => exact List.forall_mem_singleton.mpr (not_number_of_letter letter)
  | operator mem => exact List.forall_mem_singleton.mpr (Bool.or_eq_false_iff.mp (inPiece_of_operator mem)).2
  | outside foreign =>
    refine List.forall_mem_singleton.mpr (Bool.eq_false_iff.mpr fun hn => foreign (Or.inr (Or.inl hn)))

/-! ### Parts of a text -/

/-- A part of a text, with what stands in front of it and behind it. -/
structure Part (text : List Char) where
  before : List Char
  lexeme : List Char
  behind : List Char
  whole : before ++ (lexeme ++ behind) = text

namespace Part
variable {text : List Char}

def start (p : Part text) : Nat := p.before.length

def stop (p : Part text) : Nat := p.before.length + p.lexeme.length

/-- The token has this part as its span. A number does not go on in front of it. -/
structure Holds (p : Part text) (t : Token) : Prop where
  start : t.start = p.start
  stop : t.stop = p.stop
  piece : Piece p.lexeme p.behind (some (t.kind, t.text))
  first : t.kind = .number → ∀ c ∈ p.before.getLast?, isNumberChar c = false

/-- The offset lies in this part, and the part makes no token. -/
def Skips (p : Part text) (i : Nat) : Prop := p.start ≤ i ∧ i < p.stop ∧ Piece p.lexeme p.behind none

theorem start_lt_stop (p : Part text) {made : Option (Kind × String)} (h : Piece p.lexeme p.behind made) :
    p.start < p.stop := Nat.lt_add_of_pos_right (List.length_pos_iff.mpr h.ne_nil)

theorem stop_le (p : Part text) : p.stop ≤ text.length := by
  have hlength := congrArg List.length p.whole
  simp only [List.length_append] at hlength
  rw [stop]
  omega

end Part

/-- The tokens of a text from an offset on: the text is cut into parts that follow each other, and the tokens are those
    that the parts make. -/
inductive Cut (text : List Char) : Nat → List Token → Prop where
  | nil : Cut text text.length []
  | token {t : Token} {ts : List Token} (p : Part text) (holds : p.Holds t) (behind : Cut text p.stop ts) :
      Cut text p.start (t :: ts)
  | skip {ts : List Token} (p : Part text) (made : Piece p.lexeme p.behind none) (behind : Cut text p.stop ts) :
      Cut text p.start ts

namespace Cut
variable {text : List Char} {offset : Nat} {ts : List Token}

theorem inside (h : Cut text offset ts) : ∀ t ∈ ts, offset ≤ t.start ∧ t.start < t.stop ∧ t.stop ≤ text.length := by
  induction h with
  | nil => simp
  | @token t ts p holds _ ih =>
    have hstart := holds.start
    have hstop := holds.stop
    have hle := p.stop_le
    have hlt := p.start_lt_stop holds.piece
    intro u hu
    rcases List.mem_cons.mp hu with rfl | hu
    · omega
    · obtain ⟨hlow, hu⟩ := ih u hu
      exact ⟨by omega, hu⟩
  | skip p made _ ih =>
    have hlt := p.start_lt_stop made
    intro u hu
    obtain ⟨hlow, hu⟩ := ih u hu
    exact ⟨by omega, hu⟩

theorem ordered (h : Cut text offset ts) : ts.Pairwise fun t u => t.start < u.start ∧ t.stop ≤ u.start := by
  induction h with
  | nil => exact .nil
  | @token t ts p holds behind ih =>
    have hstart := holds.start
    have hstop := holds.stop
    have hlt := p.start_lt_stop holds.piece
    refine List.pairwise_cons.mpr ⟨fun u hu => ?_, ih⟩
    obtain ⟨hlow, -, -⟩ := behind.inside u hu
    omega
  | skip _ _ _ ih => exact ih

theorem held (h : Cut text offset ts) : ∀ t ∈ ts, ∃ p : Part text, p.Holds t := by
  induction h with
  | nil => simp
  | token p holds _ ih => exact List.forall_mem_cons.mpr ⟨⟨p, holds⟩, ih⟩
  | skip _ _ _ ih => exact ih

/-- What stands in no span is a part that makes no token. -/
theorem skipped (h : Cut text offset ts) {i : Nat} (hlow : offset ≤ i) (hhigh : i < text.length)
    (hi : ∀ t ∈ ts, ¬(t.start ≤ i ∧ i < t.stop)) : ∃ p : Part text, p.Skips i := by
  induction h with
  | nil => omega
  | token p holds _ ih =>
    obtain ⟨hfirst, hi⟩ := List.forall_mem_cons.mp hi
    have hstart := holds.start
    have hstop := holds.stop
    exact ih (by omega) hi
  | skip p made _ ih =>
    rcases Nat.lt_or_ge i p.stop with hlt | hge
    · exact ⟨p, hlow, hlt, made⟩
    · exact ih hge hi

end Cut

/-! ### The run of the lexer -/

/-- No number goes on from the first text into the second. -/
def Divided (before cs : List Char) : Prop :=
  ∀ b ∈ before.getLast?, ∀ c ∈ cs.head?, isNumberChar b = true → isNumberChar c = false

/-- A piece leaves no number behind it that goes on. -/
theorem Piece.divided {before lexeme behind : List Char} {made : Option (Kind × String)} (h : Piece lexeme behind made) :
    Divided (before ++ lexeme) behind := by
  intro b hb c hc hn
  rw [List.getLast?_append_of_ne_nil _ h.ne_nil] at hb
  have hmem : b ∈ lexeme := List.mem_of_getLast? hb
  by_cases hk : ∀ f ∈ made, f.1 ≠ .number
  · rw [h.not_number hk b hmem] at hn
    cases hn
  · cases h with
    | number _ _ ends => exact ends c hc
    | command | multiplication | sizing | backslash | identifier | operator | subscript | outside =>
      exact absurd (by simp) hk

theorem Piece.digits {run behind : List Char} {text : String} (h : Piece run behind (some (.number, text))) :
    ∀ c ∈ run, isNumberChar c = true := by
  cases h with
  | number _ digits _ => exact digits

/-- A step of the lexer: the token of one piece, if it makes one, and the tokens behind the piece. -/
theorem tokenizeFrom_piece (start : Int) {c : Char} {rest lexeme behind : List Char} (hcs : c :: rest = lexeme ++ behind)
    (hlength : lexeme.length = (piece c rest).2 + 1) :
    rest.drop (piece c rest).2 = behind ∧
      tokenizeFrom start (c :: rest) =
        ((piece c rest).1.map fun f => (⟨f.1, f.2, start, start + lexeme.length⟩ : Token)).toList ++
          tokenizeFrom (start + lexeme.length) behind := by
  have hbehind : rest.drop (piece c rest).2 = behind := by
    have hdrop := congrArg (List.drop lexeme.length) hcs
    rwa [List.drop_left, hlength, List.drop_succ_cons] at hdrop
  have hstop : start + 1 + (piece c rest).2 = start + lexeme.length := by omega
  refine ⟨hbehind, ?_⟩
  rw [tokenizeFrom_cons, hstop, hbehind, pieceTokens]
  cases hp : piece c rest with
  | mk made more =>
    rw [hp] at hstop
    cases made with
    | none => rfl
    | some form =>
      dsimp only at hstop ⊢
      rw [hstop]
      rfl

theorem tokenizeFrom_cut {text before cs : List Char} (hwhole : before ++ cs = text) (hd : Divided before cs) :
    Cut text before.length (tokenizeFrom before.length cs) := by
  induction cs using pieces_induct generalizing before with
  | nil =>
    rw [List.append_nil] at hwhole
    rw [hwhole, tokenizeFrom_nil]
    exact .nil
  | cons c rest ih =>
    obtain ⟨lexeme, behind, hcs, hlength, hpiece⟩ := exists_piece c rest
    obtain ⟨hbehind, hstep⟩ := tokenizeFrom_piece before.length hcs hlength
    let p : Part text := ⟨before, lexeme, behind, hcs ▸ hwhole⟩
    have hafter : Cut text p.stop (tokenizeFrom (before.length + lexeme.length) behind) := by
      have hwhole' : before ++ lexeme ++ rest.drop (piece c rest).2 = text := by
        rw [hbehind, List.append_assoc, ← hcs, hwhole]
      have hmore := ih hwhole' (hbehind ▸ hpiece.divided)
      rwa [hbehind, List.length_append, Int.natCast_add] at hmore
    rw [hstep]
    cases hp : (piece c rest).1 with
    | none =>
      rw [hp] at hpiece
      exact .skip p hpiece hafter
    | some form =>
      obtain ⟨kind, name⟩ := form
      rw [hp] at hpiece
      refine .token p ⟨rfl, rfl, hpiece, fun hk b hb => ?_⟩ hafter
      -- A number in front of this one would have taken its first digit.
      subst hk
      have hc : isNumberChar c = true := by
        obtain ⟨x, run, rfl⟩ := List.exists_cons_of_ne_nil hpiece.ne_nil
        cases hcs
        exact hpiece.digits c List.mem_cons_self
      refine Bool.eq_false_iff.mpr fun hn => ?_
      rw [hd b hb c rfl hn] at hc
      cases hc

theorem tokenize_cut (text : List Char) : Cut text 0 (tokenize text) := by
  have hd : Divided [] text := fun b hb => by cases hb
  exact tokenizeFrom_cut rfl hd

/-- The tokens of a text lie in it one behind the other, none of them empty. Each is what stands in its span, and what
    stands in no span is part of a piece that makes no token. -/
theorem tokenize_spans (text : List Char) :
    Cut text 0 (tokenize text) ∧
      (∀ t ∈ tokenize text, 0 ≤ t.start ∧ t.start < t.stop ∧ t.stop ≤ text.length) ∧
      (tokenize text).Pairwise (fun t u => t.start < u.start ∧ t.stop ≤ u.start) ∧
      (∀ t ∈ tokenize text, ∃ p : Part text, p.Holds t) ∧
      ∀ i < text.length, (∀ t ∈ tokenize text, ¬(t.start ≤ i ∧ i < t.stop)) → ∃ p : Part text, p.Skips i := by
  have h := tokenize_cut text
  exact ⟨h, h.inside, h.ordered, h.held, fun i hi => h.skipped (Nat.zero_le i) hi⟩

/-- A backslash without a name, and a sizing command in front of a bracket. -/
theorem tokenize_spans_left :
    let text := "2.5\\ \\left(x".toList
    tokenize text = [⟨.number, "2.5", 0, 3⟩, ⟨.operator, "(", 10, 11⟩, ⟨.identifier, "x", 11, 12⟩] ∧
      (∃ p : Part text, p.Skips 3) ∧ ∃ p : Part text, p.Skips 7 := by
  intro text
  have htokens : tokenize text = [⟨.number, "2.5", 0, 3⟩, ⟨.operator, "(", 10, 11⟩, ⟨.identifier, "x", 11, 12⟩] := by
    decide +kernel
  obtain ⟨-, -, -, -, hskipped⟩ := tokenize_spans text
  refine ⟨htokens, hskipped 3 (by decide) ?_, hskipped 7 (by decide) ?_⟩
  all_goals
    rw [htokens]
    decide

end UnitCheck.Markup
