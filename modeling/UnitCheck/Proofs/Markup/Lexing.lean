import UnitCheck.Proofs.Markup.Offsets
import UnitCheck.Proofs.Text.Run
import UnitCheck.Text.Blank

/-! # Cutting texts

A text is cut into pieces from its beginning, and only the letters and digits behind a character can
belong to its piece. So a text may be cut for itself up to any other character: blanks, which make no
tokens, and `=`, which is a token of its own wherever it stands. Where a text begins makes no difference
but to the offsets. -/

namespace UnitCheck.Markup

/-- The token of the piece that begins with `c`, if it makes one. -/
def pieceTokens (start : Int) (c : Char) (rest : List Char) : List Token :=
  match piece c rest with
  | (some (kind, text), more) => [⟨kind, text, start, start + 1 + more⟩]
  | (none, _) => []

@[simp] theorem tokenizeFrom_nil (start : Int) : tokenizeFrom start [] = [] := by
  rw [tokenizeFrom]

theorem tokenizeFrom_cons (start : Int) (c : Char) (rest : List Char) :
    tokenizeFrom start (c :: rest) = pieceTokens start c rest ++
      tokenizeFrom (start + 1 + (piece c rest).2) (rest.drop (piece c rest).2) := by
  rw [tokenizeFrom, pieceTokens]
  rcases piece c rest with ⟨_ | ⟨kind, text⟩, more⟩ <;> rfl

/-- Induction along the pieces of a text. -/
theorem pieces_induct {motive : List Char → Prop} (nil : motive [])
    (cons : ∀ c rest, motive (rest.drop (piece c rest).2) → motive (c :: rest)) (cs : List Char) : motive cs := by
  induction hn : cs.length using Nat.strongRecOn generalizing cs with
  | ind n ih =>
    cases cs with
    | nil => exact nil
    | cons c rest =>
      refine cons c rest (ih _ ?_ _ rfl)
      simp only [List.length_cons, List.length_drop] at hn ⊢
      omega

/-! ### What belongs to a piece -/

/-- A character that can stand behind the first one of a piece. -/
def inPiece (c : Char) : Bool := isLetter c || isNumberChar c

/-- A text that no piece can reach into. -/
def Apart (cs : List Char) : Prop := ∀ c ∈ cs.head?, inPiece c = false

theorem Apart.letter {cs : List Char} (h : Apart cs) : ∀ c ∈ cs.head?, isLetter c = false := fun c hc =>
  (Bool.or_eq_false_iff.mp (h c hc)).1

theorem Apart.number {cs : List Char} (h : Apart cs) : ∀ c ∈ cs.head?, isNumberChar c = false := fun c hc =>
  (Bool.or_eq_false_iff.mp (h c hc)).2

section Piece
variable {c : Char} {rest behind : List Char}

theorem piece_append (h : Apart behind) : piece c (rest ++ behind) = piece c rest := by
  simp only [piece, Text.takeWhile_append_of_head h.letter, Text.takeWhile_append_of_head h.number]

theorem piece_more (c : Char) (rest : List Char) :
    ∃ run, run <+: rest ∧ (piece c rest).2 = run.length ∧ ∀ x ∈ run, inPiece x = true := by
  have taken (p : Char → Bool) (hp : ∀ x, p x = true → inPiece x = true) :
      ∀ x ∈ rest.takeWhile p, inPiece x = true := fun x hx => hp x (List.all_eq_true.mp List.all_takeWhile x hx)
  unfold piece
  split
  · exact ⟨_, List.takeWhile_prefix _, rfl, taken isLetter fun x hx => by simp [inPiece, hx]⟩
  · split
    · exact ⟨_, List.takeWhile_prefix _, rfl, taken isNumberChar fun x hx => by simp [inPiece, hx]⟩
    · refine ⟨[], List.nil_prefix, ?_, fun _ hx => by cases hx⟩
      split
      · rfl
      · split
        · rfl
        · split <;> rfl

theorem piece_more_le (c : Char) (rest : List Char) : (piece c rest).2 ≤ rest.length := by
  obtain ⟨run, hrun, hlen, -⟩ := piece_more c rest
  rw [hlen]
  exact hrun.length_le

theorem inPiece_of_mem_take : ∀ x ∈ rest.take (piece c rest).2, inPiece x = true := by
  obtain ⟨run, ⟨tail, rfl⟩, hlen, hrun⟩ := piece_more c rest
  rw [hlen, List.take_left]
  exact hrun

theorem pieceTokens_append {start : Int} (h : Apart behind) :
    pieceTokens start c (rest ++ behind) = pieceTokens start c rest := by
  rw [pieceTokens, piece_append h, pieceTokens]

end Piece

/-- What a token is written as. -/
inductive Spelled (c : Char) (rest : List Char) : Kind → String → Prop where
  | command (backslash : c = '\\') : Spelled c rest .command (String.ofList (c :: rest.takeWhile isLetter))
  | multiplication (backslash : c = '\\') : Spelled c rest .operator "*"
  | number (digit : isNumberChar c = true) : Spelled c rest .number (String.ofList (c :: rest.takeWhile isNumberChar))
  | identifier (letter : isLetter c = true) : Spelled c rest .identifier (String.ofList [c])
  | operator (mem : c ∈ operatorChars) : Spelled c rest .operator (String.ofList [c])
  | subscript (mark : c = '_') : Spelled c rest .subscript (String.ofList [c])

theorem spelled_of_piece {c : Char} {rest : List Char} {kind : Kind} {text : String} {more : Nat}
    (h : piece c rest = (some (kind, text), more)) : Spelled c rest kind text := by
  unfold piece at h
  split at h
  · rename_i hc
    have hcommand := congrArg Prod.fst h
    dsimp only at hcommand
    split at hcommand
    · cases hcommand
    · unfold commandPiece at hcommand
      split at hcommand
      · cases hcommand
        exact .multiplication hc
      · split at hcommand
        · cases hcommand
        · cases hcommand
          exact .command hc
  · split at h
    · rename_i hc
      cases h
      exact .number hc
    · split at h
      · rename_i hc
        cases h
        exact .identifier hc
      · split at h
        · rename_i hc
          cases h
          exact .operator (List.contains_iff_mem.mp hc)
        · split at h
          · rename_i hc
            cases h
            exact .subscript hc
          · cases h

theorem exists_piece_of_mem {start : Int} {cs : List Char} {t : Token} (h : t ∈ tokenizeFrom start cs) :
    ∃ begin c rest, t ∈ pieceTokens begin c rest := by
  induction cs using pieces_induct generalizing start with
  | nil => simp at h
  | cons c rest ih =>
    rw [tokenizeFrom_cons] at h
    rcases List.mem_append.mp h with h | h
    · exact ⟨start, c, rest, h⟩
    · exact ih h

theorem spelled_of_mem {start : Int} {cs : List Char} {t : Token} (h : t ∈ tokenizeFrom start cs) :
    ∃ c rest, Spelled c rest t.kind t.text := by
  obtain ⟨begin, c, rest, hp⟩ := exists_piece_of_mem h
  unfold pieceTokens at hp
  split at hp
  · rename_i kind text more hpiece
    obtain rfl := List.mem_singleton.mp hp
    exact ⟨c, rest, spelled_of_piece hpiece⟩
  · cases hp

/-! ### Cutting and moving -/

theorem tokenizeFrom_append (start : Int) (cs : List Char) {behind : List Char} (h : Apart behind) :
    tokenizeFrom start (cs ++ behind) = tokenizeFrom start cs ++ tokenizeFrom (start + cs.length) behind := by
  induction cs using pieces_induct generalizing start with
  | nil => simp
  | cons c rest ih =>
    have hle := piece_more_le c rest
    rw [List.cons_append, tokenizeFrom_cons, tokenizeFrom_cons, pieceTokens_append h, piece_append h,
      List.drop_append_of_le_length hle, ih, List.append_assoc]
    congr 3
    simp only [List.length_drop, List.length_cons]
    omega

/-- The change that moves all offsets by the same number. -/
def moveBy (k : Int) : Change := ⟨(· + k), (· + k), fun _ => False⟩

theorem tokenizeFrom_add (start k : Int) (cs : List Char) :
    tokenizeFrom (start + k) cs = (tokenizeFrom start cs).map (·.place (moveBy k)) := by
  induction cs using pieces_induct generalizing start with
  | nil => simp
  | cons c rest ih =>
    have hpiece : pieceTokens (start + k) c rest = (pieceTokens start c rest).map (·.place (moveBy k)) := by
      simp only [pieceTokens]
      rcases piece c rest with ⟨_ | ⟨kind, text⟩, more⟩
      · rfl
      · simp only [List.map_cons, List.map_nil, Token.place, moveBy]
        congr 2
        omega
    rw [tokenizeFrom_cons, tokenizeFrom_cons, List.map_append, ← hpiece, ← ih]
    congr 2
    omega

theorem start_of_mem_tokenizeFrom {start : Int} {cs : List Char} {t : Token} (h : t ∈ tokenizeFrom start cs) :
    start ≤ t.start ∧ t.start < start + cs.length := by
  induction cs using pieces_induct generalizing start with
  | nil => simp at h
  | cons c rest ih =>
    have hle := piece_more_le c rest
    rw [tokenizeFrom_cons, List.mem_append] at h
    rw [List.length_cons]
    rcases h with h | h
    · obtain rfl : t.start = start := by
        unfold pieceTokens at h
        split at h
        · rw [List.mem_singleton.mp h]
        · cases h
      omega
    · have := ih h
      rw [List.length_drop] at this
      omega

/-! ### Blanks -/

section Blank
variable {c : Char}

theorem toNat_of_isBlank (h : Text.isBlank c = true) : c.toNat ≤ 32 ∨ 133 ≤ c.toNat := by
  simp only [Text.isBlank, Text.isSpace, Bool.or_eq_true, Bool.and_eq_true, decide_eq_true_eq, beq_iff_eq] at h
  omega

theorem toNat_of_inPiece (h : inPiece c = true) : 33 ≤ c.toNat ∧ c.toNat ≤ 132 := by
  delta inPiece isLetter isNumberChar Char.isAlpha Char.isUpper Char.isLower Char.isDigit at h
  simp only [Bool.or_eq_true, Bool.and_eq_true, decide_eq_true_eq, ge_iff_le, UInt32.le_iff_toNat_le] at h
  unfold Char.toNat
  rcases h with (h | h) | h | rfl
  · exact ⟨Nat.le_trans (by decide) h.1, Nat.le_trans h.2 (by decide)⟩
  · exact ⟨Nat.le_trans (by decide) h.1, Nat.le_trans h.2 (by decide)⟩
  · exact ⟨Nat.le_trans (by decide) h.1, Nat.le_trans h.2 (by decide)⟩
  · decide

theorem inPiece_of_isBlank (h : Text.isBlank c = true) : inPiece c = false := by
  refine Bool.eq_false_iff.mpr fun hc => ?_
  have := toNat_of_isBlank h
  have := toNat_of_inPiece hc
  omega

theorem piece_of_isBlank (h : Text.isBlank c = true) (rest : List Char) : piece c rest = (none, 0) := by
  have hne : ∀ x : Char, Text.isBlank x = false → c ≠ x := fun x hx e => by
    rw [e, hx] at h
    cases h
  obtain ⟨hl, hn⟩ := Bool.or_eq_false_iff.mp (inPiece_of_isBlank h)
  have hoperators : operatorChars.all (!Text.isBlank ·) = true := by decide
  have hop : c ∉ operatorChars := fun hc => by
    have := List.all_eq_true.mp hoperators c hc
    rw [h] at this
    cases this
  simp [piece, hne '\\' (by decide), hne '_' (by decide), hl, hn, hop]

theorem apart_of_blank {cs : List Char} (h : ∀ c ∈ cs, Text.isBlank c = true) : Apart cs := fun c hc =>
  inPiece_of_isBlank (h c (List.mem_of_mem_head? hc))

theorem tokenizeFrom_blank_append (start : Int) {lead : List Char} (h : ∀ c ∈ lead, Text.isBlank c = true)
    (cs : List Char) : tokenizeFrom start (lead ++ cs) = tokenizeFrom (start + lead.length) cs := by
  induction lead generalizing start with
  | nil => simp
  | cons c lead ih =>
    have hc := piece_of_isBlank (h c List.mem_cons_self) (lead ++ cs)
    rw [List.cons_append, tokenizeFrom_cons, pieceTokens, hc, List.nil_append, List.drop_zero,
      ih _ fun x hx => h x (List.mem_cons_of_mem c hx)]
    congr 1
    simp only [List.length_cons]
    omega

theorem tokenizeFrom_of_blank (start : Int) {cs : List Char} (h : ∀ c ∈ cs, Text.isBlank c = true) :
    tokenizeFrom start cs = [] := by
  have := tokenizeFrom_blank_append start h []
  rwa [List.append_nil, tokenizeFrom_nil] at this

end Blank

section Trim
open Text (trim trimStart isBlank)

theorem exists_trim (cs : List Char) :
    ∃ lead trail, cs = lead ++ (trim cs ++ trail) ∧ lead.length = cs.length - (trimStart cs).length ∧
      (∀ c ∈ lead, isBlank c = true) ∧ ∀ c ∈ trail, isBlank c = true := by
  have hstart : cs.takeWhile isBlank ++ trimStart cs = cs := List.takeWhile_append_dropWhile
  have hend : trim cs ++ ((trimStart cs).reverse.takeWhile isBlank).reverse = trimStart cs := by
    rw [trim, Text.dropEnd, ← List.reverse_append, List.takeWhile_append_dropWhile, List.reverse_reverse]
  refine ⟨_, _, (hend ▸ hstart).symm, ?_, List.all_eq_true.mp List.all_takeWhile, fun c hc => ?_⟩
  · have := congrArg List.length hstart
    rw [List.length_append] at this
    omega
  · exact List.all_eq_true.mp List.all_takeWhile c (List.mem_reverse.mp hc)

theorem tokenizeFrom_trim (start : Int) (cs : List Char) :
    tokenizeFrom start cs = tokenizeFrom (start + (cs.length - (trimStart cs).length : Nat)) (trim cs) := by
  obtain ⟨lead, trail, hcs, hlength, hlead, htrail⟩ := exists_trim cs
  conv => lhs; rw [hcs]
  rw [tokenizeFrom_blank_append start hlead, tokenizeFrom_append _ _ (apart_of_blank htrail),
    tokenizeFrom_of_blank _ htrail, List.append_nil, hlength]

theorem trim_eq_nil_of_blank {cs : List Char} (h : (trim cs).all isBlank = true) : trim cs = [] := by
  have hlast := List.head?_dropWhile_not isBlank (trimStart cs).reverse
  rw [trim, Text.dropEnd, List.reverse_eq_nil_iff]
  cases hd : (trimStart cs).reverse.dropWhile isBlank with
  | nil => rfl
  | cons c rest =>
    rw [hd] at hlast
    have hc : isBlank c = true := by
      refine List.all_eq_true.mp h c ?_
      rw [trim, Text.dropEnd, hd]
      simp
    simp [hc] at hlast

end Trim

/-! ### Operators -/

section Operator
variable {c : Char}

theorem inPiece_of_operator (h : c ∈ operatorChars) : inPiece c = false := by
  have hoperators : operatorChars.all (!inPiece ·) = true := by decide
  simpa using List.all_eq_true.mp hoperators c h

theorem apart_operator (h : c ∈ operatorChars) (rest : List Char) : Apart (c :: rest) := fun x hx => by
  cases hx
  exact inPiece_of_operator h

theorem piece_of_operator (h : c ∈ operatorChars) (rest : List Char) :
    piece c rest = (some (.operator, String.ofList [c]), 0) := by
  have hne : c ≠ '\\' := by
    rintro rfl
    exact absurd h (by decide)
  obtain ⟨hl, hn⟩ := Bool.or_eq_false_iff.mp (inPiece_of_operator h)
  simp [piece, hne, hl, hn, h]

theorem tokenizeFrom_operator (start : Int) (h : c ∈ operatorChars) (rest : List Char) :
    tokenizeFrom start (c :: rest) =
      ⟨.operator, String.ofList [c], start, start + 1⟩ :: tokenizeFrom (start + 1) rest := by
  rw [tokenizeFrom_cons, pieceTokens, piece_of_operator h]
  simp

end Operator

/-! ### The equals sign -/

theorem eq_of_piece {c : Char} {rest : List Char} {kind : Kind} {text : String} {more : Nat}
    (h : piece c rest = (some (kind, text), more)) (hk : kind = .operator) (ht : text = "=") : c = '=' := by
  cases spelled_of_piece h with
  | command | number | identifier | subscript => cases hk
  | multiplication => exact absurd ht (by decide)
  | operator =>
    have hchars := congrArg String.toList ht
    simpa using hchars

theorem countP_pieceTokens (start : Int) (c : Char) (rest : List Char) :
    (pieceTokens start c rest).countP (·.isOperator "=") = if c = '=' then 1 else 0 := by
  by_cases he : c = '='
  · subst he
    rfl
  · rw [if_neg he, List.countP_eq_zero]
    intro t ht hop
    unfold pieceTokens at ht
    split at ht
    · rename_i kind text more hp
      obtain rfl := List.mem_singleton.mp ht
      obtain ⟨hk, htext⟩ := Token.isOperator_iff.mp hop
      exact he (eq_of_piece hp hk htext)
    · cases ht

theorem countP_tokenizeFrom (start : Int) (cs : List Char) :
    (tokenizeFrom start cs).countP (·.isOperator "=") = cs.count '=' := by
  induction cs using pieces_induct generalizing start with
  | nil => simp
  | cons c rest ih =>
    have hequals : inPiece '=' = false := by decide
    have htaken : (rest.take (piece c rest).2).count '=' = 0 :=
      List.count_eq_zero.mpr fun h => Bool.eq_false_iff.mp hequals (inPiece_of_mem_take _ h)
    have hrest : rest.count '=' = (rest.drop (piece c rest).2).count '=' := by
      conv => lhs; rw [← List.take_append_drop (piece c rest).2 rest]
      rw [List.count_append, htaken, Nat.zero_add]
    rw [tokenizeFrom_cons, List.countP_append, ih, countP_pieceTokens, List.count_cons, hrest, Nat.add_comm]
    simp

end UnitCheck.Markup
