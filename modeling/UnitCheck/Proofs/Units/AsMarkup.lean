import Mathlib.Data.List.Chain
import UnitCheck.Proofs.Markup.Complete
import UnitCheck.Proofs.Markup.Denial
import UnitCheck.Proofs.Units.Normal
import UnitCheck.Proofs.Units.Reading

/-! # Unit expressions as markup

A unit expression whose units are single letters is also markup, and says the same there when each letter
is declared with the dimension of its unit. Both lexers cut it at the same places, since letters that stand
apart are runs of one. What the grammar of units derives from the tokens, the grammar of markup derives
too: there a product may leave its sign out and a sum may have signs, but a phrase of units needs neither.
The one thing that markup limits and units do not is how deep parentheses nest. -/

namespace UnitCheck.Units

/-! ### The common alphabet -/

/-- The signs of unit expressions that stand between, in front of and behind units and numbers. -/
def operators : List Char := ['(', ')', '*', '/', '^']

/-- The characters of unit expressions that markup has too. -/
def InCommon (c : Char) : Prop := c.isAlpha ∨ InNumber c ∨ c ∈ operators

instance (c : Char) : Decidable (InCommon c) := inferInstanceAs (Decidable (_ ∨ (_ ∨ _) ∨ _))

/-- No letter stands beside another. -/
def LettersApart (text : List Char) : Prop := text.IsChain fun a b => ¬(a.isAlpha ∧ b.isAlpha)

instance (text : List Char) : Decidable (LettersApart text) := inferInstanceAs (Decidable (List.IsChain _ _))

/-- The most parentheses that are open at once in a text, of which `opened` are so at its beginning. -/
def nestingFrom (opened : Nat) : List Char → Nat
  | [] => opened
  | c :: rest =>
    max opened (nestingFrom (if c = '(' then opened + 1 else if c = ')' then opened - 1 else opened) rest)

/-- The most parentheses that are open at once. -/
def nesting (text : List Char) : Nat := nestingFrom 0 text

theorem InCommon.inAlphabet {c : Char} (hc : InCommon c) : InAlphabet c :=
  hc.imp_right fun h => h.imp_right fun ho => (by decide : operators ⊆ signs.map Prod.fst) ho

/-! ### Tokens -/

/-- The kind of a markup token with the same text. -/
def Kind.asMarkup : Kind → Markup.Kind
  | number => .number
  | symbol => .identifier
  | _ => .operator

/-- The markup token at the same place. -/
def Token.asMarkup (t : Token) : Markup.Token :=
  ⟨t.kind.asMarkup, t.text, t.start, t.start + t.text.length⟩

/-- A token of characters of its kind, only one of them unless it is a number. -/
structure Token.Written (t : Token) : Prop where
  kind : ∀ c ∈ t.text.toList, kind? c = some t.kind
  single : t.kind ≠ .number → ∃ c, t.text = String.ofList [c]

/-- The sign that tokens of a kind are. -/
def Kind.sign? : Kind → Option Char
  | .leftParen => some '('
  | .rightParen => some ')'
  | .times => some '*'
  | .over => some '/'
  | .caret => some '^'
  | _ => none

theorem eq_of_sign? {c x : Char} {k : Kind} (hk : kind? c = some k) (hx : k.sign? = some x) : c = x := by
  grind [kind?, Kind.sign?]

section Written
variable {t : Token} {c : Char}

theorem Token.Written.text_eq (h : t.Written) (hc : t.kind.sign? = some c) : t.text = String.ofList [c] := by
  obtain ⟨x, hx⟩ := h.single fun hk => by
    rw [hk] at hc
    cases hc
  have hkind : kind? x = some t.kind := h.kind x (by simp [hx])
  rw [hx, eq_of_sign? hkind hc]

theorem Token.Written.isOperator (h : t.Written) (hc : t.kind.sign? = some c) :
    t.asMarkup.isOperator (String.ofList [c]) = true := by
  have hk : t.kind.asMarkup = .operator := by
    cases hk : t.kind <;> rw [hk] at hc <;> first | rfl | cases hc
  exact Markup.Token.isOperator_iff.mpr ⟨hk, h.text_eq hc⟩

end Written

theorem Token.asMarkup_not_denied (t : Token) : t.asMarkup.denied? = none := by
  have hk : t.asMarkup.kind ≠ .command := by
    cases hk : t.kind <;> simp [Token.asMarkup, Kind.asMarkup, hk]
  rw [Markup.Token.denied?, if_neg hk]

/-! ### Lexers -/

section Lexing
variable {start : Nat} {cs : List Char} {ts : List Token}

theorem piece_of_letter {c : Char} (h : c.isAlpha = true) (rest : List Char) :
    Markup.piece c rest = (some (.identifier, String.ofList [c]), 0) := by
  have hne : ∀ x : Char, x.isAlpha = false → c ≠ x := fun x hx he => by
    rw [he, hx] at h
    cases h
  simp [Markup.piece, Markup.isNumberChar, Markup.isLetter, hne '\\' rfl, hne '.' rfl, isDigit_eq_false_of_isAlpha h, h]

theorem isNumberChar_eq_true {c : Char} : Markup.isNumberChar c = true ↔ InNumber c := by
  simp [Markup.isNumberChar, InNumber]

theorem piece_of_digits {c : Char} {run rest : List Char} (h : ∀ x ∈ c :: run, InNumber x)
    (longest : ∀ x ∈ rest.head?, ¬InNumber x) :
    Markup.piece c (run ++ rest) = (some (.number, String.ofList (c :: run)), run.length) := by
  have hc := isNumberChar_eq_true.mpr (h c List.mem_cons_self)
  have hne : c ≠ '\\' := by
    rintro rfl
    exact absurd hc (by decide)
  have hrun : (run ++ rest).takeWhile Markup.isNumberChar = run :=
    Text.takeWhile_run (fun x hx => isNumberChar_eq_true.mpr (h x (List.mem_cons_of_mem c hx)))
      fun x hx => Bool.eq_false_iff.mpr fun hn => longest x hx (isNumberChar_eq_true.mp hn)
  simp [Markup.piece, hne, hc, hrun]

/-- A run of letters that stand apart is one letter. -/
theorem LettersApart.run_eq {run rest : List Char} (ha : LettersApart (run ++ rest)) (nonempty : run ≠ [])
    (letters : ∀ c ∈ run, c.isAlpha) : ∃ c, run = [c] ∧ c.isAlpha := by
  match run, nonempty with
  | [c], _ => exact ⟨c, rfl, letters c List.mem_cons_self⟩
  | c :: d :: run, _ =>
    have hpair := (List.isChain_cons_cons.mp ha).1
    exact absurd ⟨letters c List.mem_cons_self, letters d (List.mem_cons_of_mem c List.mem_cons_self)⟩ hpair

theorem Cut.written (h : Cut start cs ts) (ha : LettersApart cs) : ∀ t ∈ ts, t.Written := by
  have single : ∀ t ∈ ts, t.kind ≠ .number → ∃ c, t.text = String.ofList [c] := by
    induction h with
    | nil => simp
    | @sign start c k rest ts _ _ ih => exact List.forall_mem_cons.mpr ⟨fun _ => ⟨c, rfl⟩, ih ha.tail⟩
    | @letters start run rest ts nonempty letters _ _ ih =>
      obtain ⟨c, rfl, -⟩ := ha.run_eq nonempty letters
      exact List.forall_mem_cons.mpr ⟨fun _ => ⟨c, rfl⟩, ih ha.tail⟩
    | digits _ _ _ _ ih => exact List.forall_mem_cons.mpr ⟨fun hn => absurd rfl hn, ih ha.right_of_append⟩
  exact fun t ht => ⟨h.kind t ht, single t ht⟩

/-- Both lexers cut a text whose letters stand apart at the same places. -/
theorem Cut.tokenizeFrom_eq (h : Cut start cs ts) (ha : LettersApart cs) :
    Markup.tokenizeFrom start cs = ts.map Token.asMarkup := by
  induction h with
  | nil => simp
  | @sign start c k rest ts sign _ ih =>
    have hc : c ∈ Markup.operatorChars ∧ k.asMarkup = .operator := by
      simp only [signs, List.mem_cons, Prod.mk.injEq, List.not_mem_nil, or_false] at sign
      rcases sign with ⟨rfl, rfl⟩ | ⟨rfl, rfl⟩ | ⟨rfl, rfl⟩ | ⟨rfl, rfl⟩ | ⟨rfl, rfl⟩ | ⟨rfl, rfl⟩ | ⟨rfl, rfl⟩ <;>
        exact ⟨by decide, rfl⟩
    rw [Markup.tokenizeFrom_cons, Markup.pieceTokens, Markup.piece_of_operator hc.1, List.map_cons, ← ih ha.tail]
    simp [Token.asMarkup, hc.2]
  | @letters start run rest ts nonempty letters _ _ ih =>
    obtain ⟨c, rfl, hc⟩ := ha.run_eq nonempty letters
    rw [List.singleton_append, Markup.tokenizeFrom_cons, Markup.pieceTokens, piece_of_letter hc, List.map_cons,
      ← ih ha.tail]
    simp [Token.asMarkup, Kind.asMarkup]
  | @digits start run rest ts nonempty digits longest _ ih =>
    obtain ⟨c, run, rfl⟩ := List.exists_cons_of_ne_nil nonempty
    have hstop : (start : Int) + 1 + run.length = (start + (c :: run).length : Nat) := by
      rw [List.length_cons]
      omega
    rw [List.cons_append, Markup.tokenizeFrom_cons, Markup.pieceTokens, piece_of_digits digits longest]
    dsimp only
    rw [hstop, List.drop_left, ih ha.right_of_append]
    simp [Token.asMarkup, Kind.asMarkup, Int.add_comm]

end Lexing

/-! ### Grammars -/

/-- The category of a markup phrase with the same tokens. -/
def Category.asMarkup : Category → Markup.Category
  | expression => .term
  | factor => .factor
  | primary => .primary

/-- The same expression in markup. -/
def Tree.asMarkup : Tree → Markup.Tree
  | one => .number
  | unit name => .symbol name
  | group e => .group e.asMarkup
  | power base exponent => .power base.asMarkup exponent
  | times left right => .times left.asMarkup right.asMarkup
  | quotient left right => .quotient left.asMarkup right.asMarkup

theorem Tree.depth_asMarkup (e : Tree) : e.asMarkup.depth = e.depth := by
  induction e with
  | one | unit => rfl
  | group e ih => exact congrArg (· + 1) ih
  | power base exponent ih => exact ih
  | times a b iha ihb | quotient a b iha ihb => simp only [asMarkup, Markup.Tree.depth, depth, iha, ihb]

section Grammar
variable {k : Category} {ts : List Token} {e : Tree} {d : Dimension}

/-- The same tokens derive the same expression in markup. -/
theorem Derives.asMarkup (h : Derives k ts e) (hw : ∀ t ∈ ts, t.Written) :
    Markup.Derives k.asMarkup (ts.map Token.asMarkup) e.asMarkup := by
  induction h with
  | one kind text => exact .number (by simp [Token.asMarkup, Kind.asMarkup, kind])
  | unit kind =>
    exact .symbol (Or.inl (by simp [Token.asMarkup, Kind.asMarkup, kind])) .none
  | @group l r ts e left _ right ih =>
    have hl := (hw l (by simp)).isOperator (c := '(') (by simp [left, Kind.sign?])
    have hr := (hw r (by simp)).isOperator (c := ')') (by simp [right, Kind.sign?])
    rw [List.map_cons, List.map_append]
    exact .parens hl (.unsigned (.term (ih fun t ht => hw t (by simp [ht])))) hr
  | primary _ ih => exact .primary (ih hw)
  | @power c x ts e _ caret number ih =>
    have hc := (hw c (by simp)).isOperator (c := '^') (by simp [caret, Kind.sign?])
    have hx : x.asMarkup.kind = .number := by simp [Token.asMarkup, Kind.asMarkup, number]
    rw [List.map_append]
    exact .power (ih fun t ht => hw t (by simp [ht])) hc (.number hx)
  | factor _ ih => exact .factor (ih hw)
  | @times o ts us a b _ operator _ iha ihb =>
    have ho := (hw o (by simp)).isOperator (c := '*') (by simp [operator, Kind.sign?])
    rw [List.map_append, List.map_cons]
    exact .times (iha fun t ht => hw t (by simp [ht])) ho (ihb fun t ht => hw t (by simp [ht]))
  | @quotient o ts us a b _ operator _ iha ihb =>
    have ho := (hw o (by simp)).isOperator (c := '/') (by simp [operator, Kind.sign?])
    rw [List.map_append, List.map_cons]
    exact .quotient (iha fun t ht => hw t (by simp [ht])) ho (ihb fun t ht => hw t (by simp [ht]))

/-- Every unit of one letter is declared with its dimension. -/
def DeclaresLetters (declared : Markup.Variables) : Prop :=
  ∀ c d, c.isAlpha → find? (String.ofList [c]) = some d → declared.find? (String.ofList [c]) = some d

/-- The expression has the same value in markup. -/
theorem Derives.value?_asMarkup {declared : Markup.Variables} (hdecl : DeclaresLetters declared) (h : Derives k ts e)
    (hw : ∀ t ∈ ts, t.Written) (hv : e.value? = some d) : e.asMarkup.value? declared = some d := by
  induction h generalizing d with
  | one => exact hv
  | @unit t kind =>
    have ht := hw t (by simp)
    obtain ⟨c, hc⟩ := ht.single (by simp [kind])
    have halpha : c.isAlpha = true := kind?_eq_symbol.mp (kind ▸ ht.kind c (by simp [hc]))
    rw [Tree.value?, hc] at hv
    rw [Tree.asMarkup, Markup.Tree.value?, hc]
    exact hdecl c d halpha hv
  | group _ _ _ ih => exact ih (fun t ht => hw t (by simp [ht])) hv
  | primary _ ih | factor _ ih => exact ih hw hv
  | power _ _ _ ih =>
    obtain ⟨a, ha, hv⟩ := Option.bind_eq_some_iff.mp hv
    have hm := ih (fun t ht => hw t (by simp [ht])) ha
    exact Option.bind_eq_some_iff.mpr ⟨a, hm, hv⟩
  | times _ _ _ iha ihb | quotient _ _ _ iha ihb =>
    obtain ⟨a, ha, hv⟩ := Option.bind_eq_some_iff.mp hv
    obtain ⟨b, hb, hv⟩ := Option.bind_eq_some_iff.mp hv
    have hma := iha (fun t ht => hw t (by simp [ht])) ha
    have hmb := ihb (fun t ht => hw t (by simp [ht])) hb
    exact Option.bind_eq_some_iff.mpr ⟨a, hma, Option.bind_eq_some_iff.mpr ⟨b, hmb, hv⟩⟩

end Grammar

/-! ### Nesting -/

section Nesting
variable {n : Nat} {rest : List Char}

theorem le_nestingFrom (n : Nat) (cs : List Char) : n ≤ nestingFrom n cs := by
  cases cs with
  | nil => exact Nat.le_refl n
  | cons c cs => exact Nat.le_max_left ..

theorem nestingFrom_append {cs : List Char} (h : ∀ c ∈ cs, c ≠ '(' ∧ c ≠ ')') :
    nestingFrom n (cs ++ rest) = nestingFrom n rest := by
  induction cs with
  | nil => rfl
  | cons c cs ih =>
    obtain ⟨hl, hr⟩ := h c List.mem_cons_self
    rw [List.cons_append, nestingFrom, if_neg hl, if_neg hr, ih fun x hx => h x (List.mem_cons_of_mem c hx)]
    exact Nat.max_eq_right (le_nestingFrom n rest)

theorem nestingFrom_left : nestingFrom n ('(' :: rest) = nestingFrom (n + 1) rest := by
  rw [nestingFrom, if_pos rfl]
  exact Nat.max_eq_right (Nat.le_trans (Nat.le_succ n) (le_nestingFrom _ rest))

theorem nestingFrom_right : nestingFrom (n + 1) (')' :: rest) = max (n + 1) (nestingFrom n rest) := by
  rw [nestingFrom, if_neg (by decide), if_pos rfl, Nat.add_sub_cancel]

theorem Token.Written.plain {t : Token} (h : t.Written) (hl : t.kind ≠ .leftParen) (hr : t.kind ≠ .rightParen) :
    ∀ c ∈ t.text.toList, c ≠ '(' ∧ c ≠ ')' := by
  intro c hc
  have hk := h.kind c hc
  constructor
  · rintro rfl
    exact hl (Option.some.inj hk).symm
  · rintro rfl
    exact hr (Option.some.inj hk).symm

/-- The characters of a phrase open as many parentheses at once as its groups nest. -/
theorem Derives.nestingFrom_eq {k : Category} {ts : List Token} {e : Tree} (h : Derives k ts e)
    (hw : ∀ t ∈ ts, t.Written) (n : Nat) (rest : List Char) :
    nestingFrom n (chars ts ++ rest) = max (n + e.depth) (nestingFrom n rest) := by
  have plain (t : Token) (ht : t.Written) (hl : t.kind ≠ .leftParen) (hr : t.kind ≠ .rightParen) (n : Nat)
      (rest : List Char) : nestingFrom n (t.text.toList ++ rest) = nestingFrom n rest :=
    nestingFrom_append (ht.plain hl hr)
  induction h generalizing n rest with
  | @one t kind _ | @unit t kind =>
    have ht := plain t (hw t (by simp)) (by simp [kind]) (by simp [kind]) n rest
    have hle := le_nestingFrom n rest
    simp only [chars, List.flatMap_singleton, ht, Tree.depth]
    omega
  | @group l r ts e left _ right ih =>
    have hl : l.text = String.ofList ['('] := (hw l (by simp)).text_eq (by simp [left, Kind.sign?])
    have hr : r.text = String.ofList [')'] := (hw r (by simp)).text_eq (by simp [right, Kind.sign?])
    have hts := ih (fun t ht => hw t (by simp [ht])) (n + 1) (')' :: rest)
    have hchars : chars (l :: (ts ++ [r])) ++ rest = '(' :: (chars ts ++ ')' :: rest) := by
      simp [chars, hl, hr]
    rw [hchars, nestingFrom_left, hts, nestingFrom_right, Tree.depth]
    omega
  | primary _ ih | factor _ ih => exact ih hw n rest
  | @power c x ts e _ caret number ih =>
    have hc := plain c (hw c (by simp)) (by simp [caret]) (by simp [caret]) n
    have hx := plain x (hw x (by simp)) (by simp [number]) (by simp [number]) n
    have hts := ih (fun t ht => hw t (by simp [ht])) n (c.text.toList ++ (x.text.toList ++ rest))
    have hchars : chars (ts ++ [c, x]) ++ rest = chars ts ++ (c.text.toList ++ (x.text.toList ++ rest)) := by
      simp [chars]
    rw [hchars, hts, hc, hx, Tree.depth]
  | @times o ts us a b _ operator _ iha ihb | @quotient o ts us a b _ operator _ iha ihb =>
    have ho := plain o (hw o (by simp)) (by simp [operator]) (by simp [operator]) n
    have hts := iha (fun t ht => hw t (by simp [ht])) n (o.text.toList ++ (chars us ++ rest))
    have hus := ihb (fun t ht => hw t (by simp [ht])) n rest
    have hchars : chars (ts ++ o :: us) ++ rest = chars ts ++ (o.text.toList ++ (chars us ++ rest)) := by
      simp [chars]
    rw [hchars, hts, ho, hus, Tree.depth]
    omega

end Nesting

/-- A unit expression with units of one letter, letters apart, has the same dimension as markup, unless its
    parentheses nest deeper than the limit. -/
theorem parse_asMarkup (declared : Markup.Variables) (limit : Markup.Limit) (text : List Char) (d : Dimension)
    (hdecl : DeclaresLetters declared) (hc : ∀ c ∈ text, InCommon c) (ha : LettersApart text)
    (hn : nesting text ≤ limit.levels) (hd : parse text = .ok d) : Markup.parse ⟨declared, limit⟩ text = .ok d := by
  obtain ⟨ts, e, hcut, hderives, hv⟩ := parse_eq_ok.mp hd
  rw [normalize_of_inAlphabet fun c hx => (hc c hx).inAlphabet] at hcut
  have hw := hcut.written ha
  have htokens : Markup.tokenize text = ts.map Token.asMarkup := hcut.tokenizeFrom_eq ha
  have hdepth : e.asMarkup.depth ≤ limit.levels := by
    have hnest := hderives.nestingFrom_eq hw 0 []
    rw [List.append_nil, hcut.chars_eq] at hnest
    rw [e.depth_asMarkup]
    rw [nesting, hnest] at hn
    omega
  have hblank : text.all Text.isBlank = false := by
    cases text with
    | nil =>
      have hnil : parse [] = .error ⟨.emptyText, 0⟩ := rfl
      cases hnil.symm.trans hd
    | cons c rest => simp [(hc c List.mem_cons_self).inAlphabet.not_blank]
  rw [Markup.parse_of_not_blank _ hblank, Markup.parseTokens, Markup.complete_expression_eq_ok, htokens]
  refine ⟨?_, e.asMarkup, ?_, hdepth, hderives.value?_asMarkup hdecl hw hv⟩
  · simp only [List.mem_map]
    rintro _ ⟨t, -, rfl⟩
    exact t.asMarkup_not_denied
  · exact .unsigned (.term (hderives.asMarkup hw))

theorem lookup_filter {α : Type} {p : String → Bool} {name : String} (hp : p name = true) (us : List (String × α)) :
    (us.filter fun u => p u.1).lookup name = us.lookup name := by
  induction us with
  | nil => rfl
  | cons u us ih =>
    obtain ⟨key, value⟩ := u
    by_cases hk : name = key
    · subst hk
      simp [hp]
    · cases hpk : p key <;> simp [hpk, List.lookup_cons, beq_false_of_ne hk, ih]

/-- The units of one letter, declared. -/
def letterUnits : Markup.Variables :=
  ⟨table.filter fun u => u.1.length == 1 && u.1.toList.all Char.isAlpha, by decide +kernel⟩

theorem declaresLetters_letterUnits : DeclaresLetters letterUnits := fun c d hc hd =>
  (lookup_filter (p := fun name => name.length == 1 && name.toList.all Char.isAlpha) (by simp [hc]) table).trans hd

/-- A power of a product in parentheses within parentheses, over a unit with a dimension of its own. -/
theorem parse_asMarkup_nested :
    DeclaresLetters letterUnits ∧ (∀ c ∈ "((m/s)^2*K)^2/(N)".toList, InCommon c) ∧
      LettersApart "((m/s)^2*K)^2/(N)".toList ∧
      nesting "((m/s)^2*K)^2/(N)".toList ≤ Markup.Limit.standard.levels ∧
      parse "((m/s)^2*K)^2/(N)".toList = .ok (.ofInts [(.mass, -1), (.length, 3), (.time, -2), (.temperature, 2)]) ∧
      Markup.parse ⟨letterUnits, .standard⟩ "((m/s)^2*K)^2/(N)".toList =
        .ok (.ofInts [(.mass, -1), (.length, 3), (.time, -2), (.temperature, 2)]) := by
  have hall : ("((m/s)^2*K)^2/(N)".toList.all fun c => decide (InCommon c)) = true := by decide +kernel
  have hc : ∀ c ∈ "((m/s)^2*K)^2/(N)".toList, InCommon c := fun c hc =>
    of_decide_eq_true (List.all_eq_true.mp hall c hc)
  have ha : LettersApart "((m/s)^2*K)^2/(N)".toList := by decide +kernel
  have hn : nesting "((m/s)^2*K)^2/(N)".toList ≤ Markup.Limit.standard.levels := by decide +kernel
  have hd : parse "((m/s)^2*K)^2/(N)".toList = .ok (.ofInts [(.mass, -1), (.length, 3), (.time, -2), (.temperature, 2)]) :=
    toOption_eq_some.mp (by decide +kernel)
  exact ⟨declaresLetters_letterUnits, hc, ha, hn, hd, parse_asMarkup _ _ _ _ declaresLetters_letterUnits hc ha hn hd⟩

end UnitCheck.Units
