import UnitCheck.Proofs.Markup.Sound

/-! # What readers find

Every phrase that has a value is read, when it nests no deeper than there are levels left and the tokens
behind it do not continue it. What continues a phrase depends on its category: a subscript continues a
symbol, `^` a factor, and a factor or an operator a product. A phrase on the left of an operator leaves
its reader in the loop over what follows, so for products and sums the statement is about that loop
(`moreFactors`, `moreTerms`). -/

namespace UnitCheck.Markup

/-- The reader for what is inside a group of `n` levels. -/
def below (scope : Scope) : Nat → Option Reader
  | 0 => none
  | n + 1 => some (expression scope n)

theorem expression_eq (scope : Scope) (n : Nat) : expression scope n = sum scope (below scope n) := by
  cases n <;> rfl

theorem below_sound (scope : Scope) (n : Nat) : SoundBelow scope.declared n (below scope n) := by
  intro read hr
  cases n with
  | zero => cases hr
  | succ n =>
    cases hr
    exact ⟨n, rfl, expression_sound scope n⟩

/-! ### Loops with rounds enough -/

section Loops
variable {scope : Scope} {n : Nat} {stop : Int} {tokens rest : List Token} {a b c d : Dimension}

/-- The loop over factors behind a dimension. -/
def moreFactors (scope : Scope) (n : Nat) (stop : Int) (d : Dimension) (tokens : List Token) : Reading :=
  factors scope (below scope n) stop tokens.length d tokens

/-- The loop over terms behind a dimension. -/
def moreTerms (scope : Scope) (n : Nat) (stop : Int) (d : Dimension) (tokens : List Token) : Reading :=
  terms scope (below scope n) stop tokens.length d tokens

theorem Reads.length_lt {declared : Variables} {k : Category} (h : Reads declared n k tokens d rest) :
    rest.length < tokens.length := by
  obtain ⟨ts, e, rfl, hd, -, -⟩ := h
  have := hd.length_pos
  rw [List.length_append]
  omega

theorem length_lt_of_factor (h : factor scope (below scope n) stop tokens = .ok (d, rest)) :
    rest.length < tokens.length :=
  (factor_reads (below_sound scope n) h).length_lt

theorem length_lt_of_term (h : term scope (below scope n) stop tokens = .ok (d, rest)) :
    rest.length < tokens.length :=
  (term_reads (below_sound scope n) h).length_lt

theorem round_congr {start : Int} {op : Dimension → Dimension → Except Overflow Dimension}
    {k k' : Dimension → List Token → Reading} (h : ∀ c rest, rest.length < tokens.length → k c rest = k' c rest) :
    (do let (b, behind) ← factor scope (below scope n) stop tokens
        let (c, behind) ← combined start (op d b) behind
        k c behind) =
    (do let (b, behind) ← factor scope (below scope n) stop tokens
        let (c, behind) ← combined start (op d b) behind
        k' c behind) := by
  refine bind_congr_ok fun r hf => bind_congr_ok fun s hc => ?_
  obtain ⟨b, behind⟩ := r
  obtain ⟨c, rest⟩ := s
  obtain ⟨-, rfl⟩ := combined_eq_ok.mp hc
  exact h c behind (length_lt_of_factor hf)

/-- A factor takes a token at least, so rounds beyond the number of tokens change nothing. -/
theorem factors_of_le {i j : Nat} (hi : tokens.length ≤ i) (hj : tokens.length ≤ j) :
    factors scope (below scope n) stop i d tokens = factors scope (below scope n) stop j d tokens := by
  induction i generalizing j d tokens with
  | zero =>
    obtain rfl := List.length_eq_zero_iff.mp (Nat.le_zero.mp hi)
    cases j <;> rfl
  | succ i ih =>
    cases tokens with
    | nil => cases j <;> rfl
    | cons t tail =>
      obtain ⟨j, rfl⟩ := Nat.exists_eq_succ_of_ne_zero (Nat.ne_zero_of_lt hj)
      simp only [List.length_cons] at hi hj
      simp only [factors]
      split
      · exact round_congr fun c rest hlt => ih (by omega) (by omega)
      · split
        · exact round_congr fun c rest hlt => ih (by omega) (by omega)
        · split
          · refine round_congr fun c rest hlt => ?_
            rw [List.length_cons] at hlt
            exact ih (by omega) (by omega)
          · rfl

theorem terms_of_le {i j : Nat} (hi : tokens.length ≤ i) (hj : tokens.length ≤ j) :
    terms scope (below scope n) stop i d tokens = terms scope (below scope n) stop j d tokens := by
  induction i generalizing j d tokens with
  | zero =>
    obtain rfl := List.length_eq_zero_iff.mp (Nat.le_zero.mp hi)
    cases j <;> rfl
  | succ i ih =>
    cases tokens with
    | nil => cases j <;> rfl
    | cons t tail =>
      obtain ⟨j, rfl⟩ := Nat.exists_eq_succ_of_ne_zero (Nat.ne_zero_of_lt hj)
      simp only [terms]
      split
      · refine bind_congr_ok fun r ht => ?_
        obtain ⟨b, behind⟩ := r
        have hlt := length_lt_of_term ht
        simp only [List.length_cons] at hi hj
        dsimp only
        split
        · exact ih (by omega) (by omega)
        · rfl
      · rfl

theorem moreFactors_times {o : Token} (ho : o.isOperator "*" = true)
    (hf : factor scope (below scope n) stop tokens = .ok (b, rest)) (hc : a.mul b = .ok c) :
    moreFactors scope n stop a (o :: tokens) = moreFactors scope n stop c rest := by
  simp only [moreFactors, List.length_cons, factors, ho, if_true, hf, hc, combined, ok_bind]
  exact factors_of_le (Nat.le_of_lt (length_lt_of_factor hf)) (Nat.le_refl _)

theorem moreFactors_quotient {o : Token} (ho : o.isOperator "/" = true)
    (hf : factor scope (below scope n) stop tokens = .ok (b, rest)) (hc : a.div b = .ok c) :
    moreFactors scope n stop a (o :: tokens) = moreFactors scope n stop c rest := by
  have hne : o.isOperator "*" = false := Token.isOperator_ne ho (by decide)
  simp only [moreFactors, List.length_cons, factors, ho, hne, Bool.false_eq_true, if_true, if_false, hf, hc, combined,
    ok_bind]
  exact factors_of_le (Nat.le_of_lt (length_lt_of_factor hf)) (Nat.le_refl _)

theorem Token.startsFactor_eq_true {t : Token} (h : t.startsFactor = true) :
    ∀ s, s ≠ "(" → s ≠ "\x7b" → t.isOperator s = false := by
  intro s hp hb
  unfold Token.startsFactor at h
  split at h
  · simp only [Token.opensGroup, Token.isOperator, Bool.or_eq_true, Bool.and_eq_true, decide_eq_true_eq] at h ⊢
    rcases h with h | ⟨-, h⟩
    · simp [h, hp.symm]
    · simp [h, hb.symm]
  · cases h
  · rename_i hk _
    have hne : t.kind ≠ .operator := hk
    simp [Token.isOperator, hne]

theorem moreFactors_juxtaposed {t : Token} {tail : List Token} (ht : t.startsFactor = true)
    (hf : factor scope (below scope n) stop (t :: tail) = .ok (b, rest)) (hc : a.mul b = .ok c) :
    moreFactors scope n stop a (t :: tail) = moreFactors scope n stop c rest := by
  have htimes := Token.startsFactor_eq_true ht "*" (by decide) (by decide)
  have hover := Token.startsFactor_eq_true ht "/" (by decide) (by decide)
  simp only [moreFactors, List.length_cons, factors, htimes, hover, ht, Bool.false_eq_true, if_true, if_false, hf, hc,
    combined, ok_bind]
  have := length_lt_of_factor hf
  exact factors_of_le (by simpa using Nat.le_of_lt_succ this) (Nat.le_refl _)

theorem moreTerms_sign {s : Token} (hs : s.isSign = true)
    (ht : term scope (below scope n) stop tokens = .ok (b, rest)) (hab : a.near b = true) :
    moreTerms scope n stop a (s :: tokens) = moreTerms scope n stop a rest := by
  simp only [moreTerms, List.length_cons, terms, hs, if_true, ht, hab, ok_bind]
  exact terms_of_le (Nat.le_of_lt (length_lt_of_term ht)) (Nat.le_refl _)

end Loops

/-! ### What does not continue a phrase -/

/-- Nothing that continues a symbol. -/
def EndsSymbol (rest : List Token) : Prop := ∀ t ∈ rest.head?, t.kind ≠ .subscript

/-- Nothing that continues a factor. -/
def EndsFactor (rest : List Token) : Prop := ∀ t ∈ rest.head?, t.kind ≠ .subscript ∧ t.isOperator "^" = false

/-- What ends a product: a sign, a closing parenthesis or nothing. -/
def EndsTerm (rest : List Token) : Prop := ∀ t ∈ rest.head?, t.isSign = true ∨ t.isOperator ")" = true

/-- What ends a sum: a closing parenthesis or nothing. -/
def EndsSum (rest : List Token) : Prop := ∀ t ∈ rest.head?, t.isOperator ")" = true

theorem endsFactor_of_operator {t : Token} {rest : List Token} {s : String} (ht : t.isOperator s = true)
    (hs : s ≠ "^") : EndsFactor (t :: rest) := fun u hu => by
  cases hu
  exact ⟨by simp [(Token.isOperator_iff.mp ht).1], Token.isOperator_ne ht hs⟩

theorem endsFactor_of_startsFactor {t : Token} {rest : List Token} (ht : t.startsFactor = true) :
    EndsFactor (t :: rest) := fun u hu => by
  cases hu
  refine ⟨fun hk => ?_, Token.startsFactor_eq_true ht "^" (by decide) (by decide)⟩
  simp [Token.startsFactor, hk] at ht

theorem EndsTerm.endsFactor {rest : List Token} (h : EndsTerm rest) : EndsFactor rest := by
  cases rest with
  | nil => exact fun _ hu => by cases hu
  | cons t tail =>
    rcases h t rfl with ht | ht
    · rcases Token.isSign_iff.mp ht with ht | ht
      · exact endsFactor_of_operator ht (by decide)
      · exact endsFactor_of_operator ht (by decide)
    · exact endsFactor_of_operator ht (by decide)

theorem EndsSum.endsTerm {rest : List Token} (h : EndsSum rest) : EndsTerm rest := fun t ht => Or.inr (h t ht)

section Ends
variable {scope : Scope} {n : Nat} {stop : Int} {tokens rest : List Token} {a b c d : Dimension}

theorem moreFactors_of_endsTerm (h : EndsTerm rest) : moreFactors scope n stop d rest = .ok (d, rest) := by
  cases rest with
  | nil => rfl
  | cons t tail =>
    obtain ⟨hk, htext⟩ : t.kind = .operator ∧ (t.text = "+" ∨ t.text = "-" ∨ t.text = ")") := by
      rcases h t rfl with ht | ht
      · rcases Token.isSign_iff.mp ht with ht | ht
        · exact ⟨(Token.isOperator_iff.mp ht).1, Or.inl (Token.isOperator_iff.mp ht).2⟩
        · exact ⟨(Token.isOperator_iff.mp ht).1, Or.inr (Or.inl (Token.isOperator_iff.mp ht).2)⟩
      · exact ⟨(Token.isOperator_iff.mp ht).1, Or.inr (Or.inr (Token.isOperator_iff.mp ht).2)⟩
    rcases htext with htext | htext | htext <;>
      simp [moreFactors, factors, Token.isOperator, Token.startsFactor, Token.opensGroup, hk, htext]

theorem moreTerms_of_endsSum (h : EndsSum rest) : moreTerms scope n stop d rest = .ok (d, rest) := by
  cases rest with
  | nil => rfl
  | cons t tail =>
    obtain ⟨hk, htext⟩ := Token.isOperator_iff.mp (h t rfl)
    simp [moreTerms, terms, Token.isSign, Token.isOperator, htext]

theorem skipSubscript_append {sub : List Token} (hs : Subscript sub) (hr : EndsSymbol rest) :
    skipSubscript (sub ++ rest) = .ok rest := by
  cases hs with
  | none =>
    cases rest with
    | nil => rfl
    | cons t tail => simp [skipSubscript, hr t rfl]
  | token mark plain => simp [skipSubscript, mark, plain]
  | group mark left balanced right => simp [skipSubscript, mark, left, split?_append right balanced]

theorem exponent_append {start : Int} {us : List Token} {text : String} {x : Binary64} (hu : Exponent us text)
    (hx : Binary64.read? text.toList = some x) : exponent start (us ++ rest) = .ok (x, rest) := by
  have opens_kind : ∀ {l : Token}, l.opensGroup = true → l.kind ≠ .number := fun hl => by
    simp [(Token.isOperator_iff.mp hl).1]
  have ordinary : ∀ {x : Token}, x.kind = .number → x.opensGroup = false ∧ x.closesGroup = false := fun hx =>
    ⟨Token.isOperator_of_kind (by simp [hx]) _, Token.isOperator_of_kind (by simp [hx]) _⟩
  cases hu with
  | number number => simp [exponent, number, exponentNumber_eq_ok.mpr hx, Except.map]
  | @group l z r left number right =>
    obtain ⟨ho, hc⟩ := ordinary number
    have hsplit : Group.split? 0 ([z] ++ r :: rest) = some ⟨[z], r, rest⟩ :=
      split?_append right ((closesAll_cons_of_ne hc).mpr (by simp [ho, closesAll_nil]))
    simp only [List.singleton_append] at hsplit
    simp [exponent, opens_kind left, left, hsplit, isSignedNumber, number, exponentNumber_eq_ok.mpr hx, Except.map]
  | @signed l s z r left sign number right =>
    obtain ⟨ho, hc⟩ := ordinary number
    obtain ⟨hso, hsc⟩ : s.opensGroup = false ∧ s.closesGroup = false := by
      rcases Token.isSign_iff.mp sign with hs | hs
      · exact ⟨Token.isOperator_ne hs (by decide), Token.isOperator_ne hs (by decide)⟩
      · exact ⟨Token.isOperator_ne hs (by decide), Token.isOperator_ne hs (by decide)⟩
    have hsplit : Group.split? 0 ([s, z] ++ r :: rest) = some ⟨[s, z], r, rest⟩ := by
      refine split?_append right ((closesAll_cons_of_ne hsc).mpr ?_)
      simp only [hso, Bool.false_eq_true, if_false]
      exact (closesAll_cons_of_ne hc).mpr (by simp [ho, closesAll_nil])
    simp only [List.cons_append, List.nil_append] at hsplit
    have hsign : (s.isOperator "+" || s.isOperator "-") = true := sign
    simp [exponent, opens_kind left, left, hsplit, isSignedNumber, hsign, number, exponentNumber_eq_ok.mpr hx,
      Except.map]

theorem factor_of_endsFactor (hr : EndsFactor rest) (hp : primary scope (below scope n) stop tokens = .ok (d, rest)) :
    factor scope (below scope n) stop tokens = .ok (d, rest) := by
  simp only [factor, hp, ok_bind]
  cases rest with
  | nil => rfl
  | cons t tail => simp [(hr t rfl).2]

theorem factor_of_power {t : Token} {us : List Token} {text : String} (ht : t.isOperator "^" = true)
    (hu : Exponent us text) (hd : a.raised? text = some d)
    (hp : primary scope (below scope n) stop tokens = .ok (a, t :: (us ++ rest))) :
    factor scope (below scope n) stop tokens = .ok (d, rest) := by
  obtain ⟨x, hread, hpow⟩ := Dimension.raised?_eq_some.mp hd
  simp only [factor, hp, ok_bind, ht, if_true, exponent_append hu hread, hpow]

end Ends

/-! ### Phrases -/

/-- What the reader of a category does with a phrase of value `d` and the tokens behind it. -/
def Completes (scope : Scope) (n : Nat) (stop : Int) (ts : List Token) (d : Dimension) (rest : List Token) :
    Category → Prop
  | .group => ∀ start, operand scope.limit (below scope n) start (ts ++ rest) = .ok (d, rest)
  | .primary => EndsSymbol rest → primary scope (below scope n) stop (ts ++ rest) = .ok (d, rest)
  | .factor => EndsFactor rest → factor scope (below scope n) stop (ts ++ rest) = .ok (d, rest)
  | .term => EndsFactor rest → term scope (below scope n) stop (ts ++ rest) = moreFactors scope n stop d rest
  | .sum | .expression => EndsTerm rest → expression scope n stop (ts ++ rest) = moreTerms scope n stop d rest

theorem dropSign_of_derives {k : Category} {ts : List Token} {e : Tree} (h : Derives k ts e) (hk : k ≠ .expression)
    (rest : List Token) : dropSign (ts ++ rest) = ts ++ rest := by
  obtain ⟨t, tail, rfl, ht | ⟨hk', -⟩⟩ := h.head
  · have hplus := Token.startsFactor_eq_true ht "+" (by decide) (by decide)
    have hminus := Token.startsFactor_eq_true ht "-" (by decide) (by decide)
    simp [dropSign, Token.isSign, hplus, hminus]
  · exact absurd hk' hk

theorem primary_of_operand {scope : Scope} {inner : Option Reader} {stop : Int} {t : Token} {tail : List Token}
    (ht : t.opensGroup = true) :
    primary scope inner stop (t :: tail) = operand scope.limit inner stop (t :: tail) := by
  obtain ⟨hk, htext⟩ := Token.isOperator_iff.mp ht
  simp [primary, operand, hk, htext, ht]

theorem Derives.group_head {ts : List Token} {e : Tree} (h : Derives .group ts e) :
    ∃ t tail, ts = t :: tail ∧ t.opensGroup = true := by
  cases h with
  | braces left _ _ _ => exact ⟨_, _, rfl, left⟩

/-- A phrase is read with its value, when it has one, nests within the levels and has nothing denied in it. -/
def Found (scope : Scope) (k : Category) (ts : List Token) (e : Tree) : Prop :=
  ∀ (n : Nat) (stop : Int) (d : Dimension) (rest : List Token), e.depth ≤ n → e.value? scope.declared = some d →
    (∀ t ∈ ts, t.denied? = none) → Completes scope n stop ts d rest k

namespace Found
variable {scope : Scope} {ts us : List Token} {a b e : Tree}

theorem number {t : Token} (kind : t.kind = .number) : Found scope .primary [t] .number := by
  intro n stop d rest _ hv _ _
  cases hv
  simp [primary, kind]

theorem symbol {t : Token} (names : t.NamesSymbol) (subscript : Subscript ts) :
    Found scope .primary (t :: ts) (.symbol t.text) := by
  intro n stop d rest _ hv _ hr
  have hskip := skipSubscript_append subscript hr
  have hsymbol := symbol_eq_ok.mpr hv
  rcases names with hk | ⟨hk, htext⟩
  · simp [primary, hk, hskip, hsymbol]
  · simp [primary, hk, htext, hskip, hsymbol]

theorem parens {l r : Token} (left : l.isOperator "(" = true) (inner : Found scope .expression ts e)
    (right : r.isOperator ")" = true) : Found scope .primary (l :: (ts ++ [r])) (.group e) := by
  intro n stop d rest hn hv hd _
  obtain ⟨m, rfl⟩ : ∃ m, n = m + 1 := Nat.exists_eq_add_one.mpr (Nat.lt_of_lt_of_le (Nat.succ_pos _) hn)
  have hclose : EndsSum (r :: rest) := fun t ht => by
    cases ht
    exact right
  have hread := inner m stop d (r :: rest) (Nat.le_of_succ_le_succ hn) hv (fun t ht => hd t (by simp [ht]))
    hclose.endsTerm
  rw [moreTerms_of_endsSum hclose] at hread
  obtain ⟨hk, htext⟩ := Token.isOperator_iff.mp left
  simp [primary, below, hk, htext, hread, right]

theorem group (only : Found scope .group ts e) (hts : Derives .group ts e) : Found scope .primary ts e := by
  intro n stop d rest hn hv hd _
  obtain ⟨t, tail, rfl, ht⟩ := hts.group_head
  rw [List.cons_append, primary_of_operand ht]
  exact only n stop d rest hn hv hd stop

theorem fraction {f : Token} (kind : f.kind = .command) (text : f.text = "\\frac") (above : Found scope .group ts a)
    (below : Found scope .group us b) : Found scope .primary (f :: (ts ++ us)) (.fraction a b) := by
  intro n stop d rest hn hv hd _
  obtain ⟨x, hx, hv⟩ := Option.bind_eq_some_iff.mp hv
  obtain ⟨y, hy, hdiv⟩ := Option.bind_eq_some_iff.mp hv
  obtain ⟨hna, hnb⟩ := Nat.max_le.mp hn
  have habove := above n stop x (us ++ rest) hna hx (fun t ht => hd t (by simp [ht])) f.start
  have hbelow := below n stop y rest hnb hy (fun t ht => hd t (by simp [ht])) f.start
  simp [primary, kind, text, habove, hbelow, combined, Dimension.div?_eq_some.mp hdiv]

theorem braces {l r : Token} (left : l.opensGroup = true) (balanced : Balanced ts) (nonempty : 0 < ts.length)
    (inner : Found scope .expression ts e) (right : r.closesGroup = true) :
    Found scope .group (l :: (ts ++ [r])) (.group e) := by
  intro n stop d rest hn hv hd start
  obtain ⟨m, rfl⟩ : ∃ m, n = m + 1 := Nat.exists_eq_add_one.mpr (Nat.lt_of_lt_of_le (Nat.succ_pos _) hn)
  have hdenied : ∀ t ∈ ts, t.denied? = none := fun t ht => hd t (by simp [ht])
  have hread := inner m r.start d [] (Nat.le_of_succ_le_succ hn) hv hdenied fun _ hu => by cases hu
  rw [List.append_nil] at hread
  have hcomplete : complete (expression scope m) r.start ts = .ok d :=
    complete_eq_ok.mpr ⟨List.ne_nil_of_length_pos nonempty, hdenied, hread⟩
  simp [operand, left, Markup.group, below, split?_append right balanced, hcomplete, Except.map]

theorem primary (only : Found scope .primary ts e) : Found scope .factor ts e := fun n stop d rest hn hv hd hr =>
  factor_of_endsFactor hr (only n stop d rest hn hv hd fun t ht => (hr t ht).1)

theorem power {c : Token} {x : String} (base : Found scope .primary ts e) (caret : c.isOperator "^" = true)
    (exponent : Exponent us x) : Found scope .factor (ts ++ c :: us) (.power e x) := by
  intro n stop d rest hn hv hd _
  obtain ⟨y, hy, hraised⟩ := Option.bind_eq_some_iff.mp hv
  have hends : EndsSymbol (c :: (us ++ rest)) := fun t ht => by
    cases ht
    simp [(Token.isOperator_iff.mp caret).1]
  have hbase := base n stop y (c :: (us ++ rest)) hn hy (fun t ht => hd t (by simp [ht])) hends
  rw [List.append_assoc]
  exact factor_of_power caret exponent hraised hbase

theorem factor (only : Found scope .factor ts e) : Found scope .term ts e := by
  intro n stop d rest hn hv hd hr
  simp only [term, only n stop d rest hn hv hd hr, ok_bind]
  rfl

theorem times {o : Token} (left : Found scope .term ts a) (operator : o.isOperator "*" = true)
    (right : Found scope .factor us b) : Found scope .term (ts ++ o :: us) (.times a b) := by
  intro n stop d rest hn hv hd hr
  obtain ⟨x, hx, hv⟩ := Option.bind_eq_some_iff.mp hv
  obtain ⟨y, hy, hmul⟩ := Option.bind_eq_some_iff.mp hv
  obtain ⟨hna, hnb⟩ := Nat.max_le.mp hn
  have ha := left n stop x (o :: (us ++ rest)) hna hx (fun t ht => hd t (by simp [ht]))
    (endsFactor_of_operator operator (by decide))
  have hb := right n stop y rest hnb hy (fun t ht => hd t (by simp [ht])) hr
  rw [List.append_assoc, List.cons_append, ha]
  exact moreFactors_times operator hb (Dimension.mul?_eq_some.mp hmul)

theorem quotient {o : Token} (left : Found scope .term ts a) (operator : o.isOperator "/" = true)
    (right : Found scope .factor us b) : Found scope .term (ts ++ o :: us) (.quotient a b) := by
  intro n stop d rest hn hv hd hr
  obtain ⟨x, hx, hv⟩ := Option.bind_eq_some_iff.mp hv
  obtain ⟨y, hy, hdiv⟩ := Option.bind_eq_some_iff.mp hv
  obtain ⟨hna, hnb⟩ := Nat.max_le.mp hn
  have ha := left n stop x (o :: (us ++ rest)) hna hx (fun t ht => hd t (by simp [ht]))
    (endsFactor_of_operator operator (by decide))
  have hb := right n stop y rest hnb hy (fun t ht => hd t (by simp [ht])) hr
  rw [List.append_assoc, List.cons_append, ha]
  exact moreFactors_quotient operator hb (Dimension.div?_eq_some.mp hdiv)

theorem juxtaposed {t : Token} (left : Found scope .term ts a) (starts : t.startsFactor = true)
    (right : Found scope .factor (t :: us) b) : Found scope .term (ts ++ t :: us) (.times a b) := by
  intro n stop d rest hn hv hd hr
  obtain ⟨x, hx, hv⟩ := Option.bind_eq_some_iff.mp hv
  obtain ⟨y, hy, hmul⟩ := Option.bind_eq_some_iff.mp hv
  obtain ⟨hna, hnb⟩ := Nat.max_le.mp hn
  have ha := left n stop x (t :: (us ++ rest)) hna hx (fun t ht => hd t (by simp [ht]))
    (endsFactor_of_startsFactor starts)
  have hb := right n stop y rest hnb hy (fun u hu => hd u (List.mem_append_right _ hu)) hr
  rw [List.append_assoc, List.cons_append, ha]
  exact moreFactors_juxtaposed starts hb (Dimension.mul?_eq_some.mp hmul)

theorem term (only : Found scope .term ts e) (hts : Derives .term ts e) : Found scope .sum ts e := by
  intro n stop d rest hn hv hd hr
  have ht := only n stop d rest hn hv hd hr.endsFactor
  rw [moreFactors_of_endsTerm hr] at ht
  have hsign : dropSign (ts ++ rest) = ts ++ rest := dropSign_of_derives hts (by simp) rest
  rw [expression_eq]
  simp only [Markup.sum, hsign, ht, ok_bind]
  rfl

theorem sum {s : Token} (first : Found scope .sum ts a) (sign : s.isSign = true) (other : Found scope .term us b) :
    Found scope .sum (ts ++ s :: us) (.sum a b) := by
  intro n stop d rest hn hv hd hr
  obtain ⟨x, hx, hv⟩ := Option.bind_eq_some_iff.mp hv
  obtain ⟨y, hy, hv⟩ := Option.bind_eq_some_iff.mp hv
  obtain ⟨hna, hnb⟩ := Nat.max_le.mp hn
  obtain ⟨hxy, rfl⟩ : x.near y = true ∧ x = d := by
    split at hv
    · rename_i hxy
      exact ⟨hxy, Option.some.inj hv⟩
    · cases hv
  have hsign : EndsTerm (s :: (us ++ rest)) := fun t ht => by
    cases ht
    exact Or.inl sign
  have ha := first n stop x (s :: (us ++ rest)) hna hx (fun t ht => hd t (by simp [ht])) hsign
  have hb := other n stop y rest hnb hy (fun t ht => hd t (by simp [ht])) hr.endsFactor
  rw [moreFactors_of_endsTerm hr] at hb
  rw [List.append_assoc, List.cons_append, ha]
  exact moreTerms_sign sign hb hxy

theorem signed {s : Token} (sign : s.isSign = true) (only : Found scope .sum ts e) (hts : Derives .sum ts e) :
    Found scope .expression (s :: ts) e := by
  intro n stop d rest hn hv hd hr
  have hs := only n stop d rest hn hv (fun t ht => hd t (List.mem_cons_of_mem _ ht)) hr
  have hsign : dropSign (ts ++ rest) = ts ++ rest := dropSign_of_derives hts (by simp) rest
  rw [expression_eq] at hs ⊢
  simp only [Markup.sum, hsign] at hs
  simp only [Markup.sum, List.cons_append, dropSign, sign, if_true]
  exact hs

end Found

theorem Derives.found {scope : Scope} {k : Category} {ts : List Token} {e : Tree} (h : Derives k ts e) :
    Found scope k ts e := by
  induction h with
  | number kind => exact .number kind
  | symbol names subscript => exact .symbol names subscript
  | parens left _ right ih => exact .parens left ih right
  | group only ih => exact .group ih only
  | fraction kind text _ _ iha ihb => exact .fraction kind text iha ihb
  | braces left balanced inner right ih => exact .braces left balanced inner.length_pos ih right
  | primary _ ih => exact .primary ih
  | power _ caret exponent ih => exact .power ih caret exponent
  | factor _ ih => exact .factor ih
  | times _ operator _ iha ihb => exact .times iha operator ihb
  | quotient _ operator _ iha ihb => exact .quotient iha operator ihb
  | juxtaposed _ right iha ihb =>
    obtain ⟨t, tail, rfl, ht | ⟨hk, -⟩⟩ := right.head
    · exact .juxtaposed iha ht ihb
    · cases hk
  | term only ih => exact .term ih only
  | sum _ sign _ iha ihb => exact .sum iha sign ihb
  | unsigned _ ih => exact ih
  | signed sign only ih => exact .signed sign ih only

/-- A list of tokens has a dimension exactly when all of it is an expression of that value and nothing in it is
    denied. -/
theorem complete_expression_eq_ok {scope : Scope} {n : Nat} {stop : Int} {ts : List Token} {d : Dimension} :
    complete (expression scope n) stop ts = .ok d ↔
      (∀ t ∈ ts, t.denied? = none) ∧
        ∃ e, Derives .expression ts e ∧ e.depth ≤ n ∧ e.value? scope.declared = some d := by
  rw [complete_eq_ok]
  constructor
  · rintro ⟨-, hdenied, hread⟩
    obtain ⟨us, e, hus, hd, hle, hv⟩ := expression_sound scope n _ _ _ _ hread
    rw [List.append_nil] at hus
    exact ⟨hdenied, e, hus ▸ hd, hle, hv⟩
  · rintro ⟨hdenied, e, hd, hle, hv⟩
    have hread := hd.found n stop d [] hle hv hdenied fun _ hu => by cases hu
    rw [List.append_nil] at hread
    exact ⟨List.ne_nil_of_length_pos hd.length_pos, hdenied, hread⟩

/-! ### Denied commands -/

theorem Token.denied?_eq_none {t : Token} :
    t.denied? = none ↔ (t.kind = .command → ∀ name ∈ deniedCommands, ¬name.toList <+: t.text.toList) := by
  unfold Token.denied? deniedAtStart?
  split
  · rename_i hk
    simp [hk, List.find?_eq_none]
  · rename_i hk
    simp [hk]

theorem Token.denied?_of_isOperator {t : Token} {s : String} (h : t.isOperator s = true) : t.denied? = none := by
  simp [Token.denied?, (Token.isOperator_iff.mp h).1]

theorem depth_le_clamp {levels : Int} {n : Nat} :
    n ≤ (Limit.clamp levels).levels ↔ (n : Int) ≤ min (max 1 levels) 100 := by
  simp only [Limit.clamp]
  omega

/-- Tokens have a dimension exactly when none of them is denied and they are an expression of the grammar with
    that value, whose groups nest within the limit and whose symbols are declared. -/
theorem parseTokens_eq_ok_iff (declared : Variables) (levels stop : Int) (ts : List Token) (d : Dimension) :
    parseTokens ⟨declared, .clamp levels⟩ stop ts = .ok d ↔
      (∀ t ∈ ts, t.kind = .command → ∀ name ∈ deniedCommands, ¬name.toList <+: t.text.toList) ∧
        ∃ e, Derives .expression ts e ∧ (e.depth : Int) ≤ min (max 1 levels) 100 ∧
          (∀ s ∈ e.symbols, declared.contains s) ∧ e.value? declared = some d := by
  unfold parseTokens
  rw [complete_expression_eq_ok]
  simp only [Token.denied?_eq_none, depth_le_clamp]
  constructor
  · rintro ⟨hdenied, e, hd, hle, hv⟩
    exact ⟨hdenied, e, hd, hle, Tree.find?_isSome_of_value? hv, hv⟩
  · rintro ⟨hdenied, e, hd, hle, -, hv⟩
    exact ⟨hdenied, e, hd, hle, hv⟩

end UnitCheck.Markup
