import UnitCheck.Dimension.Named
import UnitCheck.Proofs.Markup.Complete
import UnitCheck.Proofs.Markup.Live

/-! # Without subscripts

A subscript is read with its symbol and has no part in the value. So the live tokens of an expression are an
expression with the same value. Its braces match by themselves: the only brace without a partner in an
expression is one that a subscript holds, while the braces of groups and exponents come in pairs. -/

namespace UnitCheck.Markup

/-! ### Phrases without subscripts -/

theorem Token.balanced_of_kind {t : Token} (h : t.kind ≠ .operator) : Balanced [t] := by
  have hc : t.closesGroup = false := Token.isOperator_of_kind h _
  have ho : t.opensGroup = false := Token.isOperator_of_kind h _
  refine (closesAll_cons_of_ne hc).mpr ?_
  rw [ho]
  exact closesAll_nil.mpr rfl

theorem Token.balanced_of_isOperator {t : Token} {s : String} (h : t.isOperator s = true)
    (hl : s ≠ "\x7b" := by decide) (hr : s ≠ "\x7d" := by decide) : Balanced [t] := by
  have hc : t.closesGroup = false := Token.isOperator_ne h hr
  have ho : t.opensGroup = false := Token.isOperator_ne h hl
  refine (closesAll_cons_of_ne hc).mpr ?_
  rw [ho]
  exact closesAll_nil.mpr rfl

theorem Token.balanced_of_isSign {t : Token} (h : t.isSign = true) : Balanced [t] := by
  rcases Token.isSign_iff.mp h with h | h
  · exact Token.balanced_of_isOperator h
  · exact Token.balanced_of_isOperator h

theorem balanced_in_braces {l r : Token} {ts : List Token} (hl : l.opensGroup = true) (h : Balanced ts)
    (hr : r.closesGroup = true) : Balanced (l :: (ts ++ [r])) := by
  have hlast : ClosesAll 1 [r] := (closesAll_cons_of_close hr).mpr (closesAll_nil.mpr rfl)
  have hne : l.closesGroup = false := Token.isOperator_ne hl (by decide)
  refine (closesAll_cons_of_ne hne).mpr ?_
  rw [hl]
  exact h.append hlast

theorem Exponent.balanced {ts : List Token} {x : String} (h : Exponent ts x) : Balanced ts := by
  have number {t : Token} (ht : t.kind = .number) : Balanced [t] := Token.balanced_of_kind (by simp [ht])
  cases h with
  | number hx => exact number hx
  | group left hx right => exact (balanced_in_braces left (number hx) right :)
  | @signed l s x r left sign hx right =>
    have hinner : Balanced [s, x] := (Token.balanced_of_isSign sign).append (number hx)
    exact (balanced_in_braces left hinner right :)

theorem Subscript.eq_nil {ts : List Token} (h : Subscript ts) (hs : ∀ t ∈ ts, t.kind ≠ .subscript) : ts = [] := by
  rcases h.ends with rfl | ⟨m, held, rfl, mark, -⟩
  · rfl
  · exact absurd mark (hs m List.mem_cons_self)

/-- Without subscripts the braces of a phrase match. -/
theorem Derives.balanced {k : Category} {ts : List Token} {e : Tree} (h : Derives k ts e)
    (hs : ∀ t ∈ ts, t.kind ≠ .subscript) : Balanced ts := by
  induction h with
  | number kind => exact Token.balanced_of_kind (by simp [kind])
  | @symbol t ts names subscript =>
    obtain rfl := subscript.eq_nil fun u hu => hs u (List.mem_cons_of_mem t hu)
    exact Token.balanced_of_kind names.not_operator
  | @parens l r ts e left _ right ih =>
    have hl := Token.balanced_of_isOperator left
    have hr := Token.balanced_of_isOperator right
    exact hl.append ((ih fun t ht => hs t (by simp [ht])).append hr)
  | fraction kind _ _ _ iha ihb =>
    have ha := iha fun t ht => hs t (by simp [ht])
    have hb := ihb fun t ht => hs t (by simp [ht])
    exact (Token.balanced_of_kind (by simp [kind])).append (ha.append hb)
  | braces left balanced _ right _ => exact balanced_in_braces left balanced right
  | power _ caret exponent ih =>
    have hc := Token.balanced_of_isOperator caret
    exact (ih fun t ht => hs t (by simp [ht])).append (hc.append exponent.balanced)
  | times _ operator _ iha ihb | quotient _ operator _ iha ihb =>
    have ha := iha fun t ht => hs t (by simp [ht])
    have hb := ihb fun t ht => hs t (by simp [ht])
    exact ha.append ((Token.balanced_of_isOperator operator).append hb)
  | juxtaposed _ _ iha ihb =>
    exact (iha fun t ht => hs t (List.mem_append_left _ ht)).append (ihb fun t ht => hs t (List.mem_append_right _ ht))
  | sum _ sign _ iha ihb =>
    have ha := iha fun t ht => hs t (by simp [ht])
    have hb := ihb fun t ht => hs t (by simp [ht])
    exact ha.append ((Token.balanced_of_isSign sign).append hb)
  | signed sign _ ih => exact (Token.balanced_of_isSign sign).append (ih fun t ht => hs t (List.mem_cons_of_mem _ ht))
  | group _ ih | primary _ ih | factor _ ih | term _ ih | unsigned _ ih => exact ih hs

/-! ### Live tokens of a phrase -/

theorem not_subscript_of_mem_live {ts : List Token} {t : Token} (h : t ∈ live ts) : t.kind ≠ .subscript := by
  induction ts using live.induct with
  | case1 => simp at h
  | case2 u rest hu ih =>
    rw [live_cons_of_subscript hu] at h
    exact ih h
  | case3 u rest hu ih =>
    rw [live_cons_of_ne hu] at h
    rcases List.mem_cons.mp h with rfl | h
    · exact hu
    · exact ih h

theorem live_eq_self {ts : List Token} (h : ∀ t ∈ ts, t.kind ≠ .subscript) : live ts = ts := by
  induction ts with
  | nil => exact live_nil
  | cons t ts ih =>
    rw [live_cons_of_ne (h t List.mem_cons_self), ih fun u hu => h u (List.mem_cons_of_mem t hu)]

section Live
variable {ts us : List Token} {o l r : Token}

theorem Aligned.live_join (h : Aligned ts) (ho : o.kind ≠ .subscript) : live (ts ++ o :: us) = live ts ++ o :: live us := by
  rw [h, live_cons_of_ne ho]

theorem Aligned.live_enclosed (h : Aligned ts) (hl : l.kind ≠ .subscript) (hr : r.kind ≠ .subscript) :
    live (l :: (ts ++ [r])) = l :: (live ts ++ [r]) := by
  rw [live_cons_of_ne hl, h.live_join hr, live_nil]

theorem Exponent.live_eq {x : String} (h : Exponent ts x) : live ts = ts := by
  refine live_eq_self ?_
  cases h with
  | number hx => simp [hx]
  | group left hx right =>
    simp [hx, Token.not_subscript_of_isOperator left, Token.not_subscript_of_isOperator right]
  | signed left sign hx right =>
    simp [hx, Token.not_subscript_of_isOperator left, Token.isSign.not_subscript sign,
      Token.not_subscript_of_isOperator right]

end Live

/-- The live tokens of a phrase say what the phrase says. -/
theorem Derives.live {k : Category} {ts : List Token} {e : Tree} (h : Derives k ts e) :
    Derives k (Markup.live ts) e := by
  induction h with
  | @number t kind =>
    rw [live_cons_of_ne (by simp [kind]), live_nil]
    exact .number kind
  | symbol names subscript =>
    rw [live_cons_of_ne names.not_subscript, subscript.live_eq]
    exact .symbol names .none
  | parens left inner right ih =>
    rw [inner.aligned.live_enclosed (Token.not_subscript_of_isOperator left) (Token.not_subscript_of_isOperator right)]
    exact .parens left ih right
  | group _ ih => exact .group ih
  | fraction kind text above _ iha ihb =>
    rw [live_cons_of_ne (by simp [kind]), above.aligned]
    exact .fraction kind text iha ihb
  | braces left _ inner right ih =>
    rw [inner.aligned.live_enclosed (Token.not_subscript_of_isOperator left) (Token.not_subscript_of_isOperator right)]
    exact .braces left (ih.balanced fun _ => not_subscript_of_mem_live) ih right
  | primary _ ih => exact .primary ih
  | power base caret exponent ih =>
    rw [base.aligned.live_join (Token.not_subscript_of_isOperator caret), exponent.live_eq]
    exact .power ih caret exponent
  | factor _ ih => exact .factor ih
  | times left operator _ iha ihb =>
    rw [left.aligned.live_join (Token.not_subscript_of_isOperator operator)]
    exact .times iha operator ihb
  | quotient left operator _ iha ihb =>
    rw [left.aligned.live_join (Token.not_subscript_of_isOperator operator)]
    exact .quotient iha operator ihb
  | juxtaposed left _ iha ihb =>
    rw [left.aligned]
    exact .juxtaposed iha ihb
  | term _ ih => exact .term ih
  | sum first sign _ iha ihb =>
    rw [first.aligned.live_join (Token.isSign.not_subscript sign)]
    exact .sum iha sign ihb
  | unsigned _ ih => exact .unsigned ih
  | signed sign _ ih =>
    rw [live_cons_of_ne (Token.isSign.not_subscript sign)]
    exact .signed sign ih

/-- A list that has a dimension has the same one without its subscripts. -/
theorem parseTokens_live (scope : Scope) (stop stop' : Int) (ts : List Token) (d : Dimension)
    (hd : parseTokens scope stop ts = .ok d) : parseTokens scope stop' (live ts) = .ok d := by
  obtain ⟨hallowed, e, hderives, hle, hv⟩ := complete_expression_eq_ok.mp hd
  have hallowed' : ∀ t ∈ live ts, t.denied? = none := fun t ht => hallowed t ((live_sublist ts).subset ht)
  exact complete_expression_eq_ok.mpr ⟨hallowed', e, hderives.live, hle, hv⟩

/-- Subscripts that hold a closing brace, an operator and a group with a subscript of its own. -/
def oddSubscripts : List Token := tokenize "x_\x7d^2/\x7bt_^ t_\x7bx_\x7bt\x7d\x7d\x7d".toList

theorem parseTokens_oddSubscripts :
    let scope : Scope := ⟨.ofList [("x", .ofBase .length), ("t", .ofBase .time)], .standard⟩
    (live oddSubscripts).map (·.text) = ["x", "^", "2", "/", "\x7b", "t", "t", "\x7d"] ∧
      parseTokens scope 21 oddSubscripts = .ok (.ofInts [(.length, 2), (.time, -2)]) ∧
      parseTokens scope 21 (live oddSubscripts) = .ok (.ofInts [(.length, 2), (.time, -2)]) := by
  intro scope
  have htexts : (live oddSubscripts).map (·.text) = ["x", "^", "2", "/", "\x7b", "t", "t", "\x7d"] := by decide +kernel
  have hd : parseTokens scope 21 oddSubscripts = .ok (.ofInts [(.length, 2), (.time, -2)]) :=
    toOption_eq_some.mp (by decide +kernel)
  exact ⟨htexts, hd, parseTokens_live scope 21 21 _ _ hd⟩

end UnitCheck.Markup
