import UnitCheck.Markup.Symbols
import UnitCheck.Proofs.Markup.Grammar

/-! # Live tokens

A token is live when it is no part of a subscript for the scan that lists the symbols of a text
(`mentions`). That scan knows nothing of the grammar: it finds subscripts by a count of braces of its own
and never fails. Still the two agree where it matters. Behind a phrase of the grammar the scan goes on
with the token that the readers go on with (`Derives.aligned`), and what is live inside a group is
live in the whole (`live_append_left`), even when a reader fails there. -/

namespace UnitCheck.Markup

/-- The tokens outside subscripts. -/
def live : List Token → List Token
  | [] => []
  | t :: rest => if t.kind = .subscript then live (dropSubscript rest) else t :: live rest
termination_by tokens => tokens.length
decreasing_by
  · exact Nat.lt_succ_of_le (length_dropSubscript_le rest)
  · simp

@[simp] theorem live_nil : live [] = [] := by
  rw [live]

theorem live_cons_of_ne {t : Token} (h : t.kind ≠ .subscript) (rest : List Token) :
    live (t :: rest) = t :: live rest := by
  rw [live, if_neg h]

theorem live_cons_of_subscript {t : Token} (h : t.kind = .subscript) (rest : List Token) :
    live (t :: rest) = live (dropSubscript rest) := by
  rw [live, if_pos h]

theorem mentions_eq (ts : List Token) : mentions ts = ((live ts).filter (·.isSymbol)).map (·.text) := by
  induction ts using mentions.induct with
  | case1 => simp [mentions]
  | case2 t rest ht ih => rw [mentions, if_pos ht, live_cons_of_subscript ht, ih]
  | case3 t rest ht hs ih =>
    rw [mentions, if_neg ht, if_pos hs, live_cons_of_ne ht, List.filter_cons_of_pos hs, List.map_cons, ih]
  | case4 t rest ht hs ih =>
    rw [mentions, if_neg ht, if_neg hs, live_cons_of_ne ht, List.filter_cons_of_neg hs, ih]

theorem Token.not_subscript_of_isOperator {t : Token} {s : String} (h : t.isOperator s = true) :
    t.kind ≠ .subscript := by
  simp [(Token.isOperator_iff.mp h).1]

theorem Token.NamesSymbol.not_subscript {t : Token} (h : t.NamesSymbol) : t.kind ≠ .subscript := by
  rcases h with h | ⟨h, -⟩ <;> simp [h]

theorem Token.NamesSymbol.not_operator {t : Token} (h : t.NamesSymbol) : t.kind ≠ .operator := by
  rcases h with h | ⟨h, -⟩ <;> simp [h]

theorem Token.isSign.not_subscript {t : Token} (h : t.isSign = true) : t.kind ≠ .subscript := by
  rcases Token.isSign_iff.mp h with h | h <;> exact Token.not_subscript_of_isOperator h

/-! ### Part of a list -/

theorem dropGroups_suffix (depth : Nat) (ts : List Token) : dropGroups depth ts <:+ ts := by
  induction ts generalizing depth with
  | nil => cases depth <;> exact List.suffix_rfl
  | cons t ts ih =>
    cases depth with
    | zero => exact List.suffix_rfl
    | succ depth =>
      rw [dropGroups]
      split
      · exact (ih _).trans (List.suffix_cons t ts)
      · split
        · exact (ih _).trans (List.suffix_cons t ts)
        · exact (ih _).trans (List.suffix_cons t ts)

theorem dropSubscript_suffix (ts : List Token) : dropSubscript ts <:+ ts := by
  cases ts with
  | nil => exact List.suffix_rfl
  | cons t ts =>
    rw [dropSubscript]
    split
    · exact (dropGroups_suffix 1 ts).trans (List.suffix_cons t ts)
    · exact List.suffix_cons t ts

theorem live_sublist (ts : List Token) : (live ts).Sublist ts := by
  induction ts using live.induct with
  | case1 => simp
  | case2 t rest ht ih =>
    rw [live_cons_of_subscript ht]
    exact ih.trans ((dropSubscript_suffix rest).sublist.trans (List.sublist_cons_self t rest))
  | case3 t rest ht ih =>
    rw [live_cons_of_ne ht]
    exact ih.cons_cons t

theorem dropGroups_append (depth : Nat) (us rest : List Token) :
    dropGroups depth (us ++ rest) = dropGroups depth us ++ rest ∨ dropGroups depth us = [] := by
  induction us generalizing depth with
  | nil =>
    right
    cases depth <;> rfl
  | cons t us ih =>
    cases depth with
    | zero => exact Or.inl rfl
    | succ depth =>
      simp only [List.cons_append, dropGroups]
      split
      · exact ih _
      · split
        · exact ih _
        · exact ih _

theorem dropSubscript_append (us rest : List Token) :
    dropSubscript (us ++ rest) = dropSubscript us ++ rest ∨ dropSubscript us = [] := by
  cases us with
  | nil => exact Or.inr rfl
  | cons t us =>
    simp only [List.cons_append, dropSubscript]
    split
    · exact dropGroups_append 1 us rest
    · exact Or.inl rfl

/-- A subscript may run out of the front part and take more tokens behind it, but none in front of it. -/
theorem live_append_left (us rest : List Token) : live us <+: live (us ++ rest) := by
  induction us using live.induct with
  | case1 =>
    rw [live_nil]
    exact List.nil_prefix
  | case2 t us ht ih =>
    rw [List.cons_append, live_cons_of_subscript ht, live_cons_of_subscript ht]
    rcases dropSubscript_append us rest with h | h
    · rw [h]
      exact ih
    · rw [h, live_nil]
      exact List.nil_prefix
  | case3 t us ht ih =>
    rw [List.cons_append, live_cons_of_ne ht, live_cons_of_ne ht]
    exact List.cons_prefix_cons.mpr ⟨rfl, ih⟩

/-! ### Phrases -/

/-- The scan that begins at these tokens stops behind them, whatever comes next. -/
def Aligned (ts : List Token) : Prop := ∀ rest, live (ts ++ rest) = live ts ++ live rest

theorem aligned_singleton {t : Token} (h : t.kind ≠ .subscript) : Aligned [t] := fun rest => by
  rw [List.singleton_append, live_cons_of_ne h, live_cons_of_ne h, live_nil, List.singleton_append]

theorem Aligned.append {ts us : List Token} (ht : Aligned ts) (hu : Aligned us) : Aligned (ts ++ us) := fun rest => by
  rw [List.append_assoc, ht, hu, ht, List.append_assoc]

theorem Aligned.cons {t : Token} {ts : List Token} (h : t.kind ≠ .subscript) (ht : Aligned ts) : Aligned (t :: ts) :=
  (aligned_singleton h).append ht

theorem dropGroups_of_closesAll {depth : Nat} {inner rest : List Token} {r : Token} (hr : r.closesGroup = true)
    (h : ClosesAll depth inner) : dropGroups (depth + 1) (inner ++ r :: rest) = rest := by
  induction inner generalizing depth with
  | nil =>
    obtain rfl := closesAll_nil.mp h
    simp [dropGroups, Token.opensGroup_eq_false hr, hr]
  | cons t inner ih =>
    cases ht : t.closesGroup with
    | true =>
      cases depth with
      | zero => exact absurd h (not_closesAll_zero_cons ht)
      | succ depth =>
        simp only [List.cons_append, dropGroups, Token.opensGroup_eq_false ht, ht, Bool.false_eq_true, if_false,
          if_true]
        exact ih ((closesAll_cons_of_close ht).mp h)
    | false =>
      have hc := (closesAll_cons_of_ne ht).mp h
      simp only [List.cons_append, dropGroups, ht, Bool.false_eq_true, if_false]
      split
      · rename_i ho
        rw [if_pos ho] at hc
        exact ih hc
      · rename_i ho
        rw [if_neg ho] at hc
        exact ih hc

/-- The scan ends a subscript where the grammar does, whatever comes next. -/
theorem Subscript.ends {ts : List Token} (h : Subscript ts) :
    ts = [] ∨ ∃ m held, ts = m :: held ∧ m.kind = .subscript ∧ ∀ rest, dropSubscript (held ++ rest) = rest := by
  cases h with
  | none => exact Or.inl rfl
  | @token m t mark plain =>
    refine Or.inr ⟨m, [t], rfl, mark, fun rest => ?_⟩
    simp [dropSubscript, plain]
  | @group m l r ts mark left balanced right =>
    refine Or.inr ⟨m, l :: (ts ++ [r]), rfl, mark, fun rest => ?_⟩
    rw [List.cons_append, List.append_assoc, dropSubscript, if_pos left]
    exact dropGroups_of_closesAll right balanced

theorem Subscript.live_append {ts : List Token} (h : Subscript ts) (rest : List Token) :
    live (ts ++ rest) = live rest := by
  rcases h.ends with rfl | ⟨m, held, rfl, mark, hend⟩
  · rfl
  · rw [List.cons_append, live_cons_of_subscript mark, hend]

theorem Subscript.live_eq {ts : List Token} (h : Subscript ts) : live ts = [] := by
  have hnil := h.live_append []
  rwa [List.append_nil, live_nil] at hnil

theorem Subscript.aligned {ts : List Token} (h : Subscript ts) : Aligned ts := fun rest => by
  rw [h.live_append, h.live_eq, List.nil_append]

theorem Exponent.aligned {ts : List Token} {x : String} (h : Exponent ts x) : Aligned ts := by
  have number {t : Token} (h : t.kind = .number) : t.kind ≠ .subscript := by simp [h]
  cases h with
  | number hx => exact aligned_singleton (number hx)
  | group left hx right =>
    refine .cons (Token.not_subscript_of_isOperator left) (.cons (number hx) ?_)
    exact aligned_singleton (Token.not_subscript_of_isOperator right)
  | signed left sign hx right =>
    refine .cons (Token.not_subscript_of_isOperator left) (.cons (Token.isSign.not_subscript sign) ?_)
    exact .cons (number hx) (aligned_singleton (Token.not_subscript_of_isOperator right))

theorem Derives.aligned {k : Category} {ts : List Token} {e : Tree} (h : Derives k ts e) : Aligned ts := by
  induction h with
  | number kind => exact aligned_singleton (by simp [kind])
  | symbol names subscript => exact .cons names.not_subscript subscript.aligned
  | parens left _ right ih =>
    refine .cons (Token.not_subscript_of_isOperator left) (ih.append ?_)
    exact aligned_singleton (Token.not_subscript_of_isOperator right)
  | fraction kind _ _ _ iha ihb => exact .cons (by simp [kind]) (iha.append ihb)
  | braces left _ _ right ih =>
    refine .cons (Token.not_subscript_of_isOperator left) (ih.append ?_)
    exact aligned_singleton (Token.not_subscript_of_isOperator right)
  | power _ caret exponent ih => exact ih.append (.cons (Token.not_subscript_of_isOperator caret) exponent.aligned)
  | times _ operator _ iha ihb | quotient _ operator _ iha ihb =>
    exact iha.append (.cons (Token.not_subscript_of_isOperator operator) ihb)
  | juxtaposed _ _ iha ihb => exact iha.append ihb
  | sum _ sign _ iha ihb => exact iha.append (.cons (Token.isSign.not_subscript sign) ihb)
  | signed sign _ ih => exact .cons (Token.isSign.not_subscript sign) ih
  | group _ ih | primary _ ih | factor _ ih | term _ ih | unsigned _ ih => exact ih

end UnitCheck.Markup
