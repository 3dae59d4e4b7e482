import UnitCheck.Markup.Group

/-! # Matching braces

Two braces match when the tokens between them are balanced: on no prefix have more braces closed than
opened, and in the end as many. `Group.split?` cuts a list at the one brace that matches. -/

namespace UnitCheck.Markup

/-- How many more braces the tokens open than they close. -/
def surplus : List Token → Int
  | [] => 0
  | t :: rest => (if t.opensGroup then 1 else if t.closesGroup then -1 else 0) + surplus rest

/-- With `depth` groups open, the tokens close all of them and none further. -/
structure ClosesAll (depth : Nat) (ts : List Token) : Prop where
  total : depth + surplus ts = 0
  never : ∀ us, us <+: ts → 0 ≤ depth + surplus us

/-- As many braces close as open, and never more. -/
abbrev Balanced (ts : List Token) : Prop := ClosesAll 0 ts

theorem surplus_append (ts us : List Token) : surplus (ts ++ us) = surplus ts + surplus us := by
  induction ts with
  | nil => simp [surplus]
  | cons t ts ih =>
    simp only [List.cons_append, surplus, ih]
    omega

/-- One list behind the other closes the groups of both. -/
theorem ClosesAll.append {m n : Nat} {ts us : List Token} (ht : ClosesAll m ts) (hu : ClosesAll n us) :
    ClosesAll (m + n) (ts ++ us) := by
  have htotal := ht.total
  refine ⟨?_, fun vs hvs => ?_⟩
  · have := hu.total
    rw [surplus_append]
    omega
  · rcases List.prefix_or_prefix_of_prefix hvs (List.prefix_append ts us) with hvs' | ⟨ws, rfl⟩
    · have := ht.never vs hvs'
      omega
    · have := hu.never ws ((List.prefix_append_right_inj ts).mp hvs)
      rw [surplus_append]
      omega

theorem closesAll_nil {depth : Nat} : ClosesAll depth [] ↔ depth = 0 := by
  constructor
  · intro h
    have := h.total
    simp only [surplus] at this
    omega
  · rintro rfl
    exact ⟨rfl, fun us hus => by simp [List.prefix_nil.mp hus, surplus]⟩

theorem closesAll_cons {depth next : Nat} {t : Token} {ts : List Token}
    (h : (depth : Int) + (if t.opensGroup then 1 else if t.closesGroup then -1 else 0) = next) :
    ClosesAll depth (t :: ts) ↔ ClosesAll next ts := by
  have shift : ∀ us, (depth : Int) + surplus (t :: us) = next + surplus us := fun us => by
    rw [surplus]
    omega
  constructor
  · intro hc
    refine ⟨(shift ts).symm.trans hc.total, fun us hus => ?_⟩
    rw [← shift us]
    exact hc.never (t :: us) (List.cons_prefix_cons.mpr ⟨rfl, hus⟩)
  · intro hc
    refine ⟨(shift ts).trans hc.total, fun us hus => ?_⟩
    cases us with
    | nil =>
      rw [surplus]
      omega
    | cons u us =>
      obtain ⟨rfl, htail⟩ := List.cons_prefix_cons.mp hus
      rw [shift us]
      exact hc.never us htail

theorem Token.opensGroup_eq_false {t : Token} (h : t.closesGroup = true) : t.opensGroup = false := by
  simp only [Token.closesGroup, Token.opensGroup, Token.isOperator, Bool.and_eq_true, decide_eq_true_eq] at h ⊢
  simp [h.2]

theorem surplus_open {t : Token} (h : t.opensGroup = true) (ts : List Token) : surplus (t :: ts) = 1 + surplus ts := by
  rw [surplus, if_pos h]

theorem surplus_close {t : Token} (h : t.closesGroup = true) : surplus [t] = -1 := by
  rw [surplus, surplus, Token.opensGroup_eq_false h, h]
  rfl

theorem not_closesAll_zero_cons {t : Token} {ts : List Token} (ht : t.closesGroup = true) :
    ¬ClosesAll 0 (t :: ts) := fun h => by
  have := h.never [t] ⟨ts, rfl⟩
  simp [surplus, Token.opensGroup_eq_false ht, ht] at this

section Split
variable {depth : Nat} {t c : Token} {ts inner rest : List Token}

theorem closesAll_cons_of_close (ht : t.closesGroup = true) : ClosesAll (depth + 1) (t :: ts) ↔ ClosesAll depth ts :=
  closesAll_cons (by simp only [Token.opensGroup_eq_false ht, ht, Bool.false_eq_true, if_false, if_true]; omega)

theorem closesAll_cons_of_ne (ht : t.closesGroup = false) :
    ClosesAll depth (t :: ts) ↔ ClosesAll (if t.opensGroup then depth + 1 else depth) ts :=
  closesAll_cons (by cases ho : t.opensGroup <;> simp [ht])

theorem split?_append (hc : c.closesGroup = true) (h : ClosesAll depth inner) :
    Group.split? depth (inner ++ c :: rest) = some ⟨inner, c, rest⟩ := by
  induction inner generalizing depth with
  | nil =>
    obtain rfl := closesAll_nil.mp h
    simp [Group.split?, hc]
  | cons t inner ih =>
    cases ht : t.closesGroup with
    | true =>
      cases depth with
      | zero => exact absurd h (not_closesAll_zero_cons ht)
      | succ depth =>
        simp only [List.cons_append, Group.split?, ht, if_true, ih ((closesAll_cons_of_close ht).mp h)]
        rfl
    | false =>
      simp only [List.cons_append, Group.split?, ht, Bool.false_eq_true, if_false,
        ih ((closesAll_cons_of_ne ht).mp h)]
      rfl

theorem split?_eq_some {g : Group} (h : Group.split? depth ts = some g) :
    ts = g.inner ++ g.close :: g.rest ∧ g.close.closesGroup = true ∧ ClosesAll depth g.inner := by
  induction ts generalizing depth g with
  | nil => cases h
  | cons t rest ih =>
    cases ht : t.closesGroup with
    | true =>
      simp only [Group.split?, ht, if_true] at h
      cases depth with
      | zero =>
        cases h
        exact ⟨rfl, ht, closesAll_nil.mpr rfl⟩
      | succ depth =>
        obtain ⟨g, hg, rfl⟩ := Option.map_eq_some_iff.mp h
        obtain ⟨hrest, hc, hb⟩ := ih hg
        exact ⟨congrArg (t :: ·) hrest, hc, (closesAll_cons_of_close ht).mpr hb⟩
    | false =>
      simp only [Group.split?, ht, Bool.false_eq_true, if_false] at h
      obtain ⟨g, hg, rfl⟩ := Option.map_eq_some_iff.mp h
      obtain ⟨hrest, hc, hb⟩ := ih hg
      exact ⟨congrArg (t :: ·) hrest, hc, (closesAll_cons_of_ne ht).mpr hb⟩

/-- Tokens are split unless they never close more groups than are open. -/
theorem split?_eq_none : Group.split? depth ts = none ↔ ∀ us, us <+: ts → 0 ≤ depth + surplus us := by
  constructor
  · intro h
    induction ts generalizing depth with
    | nil =>
      intro us hus
      rw [List.prefix_nil.mp hus, surplus]
      omega
    | cons t rest ih =>
      rintro (_ | ⟨u, us⟩) hus
      · rw [surplus]
        omega
      obtain ⟨rfl, htail⟩ := List.cons_prefix_cons.mp hus
      rw [surplus]
      cases hu : u.closesGroup with
      | true =>
        simp only [Group.split?, hu, if_true] at h
        cases depth with
        | zero => cases h
        | succ depth =>
          have := ih (Option.map_eq_none_iff.mp h) us htail
          simp only [Token.opensGroup_eq_false hu, Bool.false_eq_true, if_false, if_true]
          omega
      | false =>
        simp only [Group.split?, hu, Bool.false_eq_true, if_false] at h
        have := ih (Option.map_eq_none_iff.mp h) us htail
        cases ho : u.opensGroup
        all_goals
          simp only [ho, Bool.false_eq_true, if_false, if_true] at this ⊢
          omega
  · intro h
    cases hg : Group.split? depth ts with
    | none => rfl
    | some g =>
      -- The tokens up to the brace at which they are split close one group more.
      obtain ⟨hts, hc, hinner⟩ := split?_eq_some hg
      have hfront : g.inner ++ [g.close] <+: ts := ⟨g.rest, by rw [hts, List.append_assoc, List.singleton_append]⟩
      have hall := hinner.total
      have hmore := h _ hfront
      rw [surplus_append, surplus_close hc] at hmore
      omega

end Split

end UnitCheck.Markup
