import UnitCheck.Proofs.Units.Grammar
import UnitCheck.Proofs.Units.Lexical

/-! # Reading unit expressions

The readers find exactly what the grammar derives. Each reader gives the value of a phrase that it took
from the front of the tokens (`Reads`), and it does read every phrase that has a value and whose groups
nest no deeper than its bound, as long as the tokens behind the phrase do not continue it. A phrase on
the left of `*` or `/` leaves its reader in the loop over further factors, so for expressions the second
half is said of that loop (`remaining`). -/

namespace UnitCheck.Units

@[simp] theorem mapError_ofFailure {α : Type} (x : Except (Failure Cause) α) :
    x.mapError (@Reason.ofFailure (Failure Cause) _) = x := by
  cases x <;> rfl

section Sound
variable {ε : Type} [Reason ε] {stop : Nat} {inner : List Token → Except ε Reading} {tokens rest : List Token}
  {d : Dimension}

/-- A phrase with a value stands at the front of the tokens. -/
def Reads (k : Category) (tokens : List Token) (d : Dimension) (rest : List Token) : Prop :=
  ∃ ts e, tokens = ts ++ rest ∧ Derives k ts e ∧ e.value? = some d

/-- A reader of expressions gives values of phrases only. -/
def Sound (read : List Token → Except ε Reading) : Prop :=
  ∀ tokens d rest, read tokens = .ok (d, rest) → Reads .expression tokens d rest

theorem combined_eq_ok {start : Nat} {result : Except Overflow Dimension} {ts : List Token} :
    combined start result ts = (.ok (d, rest) : Except ε Reading) ↔ result = .ok d ∧ ts = rest := by
  cases result <;> simp [combined, refuse]

theorem primary_reads (hi : Sound inner) (h : primary stop inner tokens = .ok (d, rest)) :
    Reads .primary tokens d rest := by
  cases tokens with
  | nil => cases h
  | cons t tail =>
    simp only [primary] at h
    split at h
    · rename_i hk
      obtain ⟨⟨d', tail'⟩, hinner, hclose⟩ := bind_eq_ok.mp h
      obtain ⟨ts, e, rfl, hd, hv⟩ := hi _ _ _ hinner
      dsimp only at hclose
      split at hclose
      · rename_i text start behind
        cases hclose
        have hr : Token.kind ⟨.rightParen, text, start⟩ = .rightParen := rfl
        exact ⟨_, _, by simp, .group hk hd hr, hv⟩
      · cases hclose
    · rename_i hk
      split at h
      · rename_i hf
        cases h
        exact ⟨[t], _, rfl, .unit hk, hf⟩
      · cases h
    · rename_i hk
      split at h
      · rename_i ht
        cases h
        exact ⟨[t], _, rfl, .one hk ht, rfl⟩
      · cases h
    · cases h

theorem raise_eq_ok {e : Dimension} (h : raise stop d tokens = (.ok (e, rest) : Except ε Reading)) :
    ∃ x : Token, tokens = x :: rest ∧ x.kind = .number ∧ d.raised? x.text = some e := by
  unfold raise at h
  split at h
  · rename_i text start behind
    split at h
    · cases h
    · rename_i x hx
      split at h
      · cases h
      · rename_i hp
        cases h
        exact ⟨⟨.number, text, start⟩, rfl, rfl, Dimension.raised?_eq_some.mpr ⟨x, hx, hp⟩⟩
  · cases h

theorem factor_reads (hi : Sound inner) (h : factor stop inner tokens = .ok (d, rest)) :
    Reads .factor tokens d rest := by
  obtain ⟨⟨d', tail⟩, hp, hraise⟩ := bind_eq_ok.mp h
  obtain ⟨ts, e, rfl, hd, hv⟩ := primary_reads hi hp
  dsimp only at hraise
  split at hraise
  · rename_i text start behind
    obtain ⟨x, rfl, hx, hr⟩ := raise_eq_ok hraise
    have hc : Token.kind ⟨.caret, text, start⟩ = .caret := rfl
    refine ⟨_, _, ?_, .power hd hc hx, ?_⟩
    · simp
    · simpa [Tree.value?, hv] using hr
  · cases hraise
    exact ⟨ts, e, rfl, .primary hd, hv⟩

/-- One round of the loop over factors, behind its operator. -/
theorem round_eq_ok {start bound : Nat} {op : Dimension → Dimension → Except Overflow Dimension} {a : Dimension}
    (h : (do let (b, behind) ← factor stop inner tokens
             let (c, behind) ← combined start (op a b) behind
             factors stop inner bound c behind) = .ok (d, rest)) :
    ∃ b c behind, factor stop inner tokens = .ok (b, behind) ∧ op a b = .ok c ∧
      factors stop inner bound c behind = .ok (d, rest) := by
  obtain ⟨⟨b, behind⟩, hf, hrest⟩ := bind_eq_ok.mp h
  obtain ⟨⟨c, behind'⟩, hop, hloop⟩ := bind_eq_ok.mp hrest
  obtain ⟨hc, hb⟩ := combined_eq_ok.mp hop
  exact ⟨b, c, behind, hf, hc, hb ▸ hloop⟩

/-- The loop over factors extends the phrase that its dimension is the value of. -/
theorem factors_reads (hi : Sound inner) {bound : Nat} {ts : List Token} {e : Tree} {a : Dimension}
    (hd : Derives .expression ts e) (hv : e.value? = some a) (h : factors stop inner bound a tokens = .ok (d, rest)) :
    Reads .expression (ts ++ tokens) d rest := by
  induction bound generalizing tokens a ts e with
  | zero =>
    cases h
    exact ⟨ts, e, rfl, hd, hv⟩
  | succ bound ih =>
    simp only [factors] at h
    split at h
    · rename_i text start tail
      obtain ⟨b, c, behind, hf, hc, hloop⟩ := round_eq_ok h
      obtain ⟨us, f, rfl, hdf, hvf⟩ := factor_reads hi hf
      have hvc : (Tree.times e f).value? = some c := by
        simp [Tree.value?, hv, hvf, Dimension.mul?_eq_some, hc]
      have ho : Token.kind ⟨.times, text, start⟩ = .times := rfl
      simpa using ih (.times hd ho hdf) hvc hloop
    · rename_i text start tail
      obtain ⟨b, c, behind, hf, hc, hloop⟩ := round_eq_ok h
      obtain ⟨us, f, rfl, hdf, hvf⟩ := factor_reads hi hf
      have hvc : (Tree.quotient e f).value? = some c := by
        simp [Tree.value?, hv, hvf, Dimension.div?_eq_some, hc]
      have ho : Token.kind ⟨.over, text, start⟩ = .over := rfl
      simpa using ih (.quotient hd ho hdf) hvc hloop
    · cases h
      exact ⟨ts, e, rfl, hd, hv⟩

theorem expression_sound (reason : ε) (stop bound : Nat) : Sound (expression reason stop bound) := by
  induction bound with
  | zero =>
    intro tokens d rest h
    cases h
  | succ bound ih =>
    intro tokens d rest h
    obtain ⟨⟨d', tail⟩, hf, hloop⟩ := bind_eq_ok.mp h
    obtain ⟨ts, e, rfl, hd, hv⟩ := factor_reads ih hf
    exact factors_reads ih (.factor hd) hv hloop

end Sound

section Complete
variable {ε : Type} [Reason ε] {reason : ε} {stop bound : Nat} {tokens rest : List Token} {a b c d : Dimension}

/-- The loop over factors behind a dimension, with rounds enough. -/
def remaining (reason : ε) (stop bound : Nat) (d : Dimension) (tokens : List Token) : Except ε Reading :=
  factors stop (expression reason stop bound) tokens.length d tokens

/-- The tokens behind a phrase do not raise it to a power. -/
def NoCaret (rest : List Token) : Prop := ∀ t ∈ rest.head?, t.kind ≠ .caret

theorem length_lt_of_factor (h : factor stop (expression reason stop bound) tokens = .ok (d, rest)) :
    rest.length < tokens.length := by
  obtain ⟨ts, e, rfl, hd, -⟩ := factor_reads (expression_sound reason stop bound) h
  have := hd.length_pos
  rw [List.length_append]
  omega

theorem round_congr {start : Nat} {op : Dimension → Dimension → Except Overflow Dimension}
    {k k' : Dimension → List Token → Except ε Reading} (h : ∀ c rest, rest.length < tokens.length → k c rest = k' c rest) :
    (do let (b, behind) ← factor stop (expression reason stop bound) tokens
        let (c, behind) ← combined start (op d b) behind
        k c behind) =
    (do let (b, behind) ← factor stop (expression reason stop bound) tokens
        let (c, behind) ← combined start (op d b) behind
        k' c behind) := by
  refine bind_congr_ok fun r hf => bind_congr_ok fun s hc => ?_
  obtain ⟨b, behind⟩ := r
  obtain ⟨c, rest⟩ := s
  obtain ⟨-, rfl⟩ := combined_eq_ok.mp hc
  exact h c behind (length_lt_of_factor hf)

/-- A factor takes a token at least, so rounds beyond the number of tokens change nothing. -/
theorem factors_of_le {n m : Nat} (hn : tokens.length ≤ n) (hm : tokens.length ≤ m) :
    factors stop (expression reason stop bound) n d tokens = factors stop (expression reason stop bound) m d tokens := by
  induction n generalizing m d tokens with
  | zero =>
    obtain rfl := List.length_eq_zero_iff.mp (Nat.le_zero.mp hn)
    cases m <;> rfl
  | succ n ih =>
    cases m with
    | zero =>
      obtain rfl := List.length_eq_zero_iff.mp (Nat.le_zero.mp hm)
      rfl
    | succ m =>
      simp only [factors]
      split
      · rename_i start tail
        simp only [List.length_cons, Nat.add_le_add_iff_right] at hn hm
        exact round_congr fun c rest hlt => ih (by omega) (by omega)
      · rename_i start tail
        simp only [List.length_cons, Nat.add_le_add_iff_right] at hn hm
        exact round_congr fun c rest hlt => ih (by omega) (by omega)
      · rfl

theorem remaining_times {o : Token} (ho : o.kind = .times)
    (hf : factor stop (expression reason stop bound) tokens = .ok (b, rest)) (hc : a.mul b = .ok c) :
    remaining reason stop bound a (o :: tokens) = remaining reason stop bound c rest := by
  obtain ⟨kind, text, start⟩ := o
  obtain rfl : kind = .times := ho
  simp only [remaining, List.length_cons, factors, hf, hc, combined, ok_bind]
  exact factors_of_le (Nat.le_of_lt (length_lt_of_factor hf)) (Nat.le_refl _)

theorem remaining_quotient {o : Token} (ho : o.kind = .over)
    (hf : factor stop (expression reason stop bound) tokens = .ok (b, rest)) (hc : a.div b = .ok c) :
    remaining reason stop bound a (o :: tokens) = remaining reason stop bound c rest := by
  obtain ⟨kind, text, start⟩ := o
  obtain rfl : kind = .over := ho
  simp only [remaining, List.length_cons, factors, hf, hc, combined, ok_bind]
  exact factors_of_le (Nat.le_of_lt (length_lt_of_factor hf)) (Nat.le_refl _)

theorem remaining_of_not_operator (h : ∀ t ∈ tokens.head?, t.kind ≠ .times ∧ t.kind ≠ .over) :
    remaining reason stop bound d tokens = .ok (d, tokens) := by
  cases tokens with
  | nil => rfl
  | cons t tail =>
    obtain ⟨ht, ho⟩ := h t rfl
    simp only [remaining, List.length_cons, factors]
    split
    · rename_i heq
      cases heq
      exact absurd rfl ht
    · rename_i heq
      cases heq
      exact absurd rfl ho
    · rfl

theorem factor_eq_of_noCaret (hn : NoCaret rest)
    (hp : primary stop (expression reason stop bound) tokens = .ok (d, rest)) :
    factor stop (expression reason stop bound) tokens = .ok (d, rest) := by
  simp only [factor, hp, ok_bind]
  split
  · exact absurd rfl (hn _ rfl)
  · rfl

theorem factor_eq_of_caret {t x : Token} (ht : t.kind = .caret) (hx : x.kind = .number)
    (hr : a.raised? x.text = some d) (hp : primary stop (expression reason stop bound) tokens = .ok (a, t :: x :: rest)) :
    factor stop (expression reason stop bound) tokens = .ok (d, rest) := by
  obtain ⟨kind, text, start⟩ := t
  obtain rfl : kind = .caret := ht
  obtain ⟨kind, text, start⟩ := x
  obtain rfl : kind = .number := hx
  obtain ⟨x, hread, hpow⟩ := Dimension.raised?_eq_some.mp hr
  simp [factor, hp, raise, hread, hpow]

/-- What the reader of a category does with a phrase of value `d` and the tokens behind it. -/
def Completes (reason : ε) (stop bound : Nat) (ts : List Token) (d : Dimension) (rest : List Token) : Category → Prop
  | .primary => primary stop (expression reason stop bound) (ts ++ rest) = .ok (d, rest)
  | .factor => NoCaret rest → factor stop (expression reason stop bound) (ts ++ rest) = .ok (d, rest)
  | .expression => NoCaret rest → expression reason stop (bound + 1) (ts ++ rest) = remaining reason stop bound d rest

theorem Derives.completes {k : Category} {ts : List Token} {e : Tree} (h : Derives k ts e) (hb : e.depth ≤ bound)
    (hv : e.value? = some d) (rest : List Token) : Completes reason stop bound ts d rest k := by
  induction h generalizing bound d rest with
  | one kind text =>
    cases hv
    simp [Completes, Units.primary, kind, text]
  | unit kind =>
    simp only [Tree.value?] at hv
    simp [Completes, Units.primary, kind, hv]
  | @group l r ts e left inner right ih =>
    obtain ⟨bound, rfl⟩ : ∃ m, bound = m + 1 := ⟨bound - 1, by simp only [Tree.depth] at hb; omega⟩
    have hinner := ih (Nat.le_of_succ_le_succ hb) hv (r :: rest) fun t ht => by
      cases ht
      simp [right]
    rw [remaining_of_not_operator fun t ht => by cases ht; simp [right]] at hinner
    obtain ⟨kind, text, start⟩ := r
    obtain rfl : kind = .rightParen := right
    simp [Completes, Units.primary, left, hinner]
  | primary _ ih => exact fun hn => factor_eq_of_noCaret hn (ih hb hv rest)
  | @power c x ts e _ caret number ih =>
    obtain ⟨a, ha, hr⟩ := Option.bind_eq_some_iff.mp hv
    intro _
    have hp := ih hb ha (c :: x :: rest)
    rw [List.append_assoc]
    exact factor_eq_of_caret caret number hr hp
  | factor _ ih =>
    intro hn
    have hf := ih hb hv rest hn
    simp only [expression, product, hf, ok_bind]
    rfl
  | @times o ts us e f _ operator _ ihe ihf =>
    obtain ⟨a, ha, hv⟩ := Option.bind_eq_some_iff.mp hv
    obtain ⟨b, hb', hv⟩ := Option.bind_eq_some_iff.mp hv
    intro hn
    have he := ihe (Nat.le_trans (Nat.le_max_left ..) hb) ha (o :: (us ++ rest)) fun t ht => by
      cases ht
      simp [operator]
    have hf := ihf (Nat.le_trans (Nat.le_max_right ..) hb) hb' rest hn
    rw [List.append_assoc, List.cons_append, he]
    exact remaining_times operator hf (Dimension.mul?_eq_some.mp hv)
  | @quotient o ts us e f _ operator _ ihe ihf =>
    obtain ⟨a, ha, hv⟩ := Option.bind_eq_some_iff.mp hv
    obtain ⟨b, hb', hv⟩ := Option.bind_eq_some_iff.mp hv
    intro hn
    have he := ihe (Nat.le_trans (Nat.le_max_left ..) hb) ha (o :: (us ++ rest)) fun t ht => by
      cases ht
      simp [operator]
    have hf := ihf (Nat.le_trans (Nat.le_max_right ..) hb) hb' rest hn
    rw [List.append_assoc, List.cons_append, he]
    exact remaining_quotient operator hf (Dimension.div?_eq_some.mp hv)

theorem expression_eq_ok_iff {ts : List Token} :
    expression reason stop ts.length ts = .ok (d, []) ↔ ∃ e, Derives .expression ts e ∧ e.value? = some d := by
  constructor
  · intro h
    obtain ⟨us, e, rfl, hd, hv⟩ := expression_sound _ _ _ _ _ _ h
    exact ⟨e, by simpa using hd, hv⟩
  · rintro ⟨e, hd, hv⟩
    obtain ⟨n, hn⟩ : ∃ n, ts.length = n + 1 := Nat.exists_eq_add_one.mpr hd.length_pos
    have hdepth : e.depth ≤ n := Nat.le_of_lt_succ (Nat.lt_of_lt_of_eq hd.depth_lt hn)
    have h : expression reason stop (n + 1) (ts ++ []) = remaining reason stop (n + 1) d [] :=
      hd.completes hdepth hv [] fun t ht => by cases ht
    rw [List.append_nil] at h
    rw [hn, h]
    rfl

end Complete

section Text
variable {ε : Type} [Reason ε] {read : Nat → List Token → Except ε Reading} {text : List Char} {d : Dimension}

theorem whole_eq_ok {normal : List Char} {r : Reading} :
    whole normal r = (.ok d : Except ε Dimension) ↔ r = (d, []) := by
  obtain ⟨e, rest⟩ := r
  cases rest with
  | nil => simp [whole]
  | cons t rest => simp [whole, refuse]

theorem parseWith_of_empty (h : normalize text = []) : parseWith read text = refuse .emptyText 0 := by
  simp [parseWith, h]

theorem parseWith_of_nonempty (h : normalize text ≠ []) :
    parseWith read text =
      (do whole (normalize text) (← read (normalize text).length
        (← (tokenize 0 (normalize text)).mapError Reason.ofFailure))) := by
  simp [parseWith, h]

/-- A text has a dimension when its reader takes all the tokens that its normal form is cut into. -/
theorem parseWith_eq_ok :
    parseWith read text = .ok d ↔
      normalize text ≠ [] ∧ ∃ ts, Cut 0 (normalize text) ts ∧ read (normalize text).length ts = .ok (d, []) := by
  by_cases hne : normalize text = []
  · rw [parseWith_of_empty hne]
    constructor
    · intro h
      cases h
    · rintro ⟨h, -⟩
      exact absurd hne h
  · simp [parseWith_of_nonempty hne, bind_eq_ok, mapError_eq_ok, tokenize_eq_ok, whole_eq_ok, hne]

/-- Where a text fails: before there are tokens, in reading them, or at a token that is left over. -/
theorem parseWith_eq_error {reason : ε} (h : parseWith read text = .error reason) :
    (normalize text = [] ∧ reason = Reason.ofFailure ⟨.emptyText, 0⟩) ∨
    (∃ f, tokenize 0 (normalize text) = .error f ∧ reason = Reason.ofFailure f) ∨
    (∃ ts, Cut 0 (normalize text) ts ∧ read (normalize text).length ts = .error reason) ∨
    (∃ ts d t rest, Cut 0 (normalize text) ts ∧ read (normalize text).length ts = .ok (d, t :: rest) ∧
      reason = Reason.ofFailure ⟨.trailing (String.ofList ((normalize text).drop t.start)), t.start⟩) := by
  by_cases hne : normalize text = []
  · rw [parseWith_of_empty hne] at h
    cases h
    exact Or.inl ⟨hne, rfl⟩
  rw [parseWith_of_nonempty hne] at h
  refine Or.inr ?_
  rcases bind_eq_error.mp h with htokens | ⟨ts, htokens, h⟩
  · obtain ⟨f, hf, rfl⟩ := mapError_eq_error.mp htokens
    exact Or.inl ⟨f, hf, rfl⟩
  have hcut := tokenize_eq_ok.mp (mapError_eq_ok.mp htokens)
  rcases bind_eq_error.mp h with hread | ⟨⟨d, rest⟩, hread, hwhole⟩
  · exact Or.inr (Or.inl ⟨ts, hcut, hread⟩)
  · cases rest with
    | nil => cases hwhole
    | cons t rest =>
      cases hwhole
      exact Or.inr (Or.inr ⟨ts, d, t, rest, hcut, hread, rfl⟩)

end Text

theorem normalize_ne_nil_of_cut {text : List Char} {ts : List Token} (hcut : Cut 0 (normalize text) ts)
    (hts : ts ≠ []) : normalize text ≠ [] := by
  intro hnil
  rw [hnil] at hcut
  exact hts (eq_nil_of_cut hcut)

/-- A unit expression has a dimension when its normal form is cut into the tokens of a phrase with that value. -/
theorem parse_eq_ok {text : List Char} {d : Dimension} :
    parse text = .ok d ↔ ∃ ts e, Cut 0 (normalize text) ts ∧ Derives .expression ts e ∧ e.value? = some d := by
  unfold parse
  simp only [parseWith_eq_ok, expression_eq_ok_iff, exists_and_left]
  refine and_iff_right_of_imp ?_
  rintro ⟨ts, hcut, e, hd, -⟩
  exact normalize_ne_nil_of_cut hcut hd.ne_nil

end UnitCheck.Units
