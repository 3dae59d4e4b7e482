import UnitCheck.Proofs.Markup.Grammar

/-! # What readers give

What a reader gives is the value of a phrase that it took from the front of the tokens. The phrase nests
no deeper than the levels that the reader has left, since a reader for one more group is built from the
reader that has one level less. -/

namespace UnitCheck.Markup

/-- A phrase of at most `n` nested groups with a value stands at the front of the tokens. -/
def Reads (declared : Variables) (n : Nat) (k : Category) (tokens : List Token) (d : Dimension)
    (rest : List Token) : Prop :=
  ∃ ts e, tokens = ts ++ rest ∧ Derives k ts e ∧ e.depth ≤ n ∧ e.value? declared = some d

/-- A reader of expressions gives values of phrases only. -/
def Sound (declared : Variables) (n : Nat) (read : Reader) : Prop :=
  ∀ stop tokens d rest, read stop tokens = .ok (d, rest) → Reads declared n .expression tokens d rest

/-- The reader for what is inside a group, if there is one, has a level less. -/
def SoundBelow (declared : Variables) (n : Nat) (inner : Option Reader) : Prop :=
  ∀ read ∈ inner, ∃ m, n = m + 1 ∧ Sound declared m read

theorem combined_eq_ok {start : Int} {result : Except Overflow Dimension} {ts rest : List Token} {d : Dimension} :
    combined start result ts = .ok (d, rest) ↔ result = .ok d ∧ ts = rest := by
  cases result <;> simp [combined]

theorem firstDenied?_eq_none {ts : List Token} : firstDenied? ts = none ↔ ∀ t ∈ ts, t.denied? = none := by
  simp [firstDenied?, List.findSome?_eq_none_iff]

theorem complete_eq_ok {read : Reader} {stop : Int} {ts : List Token} {d : Dimension} :
    complete read stop ts = .ok d ↔
      ts ≠ [] ∧ (∀ t ∈ ts, t.denied? = none) ∧ read stop ts = .ok (d, []) := by
  unfold complete
  rw [← firstDenied?_eq_none]
  cases ts with
  | nil => simp
  | cons t tail =>
    cases firstDenied? (t :: tail) with
    | some hit => simp
    | none =>
      cases read stop (t :: tail) with
      | error f => simp
      | ok result =>
        obtain ⟨d', rest⟩ := result
        cases rest <;> simp

section
variable {declared : Variables} {limit : Limit} {n : Nat} {inner : Option Reader} {stop start : Int}
  {tokens rest : List Token} {d : Dimension}

theorem group_reads (hi : SoundBelow declared n inner) {brace : Token} (hb : brace.opensGroup = true)
    (h : group limit inner brace tokens = .ok (d, rest)) : Reads declared n .group (brace :: tokens) d rest := by
  unfold group at h
  split at h
  · cases h
  · rename_i g hg
    split at h
    · cases h
    · rename_i read
      obtain ⟨d', hc, hd⟩ := map_eq_ok.mp h
      cases hd
      obtain ⟨m, rfl, hs⟩ := hi read rfl
      obtain ⟨rfl, hclose, hbal⟩ := split?_eq_some hg
      obtain ⟨-, -, hread⟩ := complete_eq_ok.mp hc
      obtain ⟨ts, e, hts, hd, hdepth, hv⟩ := hs _ _ _ _ hread
      rw [List.append_nil] at hts
      subst hts
      exact ⟨_, _, by simp, .braces hb hbal hd hclose, Nat.succ_le_succ hdepth, hv⟩

theorem operand_reads (hi : SoundBelow declared n inner) (h : operand limit inner start tokens = .ok (d, rest)) :
    Reads declared n .group tokens d rest := by
  cases tokens with
  | nil => cases h
  | cons t tail =>
    simp only [operand] at h
    split at h
    · rename_i ht
      exact group_reads hi ht h
    · cases h

theorem skipSubscript_eq_ok (h : skipSubscript tokens = .ok rest) : ∃ ts, tokens = ts ++ rest ∧ Subscript ts := by
  unfold skipSubscript at h
  split at h
  · cases h
    exact ⟨[], rfl, .none⟩
  · rename_i mark behind
    split at h
    · rename_i hmark
      split at h
      · cases h
      · rename_i t tail
        split at h
        · rename_i ht
          split at h
          · cases h
          · rename_i g hg
            cases h
            obtain ⟨rfl, hclose, hbal⟩ := split?_eq_some hg
            exact ⟨mark :: t :: (g.inner ++ [g.close]), by simp, .group hmark ht hbal hclose⟩
        · rename_i ht
          cases h
          exact ⟨[mark, t], rfl, .token hmark (by simpa using ht)⟩
    · cases h
      exact ⟨[], rfl, .none⟩

theorem symbol_eq_ok {t : Token} : symbol declared t = .ok d ↔ declared.find? t.text = some d := by
  unfold symbol
  cases declared.find? t.text with
  | some a => simp
  | none =>
    simp only [reduceCtorEq, iff_false]
    split <;> simp

theorem isSignedNumber_eq_true {ts : List Token} (h : isSignedNumber ts = true) :
    (∃ x, ts = [x] ∧ x.kind = .number) ∨ ∃ s x, ts = [s, x] ∧ s.isSign = true ∧ x.kind = .number := by
  unfold isSignedNumber at h
  split at h
  · exact Or.inl ⟨_, rfl, of_decide_eq_true h⟩
  · obtain ⟨hs, hx⟩ := Bool.and_eq_true_iff.mp h
    exact Or.inr ⟨_, _, rfl, hs, of_decide_eq_true hx⟩
  · cases h

theorem exponentNumber_eq_ok {text : String} {x : Binary64} :
    exponentNumber start text = .ok x ↔ Binary64.read? text.toList = some x := by
  unfold exponentNumber
  cases Binary64.read? text.toList <;> simp

theorem exponent_eq_ok {x : Binary64} (h : exponent start tokens = .ok (x, rest)) :
    ∃ ts text, tokens = ts ++ rest ∧ Exponent ts text ∧ Binary64.read? text.toList = some x := by
  unfold exponent at h
  split at h
  · cases h
  · rename_i t tail
    split at h
    · rename_i ht
      obtain ⟨y, hy, hx⟩ := map_eq_ok.mp h
      cases hx
      exact ⟨[t], _, rfl, .number ht, exponentNumber_eq_ok.mp hy⟩
    · split at h
      · rename_i ht
        split at h
        · cases h
        · rename_i g hg
          obtain ⟨rfl, hclose, -⟩ := split?_eq_some hg
          dsimp only at h
          split at h
          · rename_i hsigned
            obtain ⟨y, hy, hx⟩ := map_eq_ok.mp h
            cases hx
            have hread := exponentNumber_eq_ok.mp hy
            rcases isSignedNumber_eq_true hsigned with ⟨z, hz, hk⟩ | ⟨s, z, hz, hs, hk⟩
            · rw [hz] at hread ⊢
              exact ⟨[t, z, g.close], z.text, rfl, .group ht hk hclose, by simpa using hread⟩
            · rw [hz] at hread ⊢
              exact ⟨[t, s, z, g.close], s.text ++ z.text, rfl, .signed ht hs hk hclose, by simpa using hread⟩
          · cases h
      · cases h

end

section
variable {scope : Scope} {n : Nat} {inner : Option Reader} {stop : Int} {tokens rest : List Token} {d : Dimension}

theorem named_reads {t : Token} (ht : t.NamesSymbol)
    (h : (do let rest ← skipSubscript tokens
             let d ← symbol scope.declared t
             .ok (d, rest)) = .ok (d, rest)) : Reads scope.declared n .primary (t :: tokens) d rest := by
  obtain ⟨behind, hskip, hsymbol⟩ := bind_eq_ok.mp h
  obtain ⟨d', hd, hok⟩ := bind_eq_ok.mp hsymbol
  cases hok
  obtain ⟨ts, rfl, hts⟩ := skipSubscript_eq_ok hskip
  exact ⟨t :: ts, _, rfl, .symbol ht hts, Nat.zero_le _, symbol_eq_ok.mp hd⟩

theorem primary_reads (hi : SoundBelow scope.declared n inner) (h : primary scope inner stop tokens = .ok (d, rest)) :
    Reads scope.declared n .primary tokens d rest := by
  cases tokens with
  | nil => cases h
  | cons t tail =>
    simp only [primary] at h
    split at h
    · rename_i hk
      cases h
      exact ⟨[t], _, rfl, .number hk, Nat.zero_le _, rfl⟩
    · rename_i hk
      exact named_reads (Or.inl hk) h
    · rename_i hk
      split at h
      · rename_i htext
        obtain ⟨⟨a, behind⟩, habove, hmore⟩ := bind_eq_ok.mp h
        obtain ⟨⟨b, behind'⟩, hbelow, hdiv⟩ := bind_eq_ok.mp hmore
        obtain ⟨hd, hrest⟩ := combined_eq_ok.mp hdiv
        obtain ⟨ts, e, rfl, hde, hle, hve⟩ := operand_reads hi habove
        obtain ⟨us, f, hus, hdf, hlf, hvf⟩ := operand_reads hi hbelow
        refine ⟨_, _, ?_, .fraction hk htext hde hdf, Nat.max_le.mpr ⟨hle, hlf⟩, ?_⟩
        · rw [show behind = us ++ rest from hrest ▸ hus, List.cons_append, List.append_assoc]
        · simp [Tree.value?, hve, hvf, Dimension.div?_eq_some.mpr hd]
      · rename_i htext
        exact named_reads (Or.inr ⟨hk, htext⟩) h
    · rename_i hk
      split at h
      · rename_i htext
        split at h
        · cases h
        · rename_i read
          obtain ⟨⟨a, behind⟩, hread, hclose⟩ := bind_eq_ok.mp h
          obtain ⟨m, rfl, hs⟩ := hi read rfl
          obtain ⟨ts, e, rfl, hd, hle, hv⟩ := hs _ _ _ _ hread
          dsimp only at hclose
          split at hclose
          · cases hclose
          · split at hclose
            · rename_i hr
              cases hclose
              have ht : t.isOperator "(" = true := by simp [Token.isOperator, hk, htext]
              exact ⟨_, _, by simp, .parens ht hd hr, Nat.succ_le_succ hle, hv⟩
            · cases hclose
      · split at h
        · rename_i ht
          obtain ⟨ts, e, hts, hd, hle, hv⟩ := group_reads hi ht h
          exact ⟨ts, e, hts, .group hd, hle, hv⟩
        · cases h
    · cases h

theorem factor_reads (hi : SoundBelow scope.declared n inner) (h : factor scope inner stop tokens = .ok (d, rest)) :
    Reads scope.declared n .factor tokens d rest := by
  obtain ⟨⟨a, behind⟩, hp, hpower⟩ := bind_eq_ok.mp h
  obtain ⟨ts, e, rfl, hd, hle, hv⟩ := primary_reads hi hp
  dsimp only at hpower
  split at hpower
  · cases hpower
    exact ⟨ts, e, rfl, .primary hd, hle, hv⟩
  · rename_i t tail
    split at hpower
    · rename_i ht
      obtain ⟨⟨x, behind⟩, hx, hpow⟩ := bind_eq_ok.mp hpower
      obtain ⟨us, text, rfl, hus, hread⟩ := exponent_eq_ok hx
      dsimp only at hpow
      split at hpow
      · rename_i b hb
        cases hpow
        refine ⟨_, _, ?_, .power hd ht hus, hle, ?_⟩
        · simp
        · simpa [Tree.value?, hv] using Dimension.raised?_eq_some.mpr ⟨x, hread, hb⟩
      · cases hpow
    · cases hpower
      exact ⟨ts, e, rfl, .primary hd, hle, hv⟩

/-- One round of the loop over factors. -/
theorem round_eq_ok {start : Int} {bound : Nat} {op : Dimension → Dimension → Except Overflow Dimension}
    {a : Dimension}
    (h : (do let (b, behind) ← factor scope inner stop tokens
             let (c, behind) ← combined start (op a b) behind
             factors scope inner stop bound c behind) = .ok (d, rest)) :
    ∃ b c behind, factor scope inner stop tokens = .ok (b, behind) ∧ op a b = .ok c ∧
      factors scope inner stop bound c behind = .ok (d, rest) := by
  obtain ⟨⟨b, behind⟩, hf, hrest⟩ := bind_eq_ok.mp h
  obtain ⟨⟨c, behind'⟩, hop, hloop⟩ := bind_eq_ok.mp hrest
  obtain ⟨hc, hb⟩ := combined_eq_ok.mp hop
  exact ⟨b, c, behind, hf, hc, hb ▸ hloop⟩

/-- The loop over factors extends the phrase that its dimension is the value of. -/
theorem factors_reads (hi : SoundBelow scope.declared n inner) {bound : Nat} {ts : List Token} {e : Tree}
    {a : Dimension} (hd : Derives .term ts e) (hle : e.depth ≤ n) (hv : e.value? scope.declared = some a)
    (h : factors scope inner stop bound a tokens = .ok (d, rest)) :
    Reads scope.declared n .term (ts ++ tokens) d rest := by
  induction bound generalizing tokens a ts e with
  | zero =>
    cases h
    exact ⟨ts, e, rfl, hd, hle, hv⟩
  | succ bound ih =>
    cases tokens with
    | nil =>
      cases h
      exact ⟨ts, e, rfl, hd, hle, hv⟩
    | cons t tail =>
      simp only [factors] at h
      split at h
      · rename_i ht
        obtain ⟨b, c, behind, hf, hc, hloop⟩ := round_eq_ok h
        obtain ⟨us, f, rfl, hdf, hlf, hvf⟩ := factor_reads hi hf
        have hvc : (Tree.times e f).value? scope.declared = some c := by
          simp [Tree.value?, hv, hvf, Dimension.mul?_eq_some.mpr hc]
        simpa using ih (.times hd ht hdf) (Nat.max_le.mpr ⟨hle, hlf⟩) hvc hloop
      · split at h
        · rename_i ht
          obtain ⟨b, c, behind, hf, hc, hloop⟩ := round_eq_ok h
          obtain ⟨us, f, rfl, hdf, hlf, hvf⟩ := factor_reads hi hf
          have hvc : (Tree.quotient e f).value? scope.declared = some c := by
            simp [Tree.value?, hv, hvf, Dimension.div?_eq_some.mpr hc]
          simpa using ih (.quotient hd ht hdf) (Nat.max_le.mpr ⟨hle, hlf⟩) hvc hloop
        · split at h
          · obtain ⟨b, c, behind, hf, hc, hloop⟩ := round_eq_ok h
            obtain ⟨us, f, hus, hdf, hlf, hvf⟩ := factor_reads hi hf
            have hvc : (Tree.times e f).value? scope.declared = some c := by
              simp [Tree.value?, hv, hvf, Dimension.mul?_eq_some.mpr hc]
            rw [hus, ← List.append_assoc]
            exact ih (.juxtaposed hd hdf) (Nat.max_le.mpr ⟨hle, hlf⟩) hvc hloop
          · cases h
            exact ⟨ts, e, rfl, hd, hle, hv⟩

theorem term_reads (hi : SoundBelow scope.declared n inner) (h : term scope inner stop tokens = .ok (d, rest)) :
    Reads scope.declared n .term tokens d rest := by
  obtain ⟨⟨a, behind⟩, hf, hloop⟩ := bind_eq_ok.mp h
  obtain ⟨ts, e, rfl, hd, hle, hv⟩ := factor_reads hi hf
  exact factors_reads hi (.factor hd) hle hv hloop

/-- The loop over terms extends the sum that its dimension is the value of. -/
theorem terms_reads (hi : SoundBelow scope.declared n inner) {bound : Nat} {ts : List Token} {e : Tree}
    {a : Dimension} (hd : Derives .sum ts e) (hle : e.depth ≤ n) (hv : e.value? scope.declared = some a)
    (h : terms scope inner stop bound a tokens = .ok (d, rest)) :
    Reads scope.declared n .sum (ts ++ tokens) d rest := by
  induction bound generalizing tokens ts e with
  | zero =>
    cases h
    exact ⟨ts, e, rfl, hd, hle, hv⟩
  | succ bound ih =>
    cases tokens with
    | nil =>
      cases h
      exact ⟨ts, e, rfl, hd, hle, hv⟩
    | cons t tail =>
      simp only [terms] at h
      split at h
      · rename_i ht
        obtain ⟨⟨b, behind⟩, hterm, hnear⟩ := bind_eq_ok.mp h
        obtain ⟨us, f, rfl, hdf, hlf, hvf⟩ := term_reads hi hterm
        dsimp only at hnear
        split at hnear
        · rename_i hab
          have hvc : (Tree.sum e f).value? scope.declared = some a := by simp [Tree.value?, hv, hvf, hab]
          simpa using ih (.sum hd ht hdf) (Nat.max_le.mpr ⟨hle, hlf⟩) hvc hnear
        · cases hnear
      · cases h
        exact ⟨ts, e, rfl, hd, hle, hv⟩

theorem sum_reads (hi : SoundBelow scope.declared n inner) (h : sum scope inner stop tokens = .ok (d, rest)) :
    Reads scope.declared n .expression tokens d rest := by
  obtain ⟨⟨a, behind⟩, hterm, hloop⟩ := bind_eq_ok.mp h
  obtain ⟨ts, e, hts, hd, hle, hv⟩ := term_reads hi hterm
  obtain ⟨us, f, hus, hdf, hlf, hvf⟩ := terms_reads hi (.term hd) hle hv hloop
  rw [← hts] at hus
  cases tokens with
  | nil => exact ⟨us, f, hus, .unsigned hdf, hlf, hvf⟩
  | cons t tail =>
    simp only [dropSign] at hus
    split at hus
    · rename_i ht
      exact ⟨t :: us, f, by rw [hus, List.cons_append], .signed ht hdf, hlf, hvf⟩
    · exact ⟨us, f, hus, .unsigned hdf, hlf, hvf⟩

end

theorem expression_sound (scope : Scope) (n : Nat) : Sound scope.declared n (expression scope n) := by
  induction n with
  | zero => exact fun stop tokens d rest h => sum_reads (fun read hr => by cases hr) h
  | succ n ih =>
    intro stop tokens d rest h
    refine sum_reads (fun read hr => ?_) h
    cases hr
    exact ⟨n, rfl, ih⟩

end UnitCheck.Markup
