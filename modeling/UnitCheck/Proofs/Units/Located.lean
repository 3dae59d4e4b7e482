import UnitCheck.Proofs.Units.Reading

/-! # Where unit expressions fail

A failure lies at a token that the reader was given, or at the end of the text. What a reader leaves is the
end of what it was given, so a failure further on lies at one of its tokens too. Tokens begin in the text,
and a character outside the alphabet lies in it, so every failure of a text is one that can be shown. -/

namespace UnitCheck.Units

/-- The failure lies at the end or where one of the tokens begins. -/
def Located (stop : Nat) (tokens : List Token) (f : Failure Cause) : Prop :=
  f.position = stop ∨ ∃ t ∈ tokens, f.position = t.start

section Readers
variable {stop : Nat} {inner : List Token → Except (Failure Cause) Reading} {tokens rest : List Token}
  {d : Dimension} {f : Failure Cause}

theorem located_end (cause : Cause) : Located stop tokens ⟨cause, stop⟩ := Or.inl rfl

theorem located_token {t : Token} (cause : Cause) (ht : t ∈ tokens) : Located stop tokens ⟨cause, t.start⟩ :=
  Or.inr ⟨t, ht, rfl⟩

theorem located_next (cause : Cause) (rest : List Token) : Located stop rest ⟨cause, position stop rest⟩ := by
  cases rest with
  | nil => exact located_end cause
  | cons t rest => exact located_token cause List.mem_cons_self

theorem Located.of_suffix (hs : rest <:+ tokens) (h : Located stop rest f) : Located stop tokens f := by
  rcases h with hstop | ⟨t, ht, hp⟩
  · exact Or.inl hstop
  · exact Or.inr ⟨t, hs.subset ht, hp⟩

theorem located_behind {α : Type} {r : Except (Failure Cause) α} (hs : rest <:+ tokens)
    (h : OnError (Located stop rest) r) : OnError (Located stop tokens) r :=
  h.imp fun _ => Located.of_suffix hs

theorem Reads.suffix {k : Category} (h : Reads k tokens d rest) : rest <:+ tokens := by
  obtain ⟨ts, e, rfl, -, -⟩ := h
  exact List.suffix_append ts rest

theorem primary_located (hs : Sound inner) (hi : ∀ ts, OnError (Located stop ts) (inner ts)) :
    OnError (Located stop tokens) (primary stop inner tokens) := by
  cases tokens with
  | nil => exact .error (located_end _)
  | cons t tail =>
    have htail : tail <:+ t :: tail := List.suffix_cons t tail
    have ht : t ∈ t :: tail := List.mem_cons_self
    simp only [primary]
    split
    · -- What is inside the parentheses leaves an end of `tail`, and the closing one is looked for there.
      refine (located_behind htail (hi tail)).bind fun a ha => ?_
      obtain ⟨d, behind⟩ := a
      have hbehind : behind <:+ t :: tail := (hs _ _ _ ha).suffix.trans htail
      dsimp only
      split
      · exact .ok _
      · exact .error ((located_next _ behind).of_suffix hbehind)
    · split
      · exact .ok _
      · exact .error (located_token _ ht)
    · split
      · exact .ok _
      · exact .error (located_token _ ht)
    · exact .error (located_token _ ht)

theorem raise_located : OnError (Located stop tokens) (raise stop d tokens) := by
  unfold raise
  split
  · split
    · exact .error (Or.inr ⟨_, List.mem_cons_self, rfl⟩)
    · split
      · exact .error (Or.inr ⟨_, List.mem_cons_self, rfl⟩)
      · exact .ok _
  · exact .error (located_next _ tokens)

/-- An exponent that makes an exponent no number is one that was read, so there is a token to show. -/
theorem next_of_raise_notFinite (h : raise stop d tokens = .error f)
    (hc : f.cause = .exponentNotFinite) : tokens.head?.map (fun t => (t.start : Int)) = some f.position := by
  unfold raise at h
  split at h
  · split at h
    · cases h
      cases hc
    · split at h
      · cases h
        rfl
      · cases h
  · cases h
    cases hc

theorem factor_located (hs : Sound inner) (hi : ∀ ts, OnError (Located stop ts) (inner ts)) :
    OnError (Located stop tokens) (factor stop inner tokens) := by
  refine (primary_located hs hi).bind fun a ha => ?_
  obtain ⟨d, rest⟩ := a
  have hrest : rest <:+ tokens := (primary_reads hs ha).suffix
  dsimp only
  split
  · rename_i behind
    exact located_behind ((List.suffix_cons _ behind).trans hrest) raise_located
  · exact .ok _

/-- One round of the loop over factors, behind the operator `o`. -/
theorem round_located (o : Token) {op : Dimension → Except Overflow Dimension}
    {k : Dimension → List Token → Except (Failure Cause) Reading} (hs : Sound inner) (hi : ∀ ts, OnError (Located stop ts) (inner ts))
    (hk : ∀ c ts, OnError (Located stop ts) (k c ts)) :
    OnError (Located stop (o :: tokens))
      (do let (b, behind) ← factor stop inner tokens
          let (c, behind) ← combined o.start (op b) behind
          k c behind) := by
  have htail : tokens <:+ o :: tokens := List.suffix_cons o tokens
  refine (located_behind htail (factor_located hs hi)).bind fun a ha => ?_
  obtain ⟨b, behind⟩ := a
  have hbehind : behind <:+ o :: tokens := (factor_reads hs ha).suffix.trans htail
  dsimp only
  cases op b with
  | error e => exact .error (located_token _ List.mem_cons_self)
  | ok c => exact located_behind hbehind (hk c behind)

theorem factors_located (hs : Sound inner) (hi : ∀ ts, OnError (Located stop ts) (inner ts)) (bound : Nat)
    (d : Dimension) (tokens : List Token) : OnError (Located stop tokens) (factors stop inner bound d tokens) := by
  induction bound generalizing d tokens with
  | zero => exact .ok _
  | succ bound ih =>
    simp only [factors]
    split
    · rename_i text start tail
      exact round_located ⟨.times, text, start⟩ hs hi ih
    · rename_i text start tail
      exact round_located ⟨.over, text, start⟩ hs hi ih
    · exact .ok _

theorem expression_located (cause : Cause) (stop bound : Nat) (tokens : List Token) :
    OnError (Located stop tokens) (expression ⟨cause, stop⟩ stop bound tokens) := by
  induction bound generalizing tokens with
  | zero => exact .error (located_end _)
  | succ bound ih =>
    have hs := expression_sound (⟨cause, stop⟩ : Failure Cause) stop bound
    refine (factor_located hs ih).bind fun a ha => ?_
    obtain ⟨d, rest⟩ := a
    exact located_behind (factor_reads hs ha).suffix (factors_located hs ih rest.length d rest)

end Readers

section Text
variable {start : Nat} {cs : List Char}

/-- A character outside the alphabet lies in the text. -/
theorem position_of_tokenize {f : Failure Cause} (h : tokenize start cs = .error f) :
    start ≤ f.position ∧ f.position < start + cs.length := by
  fun_induction tokenize start cs with
  | case1 => cases h
  | case2 start c rest hk =>
    cases h
    rw [List.length_cons]
    dsimp only
    omega
  | case3 start c rest k hk run token ih =>
    obtain ⟨hle, hlt⟩ := ih (map_eq_error.mp h)
    have hrun : run.length ≤ rest.length := by
      dsimp only [run]
      split
      · exact (List.takeWhile_sublist _).length_le
      · exact Nat.zero_le _
    rw [List.length_drop] at hlt
    rw [List.length_cons]
    omega

theorem Cut.start_mem {ts : List Token} (h : Cut start cs ts) :
    ∀ t ∈ ts, start ≤ t.start ∧ t.start < start + cs.length := by
  induction h with
  | nil =>
    intro t ht
    cases ht
  | sign _ _ ih =>
    intro t ht
    rw [List.length_cons]
    rcases List.mem_cons.mp ht with rfl | ht
    · dsimp only
      omega
    · have := ih t ht
      omega
  | letters nonempty _ _ _ ih | digits nonempty _ _ _ ih =>
    intro t ht
    have hpos := List.length_pos_iff.mpr nonempty
    rw [List.length_append]
    rcases List.mem_cons.mp ht with rfl | ht
    · dsimp only
      omega
    · have := ih t ht
      omega

/-- A failure of a unit expression lies in its normal form or at the end of it. -/
theorem position_of_parse {text : List Char} {f : Failure Cause} (h : parse text = .error f) :
    0 ≤ f.position ∧ f.position ≤ (normalize text).length := by
  have hin : ∀ {ts}, Cut 0 (normalize text) ts →
      ∀ t ∈ ts, (0 : Int) ≤ t.start ∧ (t.start : Int) ≤ (normalize text).length := fun hcut t ht => by
    have := hcut.start_mem t ht
    omega
  rcases parseWith_eq_error h with ⟨-, rfl⟩ | ⟨g, hg, hfg⟩ | ⟨ts, hcut, hread⟩ | ⟨ts, d, t, rest, hcut, hread, rfl⟩
  · exact ⟨Int.le_refl 0, Int.natCast_nonneg _⟩
  · obtain rfl : f = g := hfg
    have := position_of_tokenize hg
    omega
  · rcases expression_located _ _ _ ts _ hread with hstop | ⟨t, ht, hp⟩
    · omega
    · rw [hp]
      exact hin hcut t ht
  · have hrest : t :: rest <:+ ts := (expression_sound _ _ _ _ _ _ hread).suffix
    exact hin hcut t (hrest.subset List.mem_cons_self)

end Text

end UnitCheck.Units
