import UnitCheck.Proofs.Units.Partition
import UnitCheck.Proofs.Units.Spelling

/-! # Open parentheses

A reader goes down its stack with every parenthesis that it opens, and it opens one as the first token of an
expression or behind an operator of what it has read. So `Reaches n` holds of the tokens in which `n` parentheses come
to be open at once, and these are the ones for which a stack with less room is too small. On any other stack the
outcome is the one without an end of the stack: both readers take the same steps for as long as there is room. -/

namespace UnitCheck.Units

/-- Read as an expression, the tokens come to a parenthesis, and `behind` is what follows it. -/
inductive Opens : List Token → List Token → Prop where
  | first {l : Token} {behind : List Token} (left : l.kind = .leftParen) : Opens (l :: behind) behind
  | further {o l : Token} {ts behind : List Token} {e : Tree} {d : Dimension} (before : Derives .expression ts e)
      (value : e.value? = some d) (operator : o.kind = .times ∨ o.kind = .over) (left : l.kind = .leftParen) :
      Opens (ts ++ o :: l :: behind) behind

/-- Read as an expression, the tokens come to a place where so many parentheses are open. -/
inductive Reaches : Nat → List Token → Prop where
  | none {ts : List Token} : Reaches 0 ts
  | more {n : Nat} {ts behind : List Token} (opens : Opens ts behind) (inside : Reaches n behind) : Reaches (n + 1) ts

/-- Reading the text opens more parentheses at once than there is room for. -/
def TooDeep (room : Nat) (text : List Char) : Prop :=
  ∃ ts, Cut 0 (normalize text) ts ∧ Reaches (room + 1) ts

/-! ### Stops for want of room -/

section Exhausted
variable {stop bound : Nat} {inner : List Token → Except Stop Reading} {tokens rest : List Token} {d : Dimension}

theorem refuse_ne_exhausted {α : Type} {cause : Cause} {position : Nat} :
    (refuse cause position : Except Stop α) ≠ .error .exhausted := by
  intro h
  cases h

theorem primary_exhausted (h : primary stop inner tokens = .error .exhausted) :
    ∃ l behind, tokens = l :: behind ∧ l.kind = .leftParen ∧ inner behind = .error .exhausted := by
  cases tokens with
  | nil => exact absurd h refuse_ne_exhausted
  | cons t tail =>
    simp only [primary] at h
    split at h
    · rename_i hk
      rcases bind_eq_error.mp h with hinner | ⟨⟨d, behind⟩, -, hclose⟩
      · exact ⟨t, tail, rfl, hk, hinner⟩
      · dsimp only at hclose
        split at hclose
        · cases hclose
        · exact absurd hclose refuse_ne_exhausted
    · split at h
      · cases h
      · exact absurd h refuse_ne_exhausted
    · split at h
      · cases h
      · exact absurd h refuse_ne_exhausted
    · exact absurd h refuse_ne_exhausted

theorem raise_ne_exhausted : (raise stop d tokens : Except Stop Reading) ≠ .error .exhausted := by
  intro h
  unfold raise at h
  split at h
  · split at h
    · exact refuse_ne_exhausted h
    · split at h
      · exact refuse_ne_exhausted h
      · cases h
  · exact refuse_ne_exhausted h

theorem factor_exhausted (h : factor stop inner tokens = .error .exhausted) :
    ∃ l behind, tokens = l :: behind ∧ l.kind = .leftParen ∧ inner behind = .error .exhausted := by
  rcases bind_eq_error.mp h with hp | ⟨⟨d, rest⟩, -, hraise⟩
  · exact primary_exhausted hp
  · dsimp only at hraise
    split at hraise
    · exact absurd hraise raise_ne_exhausted
    · cases hraise

/-- A round of the loop over factors stops for want of room in its factor or in the rounds that follow. -/
theorem round_exhausted {start : Nat} {op : Dimension → Except Overflow Dimension}
    (h : (do let (b, behind) ← factor stop inner tokens
             let (c, behind) ← combined start (op b) behind
             factors stop inner bound c behind) = .error .exhausted) :
    (∃ l behind, tokens = l :: behind ∧ l.kind = .leftParen ∧ inner behind = .error .exhausted) ∨
      ∃ b c behind, factor stop inner tokens = .ok (b, behind) ∧ op b = .ok c ∧
        factors stop inner bound c behind = .error .exhausted := by
  rcases bind_eq_error.mp h with hf | ⟨⟨b, behind⟩, hf, hrest⟩
  · exact Or.inl (factor_exhausted hf)
  rcases bind_eq_error.mp hrest with hc | ⟨⟨c, behind'⟩, hc, hloop⟩
  · unfold combined at hc
    split at hc
    · cases hc
    · exact absurd hc refuse_ne_exhausted
  · obtain ⟨hop, rfl⟩ := combined_eq_ok.mp hc
    exact Or.inr ⟨b, c, behind, hf, hop, hloop⟩

theorem factors_exhausted (hi : Sound inner) {ts : List Token} {e : Tree} (hd : Derives .expression ts e)
    (hv : e.value? = some d) (h : factors stop inner bound d tokens = .error .exhausted) :
    ∃ behind, Opens (ts ++ tokens) behind ∧ inner behind = .error .exhausted := by
  induction bound generalizing d tokens ts e with
  | zero => cases h
  | succ bound ih =>
    simp only [factors] at h
    split at h
    · rename_i text start tail
      have ho : Token.kind ⟨.times, text, start⟩ = .times := rfl
      rcases round_exhausted h with ⟨l, behind, rfl, hl, hinner⟩ | ⟨b, c, behind, hf, hc, hloop⟩
      · exact ⟨behind, .further hd hv (Or.inl ho) hl, hinner⟩
      · obtain ⟨us, f, rfl, hdf, hvf⟩ := factor_reads hi hf
        have hvc : (Tree.times e f).value? = some c := by
          simp [Tree.value?, hv, hvf, Dimension.mul?_eq_some, hc]
        simpa using ih (.times hd ho hdf) hvc hloop
    · rename_i text start tail
      have ho : Token.kind ⟨.over, text, start⟩ = .over := rfl
      rcases round_exhausted h with ⟨l, behind, rfl, hl, hinner⟩ | ⟨b, c, behind, hf, hc, hloop⟩
      · exact ⟨behind, .further hd hv (Or.inr ho) hl, hinner⟩
      · obtain ⟨us, f, rfl, hdf, hvf⟩ := factor_reads hi hf
        have hvc : (Tree.quotient e f).value? = some c := by
          simp [Tree.value?, hv, hvf, Dimension.div?_eq_some, hc]
        simpa using ih (.quotient hd ho hdf) hvc hloop
    · cases h

theorem product_exhausted (hi : Sound inner) (h : product stop inner tokens = .error .exhausted) :
    ∃ behind, Opens tokens behind ∧ inner behind = .error .exhausted := by
  rcases bind_eq_error.mp h with hf | ⟨⟨d, rest⟩, hf, hloop⟩
  · obtain ⟨l, behind, rfl, hl, hinner⟩ := factor_exhausted hf
    exact ⟨behind, .first hl, hinner⟩
  · obtain ⟨ts, e, rfl, hd, hv⟩ := factor_reads hi hf
    exact factors_exhausted hi (.factor hd) hv hloop

/-- What the reader of a category does with a phrase whose groups nest deeper than there is room for. -/
def Exhausts (stop bound : Nat) (ts rest : List Token) : Category → Prop
  | .primary => primary stop (expression Stop.exhausted stop bound) (ts ++ rest) = .error .exhausted
  | .factor => factor stop (expression Stop.exhausted stop bound) (ts ++ rest) = .error .exhausted
  | .expression => expression Stop.exhausted stop (bound + 1) (ts ++ rest) = .error .exhausted

theorem primary_of_inner {l : Token} (hl : l.kind = .leftParen) (h : inner tokens = .error .exhausted) :
    primary stop inner (l :: tokens) = .error .exhausted := by
  simp only [primary, hl, h, error_bind]

theorem factor_of_primary (h : primary stop inner tokens = .error .exhausted) :
    factor stop inner tokens = .error .exhausted := by
  simp only [factor, h, error_bind]

theorem product_of_factor (h : factor stop inner tokens = .error .exhausted) :
    product stop inner tokens = .error .exhausted := by
  simp only [product, h, error_bind]

theorem remaining_of_factor {reason : Stop} {o : Token} (ho : o.kind = .times ∨ o.kind = .over)
    (h : factor stop (expression reason stop bound) tokens = .error .exhausted) :
    remaining reason stop bound d (o :: tokens) = .error .exhausted := by
  obtain ⟨kind, text, start⟩ := o
  rcases ho with ho | ho
  · obtain rfl : kind = .times := ho
    simp only [remaining, List.length_cons, factors, h, error_bind]
  · obtain rfl : kind = .over := ho
    simp only [remaining, List.length_cons, factors, h, error_bind]

theorem noCaret_of_operator {o : Token} (ho : o.kind = .times ∨ o.kind = .over) : NoCaret (o :: rest) := by
  intro t ht
  cases ht
  rcases ho with ho | ho <;> simp [ho]

/-- An expression exhausts the stack if what is in front of an operator does, or else the factor behind it. -/
theorem expression_of_sides {o : Token} {ts : List Token} {e : Tree} (before : Derives .expression ts e)
    (hv : e.value? = some d) (ho : o.kind = .times ∨ o.kind = .over)
    (hdeep : bound < e.depth → expression Stop.exhausted stop (bound + 1) (ts ++ o :: tokens) = .error .exhausted)
    (hfactor : e.depth ≤ bound → factor stop (expression Stop.exhausted stop bound) tokens = .error .exhausted) :
    expression Stop.exhausted stop (bound + 1) (ts ++ o :: tokens) = .error .exhausted := by
  rcases Nat.lt_or_ge bound e.depth with hd | hd
  · exact hdeep hd
  · have hbefore : expression Stop.exhausted stop (bound + 1) _ = _ :=
      before.completes hd hv (o :: tokens) (noCaret_of_operator ho)
    rw [hbefore]
    exact remaining_of_factor ho (hfactor hd)

theorem Derives.exhausts {k : Category} {ts : List Token} {e : Tree} (h : Derives k ts e) (hb : bound < e.depth)
    (hv : e.value? = some d) (rest : List Token) : Exhausts stop bound ts rest k := by
  induction h generalizing bound d rest with
  | one | unit => exact absurd hb (Nat.not_lt_zero _)
  | @group l r ts e left inner right ih =>
    refine primary_of_inner left ?_
    cases bound with
    | zero => rfl
    | succ bound =>
      have hinner : expression Stop.exhausted stop (bound + 1) (ts ++ ([r] ++ rest)) = _ :=
        ih (Nat.lt_of_succ_lt_succ hb) hv ([r] ++ rest)
      rwa [← List.append_assoc] at hinner
  | primary _ ih => exact factor_of_primary (ih hb hv rest)
  | @power c x ts e _ _ _ ih =>
    obtain ⟨a, ha, -⟩ := Option.bind_eq_some_iff.mp hv
    have hp : Units.primary stop _ (ts ++ ([c, x] ++ rest)) = _ := ih hb ha ([c, x] ++ rest)
    rw [← List.append_assoc] at hp
    exact factor_of_primary hp
  | factor _ ih => exact product_of_factor (ih hb hv rest)
  | @times o ts us a b left operator _ iha ihb =>
    obtain ⟨x, hx, hv⟩ := Option.bind_eq_some_iff.mp hv
    obtain ⟨y, hy, -⟩ := Option.bind_eq_some_iff.mp hv
    rw [Exhausts, List.append_assoc, List.cons_append]
    refine expression_of_sides left hx (Or.inl operator) (fun ha => iha ha hx _) fun ha => ihb ?_ hy rest
    simp only [Tree.depth] at hb
    omega
  | @quotient o ts us a b left operator _ iha ihb =>
    obtain ⟨x, hx, hv⟩ := Option.bind_eq_some_iff.mp hv
    obtain ⟨y, hy, -⟩ := Option.bind_eq_some_iff.mp hv
    rw [Exhausts, List.append_assoc, List.cons_append]
    refine expression_of_sides left hx (Or.inr operator) (fun ha => iha ha hx _) fun ha => ihb ?_ hy rest
    simp only [Tree.depth] at hb
    omega

theorem expression_of_opens {behind : List Token} (h : Opens tokens behind)
    (hinner : expression Stop.exhausted stop bound behind = .error .exhausted) :
    expression Stop.exhausted stop (bound + 1) tokens = .error .exhausted := by
  cases h with
  | first left => exact product_of_factor (factor_of_primary (primary_of_inner left hinner))
  | further before value operator left =>
    refine expression_of_sides before value operator (fun hdeep => before.exhausts hdeep value _) fun _ => ?_
    exact factor_of_primary (primary_of_inner left hinner)

/-- The reader stops for want of room when as many parentheses come to be open as it must not come to. -/
theorem expression_exhausted_iff :
    expression Stop.exhausted stop bound tokens = .error .exhausted ↔ Reaches bound tokens := by
  constructor
  · intro h
    induction bound generalizing tokens with
    | zero => exact .none
    | succ bound ih =>
      obtain ⟨behind, hopens, hinner⟩ := product_exhausted (expression_sound _ stop bound) h
      exact .more hopens (ih hinner)
  · intro h
    induction h with
    | none => rfl
    | more opens _ ih => exact expression_of_opens opens ih

end Exhausted

/-! ### Where there is room -/

section Follows
variable {α β : Type} {stop : Nat} {x : Except Stop α} {y : Except (Failure Cause) α}

/-- A reader on a stack has run out of room, or it has done what the one without an end of its stack does. -/
def Follows (x : Except Stop α) (y : Except (Failure Cause) α) : Prop :=
  x = .error .exhausted ∨ x = y.mapError .failure

theorem Follows.ok (a : α) : Follows (.ok a) (.ok a) := Or.inr rfl

theorem Follows.refuse (cause : Cause) (position : Nat) :
    Follows (refuse cause position : Except Stop α) (Units.refuse cause position) := Or.inr rfl

theorem Follows.bind {f : α → Except Stop β} {g : α → Except (Failure Cause) β} (h : Follows x y)
    (hf : ∀ a, y = .ok a → Follows (f a) (g a)) : Follows (x >>= f) (y >>= g) := by
  rcases h with h | h
  · rw [h]
    exact Or.inl rfl
  · rw [h]
    cases y with
    | error e => exact Or.inr rfl
    | ok a => exact hf a rfl

/-- The readers of what parentheses hold follow each other on all lists of tokens up to a length. -/
def FollowsTo (n : Nat) (inner : List Token → Except Stop Reading)
    (inner' : List Token → Except (Failure Cause) Reading) : Prop :=
  ∀ ts, ts.length ≤ n → Follows (inner ts) (inner' ts)

variable {n : Nat} {inner : List Token → Except Stop Reading} {inner' : List Token → Except (Failure Cause) Reading}
  {tokens : List Token} {d : Dimension}

theorem primary_follows (hi : FollowsTo n inner inner') (hn : tokens.length ≤ n + 1) :
    Follows (primary stop inner tokens) (primary stop inner' tokens) := by
  cases tokens with
  | nil => exact .refuse _ _
  | cons t tail =>
    simp only [primary]
    split
    · refine (hi tail (Nat.le_of_succ_le_succ hn)).bind fun r _ => ?_
      obtain ⟨d, behind⟩ := r
      dsimp only
      split
      · exact .ok _
      · exact .refuse _ _
    · split
      · exact .ok _
      · exact .refuse _ _
    · split
      · exact .ok _
      · exact .refuse _ _
    · exact .refuse _ _

theorem raise_follows : Follows (raise stop d tokens) (raise stop d tokens) := by
  unfold raise
  split
  · split
    · exact .refuse _ _
    · split
      · exact .refuse _ _
      · exact .ok _
  · exact .refuse _ _

theorem factor_follows (hi : FollowsTo n inner inner') (hn : tokens.length ≤ n + 1) :
    Follows (factor stop inner tokens) (factor stop inner' tokens) := by
  refine (primary_follows hi hn).bind fun r _ => ?_
  obtain ⟨d, rest⟩ := r
  dsimp only
  split
  · exact raise_follows
  · exact .ok _

theorem combined_follows {start : Nat} {result : Except Overflow Dimension} :
    Follows (combined start result tokens) (combined start result tokens) := by
  unfold combined
  split
  · exact .ok _
  · exact .refuse _ _

theorem length_le_of_reads {k : Category} {rest : List Token} (h : Reads k tokens d rest) :
    rest.length ≤ tokens.length := by
  obtain ⟨ts, e, rfl, -, -⟩ := h
  rw [List.length_append]
  exact Nat.le_add_left ..

theorem factors_follows (hs : Sound inner') (hi : FollowsTo n inner inner') (bound : Nat)
    (hn : tokens.length ≤ n + 1) :
    Follows (factors stop inner bound d tokens) (factors stop inner' bound d tokens) := by
  induction bound generalizing d tokens with
  | zero => exact .ok _
  | succ bound ih =>
    -- A round takes tokens from the front, so the rounds that follow are within the length too.
    have round : ∀ {o tail start} (op : Dimension → Except Overflow Dimension), tokens = o :: tail →
        Follows
          (do let (b, behind) ← factor stop inner tail
              let (c, behind) ← combined start (op b) behind
              factors stop inner bound c behind)
          (do let (b, behind) ← factor stop inner' tail
              let (c, behind) ← combined start (op b) behind
              factors stop inner' bound c behind) := by
      rintro o tail start op rfl
      rw [List.length_cons] at hn
      refine (factor_follows hi (by omega)).bind fun r hf => ?_
      obtain ⟨b, behind⟩ := r
      refine combined_follows.bind fun r hc => ?_
      obtain ⟨c, behind'⟩ := r
      obtain ⟨-, rfl⟩ := combined_eq_ok.mp hc
      have := length_le_of_reads (factor_reads hs hf)
      exact ih (by omega)
    simp only [factors]
    split
    · exact round d.mul rfl
    · exact round d.div rfl
    · exact .ok _

theorem product_follows (hs : Sound inner') (hi : FollowsTo n inner inner') (hn : tokens.length ≤ n + 1) :
    Follows (product stop inner tokens) (product stop inner' tokens) := by
  refine (factor_follows hi hn).bind fun r hf => ?_
  obtain ⟨d, rest⟩ := r
  have := length_le_of_reads (factor_reads hs hf)
  exact factors_follows hs hi _ (by omega)

/-- A bound as large as the number of tokens is as good as none. -/
theorem expression_follows (stop bound n : Nat) :
    FollowsTo n (expression Stop.exhausted stop bound) (expression ⟨.unexpectedEnd, stop⟩ stop n) := by
  induction bound generalizing n with
  | zero => exact fun ts _ => Or.inl rfl
  | succ bound ih =>
    intro ts hn
    cases n with
    | zero =>
      obtain rfl := List.length_eq_zero_iff.mp (Nat.le_zero.mp hn)
      exact .refuse _ _
    | succ n => exact product_follows (expression_sound _ stop n) (ih n) hn

end Follows

section Text
variable {room : Nat} {text : List Char}

theorem Reaches.ne_nil {n : Nat} {ts : List Token} (h : Reaches (n + 1) ts) : ts ≠ [] := by
  cases h with
  | more opens _ => cases opens <;> simp

/-- There is no room for a text exactly when it opens more parentheses at once than the stack holds. -/
theorem parseOn_eq_exhausted : parseOn room text = .error .exhausted ↔ TooDeep room text := by
  constructor
  · intro h
    rcases parseWith_eq_error h with ⟨-, hr⟩ | ⟨f, -, hr⟩ | ⟨ts, hcut, hread⟩ | ⟨ts, d, t, rest, -, -, hr⟩
    · cases hr
    · cases hr
    · exact ⟨ts, hcut, expression_exhausted_iff.mp hread⟩
    · cases hr
  · rintro ⟨ts, hcut, hreaches⟩
    have hne := normalize_ne_nil_of_cut hcut hreaches.ne_nil
    rw [parseOn, parseWith_of_nonempty hne, tokenize_of_cut hcut, mapError_eq_ok.mpr rfl, ok_bind,
      expression_exhausted_iff.mpr hreaches]
    rfl

/-- Where there is room for a text, its reading is the one that has room for every text. -/
theorem parseOn_of_not_tooDeep (h : ¬TooDeep room text) : parseOn room text = (parse text).mapError .failure := by
  by_cases hne : normalize text = []
  · rw [parseOn, parse, parseWith_of_empty hne, parseWith_of_empty hne]
    rfl
  suffices hf : Follows (parseOn room text) (parse text) from
    hf.resolve_left fun hex => h (parseOn_eq_exhausted.mp hex)
  rw [parseOn, parse, parseWith_of_nonempty hne, parseWith_of_nonempty hne]
  refine Follows.bind ?_ fun ts _ => ?_
  · rw [mapError_ofFailure]
    exact Or.inr rfl
  refine (expression_follows _ (room + 1) ts.length ts (Nat.le_refl _)).bind fun r _ => ?_
  obtain ⟨d, rest⟩ := r
  cases rest with
  | nil => exact .ok d
  | cons t rest => exact .refuse _ _

theorem fits_iff : fits room text = true ↔ ¬TooDeep room text := by
  rw [← parseOn_eq_exhausted]
  unfold fits
  split
  · rename_i h
    simp [h]
  · rename_i h
    simpa using h

end Text

/-! ### How deep texts go -/

section Texts
variable {start n room : Nat} {cs text : List Char} {ts : List Token}

theorem Opens.count {behind : List Token} (h : Opens ts behind) :
    behind.countP (·.kind = .leftParen) < ts.countP (·.kind = .leftParen) := by
  cases h with
  | first left => simp [left]
  | further _ _ _ left =>
    simp only [List.countP_append, List.countP_cons, left]
    simp
    omega

theorem Reaches.count (h : Reaches n ts) : n ≤ ts.countP (·.kind = .leftParen) := by
  induction h with
  | none => exact Nat.zero_le _
  | more opens _ ih => exact Nat.lt_of_le_of_lt ih opens.count

theorem kind?_eq_leftParen {c : Char} : kind? c = some .leftParen ↔ c = '(' := by
  constructor
  · intro h
    by_contra hne
    grind [kind?]
  · rintro rfl
    rfl

theorem count_leftParen (h : Cut start cs ts) : ts.countP (·.kind = .leftParen) = cs.count '(' := by
  induction h with
  | nil => rfl
  | sign sign _ ih =>
    obtain ⟨hk, -⟩ := mem_signs.mp sign
    rw [List.countP_cons, List.count_cons, ih]
    congr 1
    simp only [beq_iff_eq, decide_eq_true_eq, ← kind?_eq_leftParen, hk, Option.some.injEq]
  | @letters start run rest ts _ letters _ _ ih =>
    have hrun : run.count '(' = 0 := List.count_eq_zero.mpr fun hmem => by
      have := letters _ hmem
      contradiction
    simp [ih, hrun]
  | @digits start run rest ts _ digits _ _ ih =>
    have hrun : run.count '(' = 0 := List.count_eq_zero.mpr fun hmem => by
      rcases digits _ hmem with h | h <;> contradiction
    simp [ih, hrun]

/-- A text has room if it has no more parentheses than there is room for. -/
theorem not_tooDeep_of_count (h : (normalize text).count '(' ≤ room) : ¬TooDeep room text := by
  rintro ⟨ts, hcut, hreaches⟩
  have := hreaches.count
  rw [count_leftParen hcut] at this
  omega

theorem exists_cut (h : ∀ c ∈ cs, InAlphabet c) : ∃ ts, Cut start cs ts := by
  rcases ok_or_error (tokenize start cs) with ⟨ts, hts⟩ | ⟨f, hf⟩
  · exact ⟨ts, cut_of_tokenize hts⟩
  · obtain ⟨front, c, behind, rfl, -, hc, -⟩ := firstOutside_of_tokenize hf
    exact absurd (h c (List.mem_append_right front List.mem_cons_self)) hc

theorem reaches_of_replicate (hcut : Cut start (List.replicate n '(' ++ cs) ts) : Reaches n ts := by
  induction n generalizing start ts with
  | zero => exact .none
  | succ n ih =>
    have hts := tokenize_of_cut hcut
    rw [List.replicate_succ, List.cons_append, tokenize_sign (k := .leftParen) rfl rfl] at hts
    obtain ⟨us, hus, rfl⟩ := map_eq_ok.mp hts
    exact .more (.first rfl) (ih (cut_of_tokenize hus))

/-- A text that begins with more parentheses than there is room for is too deep, if it can be cut at all. -/
theorem tooDeep_of_replicate (hcs : ∀ c ∈ cs, InAlphabet c) (h : room < n) :
    TooDeep room (List.replicate n '(' ++ cs) := by
  obtain ⟨m, rfl⟩ := Nat.exists_eq_add_of_lt h
  have hin : ∀ c ∈ List.replicate (room + 1 + m) '(' ++ cs, InAlphabet c := by
    intro c hc
    rcases List.mem_append.mp hc with hc | hc
    · obtain rfl := List.eq_of_mem_replicate hc
      exact Or.inr (Or.inr (by decide))
    · exact hcs c hc
  rw [Nat.add_right_comm]
  obtain ⟨ts, hts⟩ : ∃ ts, Cut 0 _ ts := exists_cut hin
  refine ⟨ts, ?_, ?_⟩
  · rwa [normalize_of_inAlphabet hin]
  · rw [List.replicate_add, List.append_assoc] at hts
    exact reaches_of_replicate hts

/-- A text in so many parentheses. -/
def wrap (n : Nat) (text : List Char) : List Char :=
  List.replicate n '(' ++ (text ++ List.replicate n ')')

theorem Spells.wrap {d : Dimension} (h : Spells .expression text d) (n : Nat) : Spells .expression (wrap n text) d := by
  induction n with
  | zero => simpa [Units.wrap] using h
  | succ n ih =>
    have hwrap : Units.wrap (n + 1) text = '(' :: Units.wrap n text ++ [')'] := by
      rw [Units.wrap, List.replicate_succ, List.replicate_succ']
      simp [Units.wrap]
    rw [hwrap]
    exact ih.group.factor.expression

/-- Parentheses around an expression change nothing about its dimension, and enough of them exhaust every stack. -/
theorem parse_wrap {d : Dimension} (h : Spells .expression text d) (hn : room < n) :
    parse (wrap n text) = .ok d ∧ TooDeep room (wrap n text) := by
  refine ⟨(h.wrap n).parse, tooDeep_of_replicate ?_ hn⟩
  obtain ⟨ts, e, hts, -⟩ := h.wrap n 0 [] [] (by simp [EndsRun]) .nil
  rw [List.append_nil] at hts
  exact fun c hc => hts.inAlphabet c (List.mem_append_right _ hc)

/-- A metre in three hundred parentheses. -/
def wrappedMetre : List Char := wrap 300 ['m']

theorem wrappedMetre_tooDeep : parse wrappedMetre = .ok (.ofBase .length) ∧ TooDeep usualRoom wrappedMetre := by
  have hmetre : Spells .primary ['m'] (.ofBase .length) :=
    .unit (List.cons_ne_nil _ _) (List.forall_mem_singleton.mpr rfl) rfl
  exact parse_wrap hmetre.factor.expression (by decide)

end Texts

end UnitCheck.Units
