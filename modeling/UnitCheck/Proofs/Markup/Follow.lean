import UnitCheck.Proofs.Markup.Live
import UnitCheck.Proofs.Markup.Sound

/-! # One run after another

Two runs of a reader, on the same kinds and texts of tokens, that differ in the offsets, in what is
declared or in the limit. The second run gives what the first one gives, with the offsets of its own
tokens, unless the first one ends in a failure that the difference may lift (`Follows`). All that has to
be known of the declarations is what they say on the live tokens that the first run can come to
(`Agrees`), since the tokens behind a phrase are live when they were so from its beginning. -/

namespace UnitCheck

/-- The failure with its offset carried over. -/
def Failure.place {κ : Type} (start : Int → Int) (f : Failure κ) : Failure κ := ⟨f.cause, start f.position⟩

namespace Markup

/-- What differs between two runs: the offsets at which tokens begin and end, and the causes of failure that a second
    run need not have. -/
structure Change where
  start : Int → Int
  stop : Int → Int
  lifts : Cause → Prop

/-- The token with its offsets carried over. -/
def Token.place (c : Change) (t : Token) : Token := ⟨t.kind, t.text, c.start t.start, c.stop t.stop⟩

section Place
variable (c : Change) (t : Token)

@[simp] theorem Token.place_kind : (t.place c).kind = t.kind := rfl

@[simp] theorem Token.place_text : (t.place c).text = t.text := rfl

@[simp] theorem Token.place_start : (t.place c).start = c.start t.start := rfl

@[simp] theorem Token.place_isOperator (s : String) : (t.place c).isOperator s = t.isOperator s := rfl

@[simp] theorem Token.place_opensGroup : (t.place c).opensGroup = t.opensGroup := rfl

@[simp] theorem Token.place_closesGroup : (t.place c).closesGroup = t.closesGroup := rfl

@[simp] theorem Token.place_isSign : (t.place c).isSign = t.isSign := rfl

@[simp] theorem Token.place_startsFactor : (t.place c).startsFactor = t.startsFactor := rfl

@[simp] theorem Token.place_denied? : (t.place c).denied? = t.denied? := rfl

end Place

/-- The second outcome is the first one carried over, unless that is a failure that may be lifted. -/
inductive Follows (c : Change) {α β : Type} (g : α → β) :
    Except (Failure Cause) α → Except (Failure Cause) β → Prop where
  | ok (a : α) : Follows c g (.ok a) (.ok (g a))
  | error (f : Failure Cause) : Follows c g (.error f) (.error (f.place c.start))
  | lifted {f : Failure Cause} (h : c.lifts f.cause) (y : Except (Failure Cause) β) : Follows c g (.error f) y

section Outcomes
variable {c : Change} {α β γ δ : Type} {g : α → β} {g' : γ → δ} {x : Except (Failure Cause) α}
  {y : Except (Failure Cause) β}

theorem Follows.bind {k : α → Except (Failure Cause) γ} {k' : β → Except (Failure Cause) δ} (h : Follows c g x y)
    (hk : ∀ a, x = .ok a → Follows c g' (k a) (k' (g a))) : Follows c g' (x >>= k) (y >>= k') := by
  cases h with
  | ok a => exact hk a rfl
  | error f => exact .error f
  | lifted h => exact .lifted h _

theorem Follows.map {k : α → γ} {k' : β → δ} (h : Follows c g x y) (hk : ∀ a, g' (k a) = k' (g a)) :
    Follows c g' (x.map k) (y.map k') := by
  cases h with
  | ok a =>
    simp only [Except.map, ← hk]
    exact .ok (k a)
  | error f => exact .error f
  | lifted h => exact .lifted h _

theorem Follows.ite {x' : Except (Failure Cause) α} {y' : Except (Failure Cause) β} {p : Prop} [Decidable p]
    (ht : p → Follows c g x y) (hf : ¬p → Follows c g x' y') :
    Follows c g (if p then x else x') (if p then y else y') := by
  by_cases hp : p
  · rw [if_pos hp, if_pos hp]
    exact ht hp
  · rw [if_neg hp, if_neg hp]
    exact hf hp

theorem Follows.eq_of_not_lifts (h : Follows c g x y) (hc : ∀ cause, ¬c.lifts cause) :
    y = (x.map g).mapError (·.place c.start) := by
  cases h with
  | ok a => rfl
  | error f => rfl
  | lifted h => exact absurd h (hc _)

/-- Without new offsets the outcome is the same, unless it is a failure that may be lifted. -/
theorem Follows.eq_or_lifted {x y : Except (Failure Cause) α} (hc : c.start = id) (h : Follows c id x y) :
    y = x ∨ ∃ f, x = .error f ∧ c.lifts f.cause := by
  cases h with
  | ok a => exact Or.inl rfl
  | error f =>
    rw [Failure.place, hc]
    exact Or.inl rfl
  | @lifted f hf => exact Or.inr ⟨f, rfl, hf⟩

end Outcomes

/-- A result with the tokens behind it, carried over. -/
def behind (c : Change) {α : Type} (r : α × List Token) : α × List Token := (r.1, r.2.map (·.place c))

theorem Follows.read {c : Change} {α β γ : Type} {g : β → γ} {x y : Except (Failure Cause) (α × List Token)}
    {k : α × List Token → Except (Failure Cause) β} {k' : α × List Token → Except (Failure Cause) γ}
    (h : Follows c (behind c) x y)
    (hk : ∀ a rest, x = .ok (a, rest) → Follows c g (k (a, rest)) (k' (a, rest.map (·.place c)))) :
    Follows c g (x >>= k) (y >>= k') := by
  refine h.bind fun r hr => ?_
  obtain ⟨a, rest⟩ := r
  exact hk a rest hr

/-- The second run follows the first where it looks up a live symbol. -/
def Agrees (c : Change) (declared declared' : Variables) (ts : List Token) : Prop :=
  ∀ t ∈ live ts, t.NamesSymbol → Follows c id (symbol declared t) (symbol declared' (t.place c))

section Agrees
variable {c : Change} {declared declared' : Variables} {ts us : List Token} {t : Token}

theorem Agrees.head (h : Agrees c declared declared' (t :: ts)) (ht : t.NamesSymbol) :
    Follows c id (symbol declared t) (symbol declared' (t.place c)) := by
  refine h t ?_ ht
  rw [live_cons_of_ne ht.not_subscript]
  exact List.mem_cons_self

theorem Agrees.tail (h : Agrees c declared declared' (t :: ts)) (ht : t.kind ≠ .subscript) :
    Agrees c declared declared' ts := by
  intro u hu
  refine h u ?_
  rw [live_cons_of_ne ht]
  exact List.mem_cons_of_mem _ hu

theorem Agrees.front (h : Agrees c declared declared' (ts ++ us)) : Agrees c declared declared' ts := fun u hu =>
  h u ((live_append_left ts us).subset hu)

theorem Agrees.back (h : Agrees c declared declared' (ts ++ us)) (ha : Aligned ts) :
    Agrees c declared declared' us := by
  intro u hu
  refine h u ?_
  rw [ha]
  exact List.mem_append_right _ hu

theorem Agrees.behind {n : Nat} {k : Category} {d : Dimension} (h : Agrees c declared declared' ts)
    (hr : Reads declared n k ts d us) : Agrees c declared declared' us := by
  obtain ⟨phrase, e, rfl, hd, -, -⟩ := hr
  exact h.back hd.aligned

end Agrees

/-! ### Readers that look up nothing -/

/-- The group with its tokens carried over. -/
def Group.place (c : Change) (g : Group) : Group :=
  ⟨g.inner.map (·.place c), g.close.place c, g.rest.map (·.place c)⟩

section Places
variable {c : Change} {stop start : Int} {tokens : List Token}

theorem split?_place (depth : Nat) (tokens : List Token) :
    Group.split? depth (tokens.map (·.place c)) = (Group.split? depth tokens).map (·.place c) := by
  induction tokens generalizing depth with
  | nil => rfl
  | cons t rest ih =>
    have prepend (n : Nat) : (Group.split? n (rest.map (·.place c))).map (·.prepend (t.place c)) =
        ((Group.split? n rest).map (·.prepend t)).map (·.place c) := by
      rw [ih, Option.map_map, Option.map_map]
      rfl
    cases hc : t.closesGroup with
    | true =>
      simp only [List.map_cons, Group.split?, Token.place_closesGroup, hc, if_true]
      cases depth with
      | zero => rfl
      | succ depth => exact prepend depth
    | false =>
      simp only [List.map_cons, Group.split?, Token.place_closesGroup, Token.place_opensGroup, hc, Bool.false_eq_true,
        if_false]
      exact prepend _

theorem firstDenied?_place (ts : List Token) :
    firstDenied? (ts.map (·.place c)) = (firstDenied? ts).map fun hit => (hit.1, c.start hit.2) := by
  induction ts with
  | nil => rfl
  | cons t ts ih =>
    unfold firstDenied? at ih ⊢
    rw [List.map_cons, List.findSome?_cons, List.findSome?_cons, Token.place_denied?]
    cases t.denied? with
    | none => exact ih
    | some name => rfl

theorem skipSubscript_follows : Follows c (List.map (·.place c)) (skipSubscript tokens)
    (skipSubscript (tokens.map (·.place c))) := by
  cases tokens with
  | nil => exact .ok []
  | cons mark tail =>
    simp only [skipSubscript, List.map_cons, Token.place_kind]
    refine .ite (fun _ => ?_) fun _ => .ok (mark :: tail)
    cases tail with
    | nil => exact .error _
    | cons t tail =>
      simp only [List.map_cons, Token.place_opensGroup, split?_place]
      refine .ite (fun _ => ?_) fun _ => .ok tail
      cases Group.split? 0 tail with
      | none => exact .error _
      | some g => exact .ok g.rest

theorem isSignedNumber_place (ts : List Token) : isSignedNumber (ts.map (·.place c)) = isSignedNumber ts := by
  rcases ts with _ | ⟨s, _ | ⟨t, _ | ⟨u, ts⟩⟩⟩ <;> rfl

theorem exponentNumber_follows (text : String) :
    Follows c id (exponentNumber start text) (exponentNumber (c.start start) text) := by
  unfold exponentNumber
  cases Binary64.read? text.toList with
  | none => exact .error _
  | some x => exact .ok x

theorem exponent_follows :
    Follows c (behind c) (exponent start tokens) (exponent (c.start start) (tokens.map (·.place c))) := by
  cases tokens with
  | nil => exact .error _
  | cons t tail =>
    simp only [exponent, List.map_cons, Token.place_kind, Token.place_text, Token.place_opensGroup, split?_place]
    refine .ite (fun _ => (exponentNumber_follows t.text).map fun _ => rfl) fun _ => ?_
    refine .ite (fun _ => ?_) fun _ => .error _
    cases Group.split? 0 tail with
    | none => exact .error _
    | some g =>
      have htexts : (g.inner.map (·.place c)).map (·.text) = g.inner.map (·.text) := by
        rw [List.map_map]
        rfl
      simp only [Option.map_some, Group.place, isSignedNumber_place, htexts]
      exact .ite (fun _ => (exponentNumber_follows _).map fun _ => rfl) fun _ => .error _

theorem combined_follows (result : Except Overflow Dimension) (rest : List Token) :
    Follows c (behind c) (combined start result rest) (combined (c.start start) result (rest.map (·.place c))) := by
  cases result with
  | ok d => exact .ok (d, rest)
  | error o => exact .error _

end Places

/-! ### Readers -/

/-- The second reader follows the first on tokens whose symbols agree. -/
def ReaderFollows (c : Change) (declared declared' : Variables) (read read' : Reader) : Prop :=
  ∀ stop tokens, Agrees c declared declared' tokens →
    Follows c (behind c) (read stop tokens) (read' (c.start stop) (tokens.map (·.place c)))

/-- The same of the readers for what is inside a group, where there may be none. -/
inductive InnerFollows (c : Change) (scope scope' : Scope) : Option Reader → Option Reader → Prop where
  | none (h : scope.limit = scope'.limit) : InnerFollows c scope scope' none none
  | lifted (h : c.lifts (.tooDeep scope.limit.levels)) (inner' : Option Reader) :
      InnerFollows c scope scope' none inner'
  | some {read read' : Reader} (h : ReaderFollows c scope.declared scope'.declared read read') :
      InnerFollows c scope scope' (some read) (some read')

theorem complete_follows {c : Change} {read read' : Reader} {stop : Int} {tokens : List Token}
    (h : (∀ t ∈ tokens, t.denied? = none) →
      Follows c (behind c) (read stop tokens) (read' (c.start stop) (tokens.map (·.place c)))) :
    Follows c id (complete read stop tokens) (complete read' (c.start stop) (tokens.map (·.place c))) := by
  unfold complete
  cases tokens with
  | nil => exact .error _
  | cons t tail =>
    rw [firstDenied?_place]
    cases hd : firstDenied? (t :: tail) with
    | some hit => exact .error _
    | none =>
      refine (h (firstDenied?_eq_none.mp hd)).read fun d rest _ => ?_
      cases rest with
      | nil => exact .ok d
      | cons u rest => exact .error _

section Readers
variable {c : Change} {scope scope' : Scope} {inner inner' : Option Reader} {n : Nat} {stop start : Int}
  {tokens : List Token}

theorem group_follows (hi : InnerFollows c scope scope' inner inner') (brace : Token)
    (h : Agrees c scope.declared scope'.declared tokens) :
    Follows c (behind c) (group scope.limit inner brace tokens)
      (group scope'.limit inner' (brace.place c) (tokens.map (·.place c))) := by
  unfold group
  rw [split?_place]
  cases hg : Group.split? 0 tokens with
  | none => exact .error _
  | some g =>
    cases hi with
    | none hl =>
      rw [← hl]
      exact .error _
    | lifted hl => exact .lifted hl _
    | some hread =>
      obtain ⟨rfl, -, -⟩ := split?_eq_some hg
      exact (complete_follows fun _ => hread _ _ h.front).map fun _ => rfl

theorem operand_follows (hi : InnerFollows c scope scope' inner inner')
    (h : Agrees c scope.declared scope'.declared tokens) :
    Follows c (behind c) (operand scope.limit inner start tokens)
      (operand scope'.limit inner' (c.start start) (tokens.map (·.place c))) := by
  cases tokens with
  | nil => exact .error _
  | cons t tail =>
    simp only [operand, List.map_cons, Token.place_opensGroup]
    refine .ite (fun ht => ?_) fun _ => .error _
    exact group_follows hi t (h.tail (Token.not_subscript_of_isOperator ht))

theorem named_follows {t : Token} (ht : t.NamesSymbol) (h : Agrees c scope.declared scope'.declared (t :: tokens)) :
    Follows c (behind c)
      (do let rest ← skipSubscript tokens
          let d ← symbol scope.declared t
          .ok (d, rest))
      (do let rest ← skipSubscript (tokens.map (·.place c))
          let d ← symbol scope'.declared (t.place c)
          .ok (d, rest)) :=
  skipSubscript_follows.bind fun rest _ => (h.head ht).bind fun d _ => .ok (d, rest)

theorem primary_follows (hs : SoundBelow scope.declared n inner) (hi : InnerFollows c scope scope' inner inner')
    (h : Agrees c scope.declared scope'.declared tokens) :
    Follows c (behind c) (primary scope inner stop tokens)
      (primary scope' inner' (c.start stop) (tokens.map (·.place c))) := by
  cases tokens with
  | nil => exact .error _
  | cons t tail =>
    simp only [primary, List.map_cons, Token.place_kind, Token.place_text, Token.place_opensGroup, Token.place_start]
    cases hk : t.kind with
    | number => exact .ok (Dimension.one, tail)
    | identifier => exact named_follows (Or.inl hk) h
    | command =>
      refine .ite (fun _ => ?_) fun htext => named_follows (Or.inr ⟨hk, htext⟩) h
      have htail : Agrees c scope.declared scope'.declared tail := h.tail (by simp [hk])
      refine (operand_follows hi htail).read fun a rest habove => ?_
      refine (operand_follows hi (htail.behind (operand_reads hs habove))).read fun b rest _ => ?_
      exact combined_follows _ rest
    | operator =>
      have htail : Agrees c scope.declared scope'.declared tail := h.tail (by simp [hk])
      refine .ite (fun _ => ?_) fun _ => .ite (fun _ => group_follows hi t htail) fun _ => .error _
      cases hi with
      | none hl =>
        rw [← hl]
        exact .error _
      | lifted hl => exact .lifted hl _
      | some hread =>
        refine (hread stop tail htail).read fun d rest _ => ?_
        cases rest with
        | nil => exact .error _
        | cons r rest => exact .ite (fun _ => .ok (d, rest)) fun _ => .error _
    | subscript => exact .error _

theorem factor_follows (hs : SoundBelow scope.declared n inner) (hi : InnerFollows c scope scope' inner inner')
    (h : Agrees c scope.declared scope'.declared tokens) :
    Follows c (behind c) (factor scope inner stop tokens)
      (factor scope' inner' (c.start stop) (tokens.map (·.place c))) := by
  refine (primary_follows hs hi h).read fun d rest _ => ?_
  cases rest with
  | nil => exact .ok (d, [])
  | cons t rest =>
    simp only [List.map_cons, Token.place_isOperator, Token.place_start]
    refine .ite (fun _ => ?_) fun _ => .ok (d, t :: rest)
    refine exponent_follows.read fun x rest _ => ?_
    cases d.pow? x with
    | none => exact .error _
    | some d => exact .ok (d, rest)

theorem round_follows (hs : SoundBelow scope.declared n inner) (hi : InnerFollows c scope scope' inner inner')
    (op : Dimension → Except Overflow Dimension) (h : Agrees c scope.declared scope'.declared tokens)
    {k k' : Dimension → List Token → Reading} (hk : ∀ d rest, Agrees c scope.declared scope'.declared rest →
      Follows c (behind c) (k d rest) (k' d (rest.map (·.place c)))) :
    Follows c (behind c)
      (do let (b, rest) ← factor scope inner stop tokens
          let (d, rest) ← combined start (op b) rest
          k d rest)
      (do let (b, rest) ← factor scope' inner' (c.start stop) (tokens.map (·.place c))
          let (d, rest) ← combined (c.start start) (op b) rest
          k' d rest) := by
  refine (factor_follows hs hi h).read fun b rest hb => ?_
  refine (combined_follows _ rest).read fun d rest' hd => ?_
  obtain ⟨-, rfl⟩ := combined_eq_ok.mp hd
  exact hk d rest (h.behind (factor_reads hs hb))

theorem factors_follows (hs : SoundBelow scope.declared n inner) (hi : InnerFollows c scope scope' inner inner')
    (bound : Nat) (d : Dimension) (h : Agrees c scope.declared scope'.declared tokens) :
    Follows c (behind c) (factors scope inner stop bound d tokens)
      (factors scope' inner' (c.start stop) bound d (tokens.map (·.place c))) := by
  induction bound generalizing d tokens with
  | zero => exact .ok (d, tokens)
  | succ bound ih =>
    cases tokens with
    | nil => exact .ok (d, [])
    | cons t tail =>
      simp only [factors, List.map_cons, Token.place_isOperator, Token.place_startsFactor, Token.place_start]
      refine .ite (fun ht => ?_) fun _ => .ite (fun ht => ?_) fun _ => .ite (fun _ => ?_) fun _ => .ok (d, t :: tail)
      · exact round_follows hs hi _ (h.tail (Token.not_subscript_of_isOperator ht)) fun d _ => ih d
      · exact round_follows hs hi _ (h.tail (Token.not_subscript_of_isOperator ht)) fun d _ => ih d
      · exact round_follows hs hi _ h fun d _ => ih d

theorem term_follows (hs : SoundBelow scope.declared n inner) (hi : InnerFollows c scope scope' inner inner')
    (h : Agrees c scope.declared scope'.declared tokens) :
    Follows c (behind c) (term scope inner stop tokens)
      (term scope' inner' (c.start stop) (tokens.map (·.place c))) := by
  refine (factor_follows hs hi h).read fun d rest hf => ?_
  simp only [List.length_map]
  exact factors_follows hs hi _ d (h.behind (factor_reads hs hf))

theorem terms_follows (hs : SoundBelow scope.declared n inner) (hi : InnerFollows c scope scope' inner inner')
    (bound : Nat) (d : Dimension) (h : Agrees c scope.declared scope'.declared tokens) :
    Follows c (behind c) (terms scope inner stop bound d tokens)
      (terms scope' inner' (c.start stop) bound d (tokens.map (·.place c))) := by
  induction bound generalizing tokens with
  | zero => exact .ok (d, tokens)
  | succ bound ih =>
    cases tokens with
    | nil => exact .ok (d, [])
    | cons t tail =>
      simp only [terms, List.map_cons, Token.place_isSign, Token.place_text, Token.place_start]
      refine .ite (fun ht => ?_) fun _ => .ok (d, t :: tail)
      have htail := h.tail (Token.isSign.not_subscript ht)
      refine (term_follows hs hi htail).read fun e rest he => ?_
      exact .ite (fun _ => ih (htail.behind (term_reads hs he))) fun _ => .error _

theorem dropSign_place (ts : List Token) : dropSign (ts.map (·.place c)) = (dropSign ts).map (·.place c) := by
  cases ts with
  | nil => rfl
  | cons t ts =>
    by_cases ht : t.isSign = true
    · simp [dropSign, ht]
    · simp [dropSign, ht]

theorem Agrees.dropSign (h : Agrees c scope.declared scope'.declared tokens) :
    Agrees c scope.declared scope'.declared (dropSign tokens) := by
  cases tokens with
  | nil => exact h
  | cons t tail =>
    simp only [Markup.dropSign]
    split
    · rename_i ht
      exact h.tail (Token.isSign.not_subscript ht)
    · exact h

theorem sum_follows (hs : SoundBelow scope.declared n inner) (hi : InnerFollows c scope scope' inner inner') :
    ReaderFollows c scope.declared scope'.declared (sum scope inner) (sum scope' inner') := by
  intro stop tokens h
  simp only [sum, dropSign_place]
  refine (term_follows hs hi h.dropSign).read fun d rest ht => ?_
  simp only [List.length_map]
  exact terms_follows hs hi _ d (h.dropSign.behind (term_reads hs ht))

end Readers

/-- The second run has as many levels as the first, or more where a failure for want of levels may be lifted. -/
def LevelsFollow (c : Change) (scope scope' : Scope) (n n' : Nat) : Prop :=
  (n = n' ∧ scope.limit = scope'.limit) ∨ (n ≤ n' ∧ c.lifts (.tooDeep scope.limit.levels))

theorem expression_follows {c : Change} {scope scope' : Scope} {n n' : Nat} (hl : LevelsFollow c scope scope' n n') :
    ReaderFollows c scope.declared scope'.declared (expression scope n) (expression scope' n') := by
  induction n generalizing n' with
  | zero =>
    have hs : SoundBelow scope.declared 0 none := fun _ hr => by cases hr
    rcases hl with ⟨rfl, hl⟩ | ⟨-, hl⟩
    · exact sum_follows hs (.none hl)
    · cases n' with
      | zero => exact sum_follows hs (.lifted hl none)
      | succ n' => exact sum_follows hs (.lifted hl _)
  | succ n ih =>
    have hs : SoundBelow scope.declared (n + 1) (some (expression scope n)) := fun _ hr => by
      cases hr
      exact ⟨n, rfl, expression_sound scope n⟩
    obtain ⟨m, rfl, hm⟩ : ∃ m, n' = m + 1 ∧ LevelsFollow c scope scope' n m := by
      rcases hl with ⟨rfl, hl⟩ | ⟨hle, hl⟩
      · exact ⟨n, rfl, Or.inl ⟨rfl, hl⟩⟩
      · exact ⟨n' - 1, by omega, Or.inr ⟨by omega, hl⟩⟩
    exact sum_follows hs (.some (ih hm))

/-- Two runs on a list of tokens, all of them one expression. What is declared matters only if no token is denied. -/
theorem parseTokens_follows {c : Change} {scope scope' : Scope} {stop : Int} {tokens : List Token}
    (hl : LevelsFollow c scope scope' scope.limit.levels scope'.limit.levels)
    (h : (∀ t ∈ tokens, t.denied? = none) → Agrees c scope.declared scope'.declared tokens) :
    Follows c id (parseTokens scope stop tokens) (parseTokens scope' (c.start stop) (tokens.map (·.place c))) :=
  complete_follows fun hd => expression_follows hl stop tokens (h hd)

/-- Two runs on the same tokens. -/
theorem parseTokens_follows_same {c : Change} {scope scope' : Scope} (hstart : c.start = id) (hstop : c.stop = id)
    (stop : Int) (tokens : List Token) (hl : LevelsFollow c scope scope' scope.limit.levels scope'.limit.levels)
    (h : (∀ t ∈ tokens, t.denied? = none) → Agrees c scope.declared scope'.declared tokens) :
    Follows c id (parseTokens scope stop tokens) (parseTokens scope' stop tokens) := by
  have hrun : Follows c id (parseTokens scope stop tokens)
      (parseTokens scope' (c.start stop) (tokens.map (·.place c))) := parseTokens_follows hl h
  have hplace : tokens.map (·.place c) = tokens := by
    refine (List.map_congr_left fun t _ => ?_).trans (List.map_id tokens)
    rw [Token.place, hstart, hstop]
    rfl
  rwa [hplace, hstart] at hrun

end Markup

end UnitCheck
