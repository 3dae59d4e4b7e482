import UnitCheck.Proofs.Markup.Cursor
import UnitCheck.Proofs.Markup.Fraction

/-! # Ranges of tokens

A reader that moves a cursor through a span ends as the reader does that is given the tokens from the cursor
on (`Mirrors`). So what is read in a range depends on no token outside, and the cursor stands behind what was
read, inside as many groups as before. This is by induction on the levels that are left and, in the loops, on
the tokens that are left, of which each round reads one at least; between two tokens at most six calls nest,
so that the clock a run needs is known from the tokens alone.

On the way the groups that are open are never more than the limit allows. A run that succeeds has left all that it
has entered, and one that fails for want of levels fails where there are as many as may be. -/

namespace UnitCheck.Markup

/-! ### Failures for want of levels -/

/-- The failure is none for want of levels. -/
def Shallow (f : Failure Cause) : Prop := f.cause.code ≠ .tooDeeplyNested

/-- The code of a given cause is computed, so that `rfl` is a proof that it is another one. -/
theorem shallow {f : Failure Cause} (h : decide (f.cause.code = .tooDeeplyNested) = false) : Shallow f :=
  of_decide_eq_false h

theorem shallow_symbol {declared : Variables} (t : Token) : OnError Shallow (symbol declared t) := by
  unfold symbol
  split
  · exact .ok _
  · split
    · exact .error (shallow rfl)
    · exact .error (shallow rfl)

theorem shallow_exponentNumber (start : Int) (text : String) : OnError Shallow (exponentNumber start text) := by
  unfold exponentNumber
  split
  · exact .ok _
  · exact .error (shallow rfl)

/-! ### Runs -/

/-- What came of a run that began inside `depth` groups: it ended as the reading did, with the same failure or with
    results that correspond. -/
inductive Ends (limit : Limit) (depth : Nat) {α β : Type} (R : α → β → Prop) :
    Except (Failure Cause) α → Progress β → Prop where
  | ok {a : α} {b : β} {counts : List Nat} (bounded : ∀ n ∈ counts, n ≤ limit.levels) (h : R a b) :
      Ends limit depth R (.ok a) ⟨some (.ok b), depth, counts⟩
  | error {f : Failure Cause} {count : Nat} {counts : List Nat} (bounded : ∀ n ∈ counts, n ≤ limit.levels)
      (full : ¬Shallow f → count = max depth limit.levels) :
      Ends limit depth R (.error f) ⟨some (.error f), count, counts⟩

/-- The run, inside `depth` groups, ends as the reading does. -/
def Mirrors (limit : Limit) (depth : Nat) {α β : Type} (R : α → β → Prop) (x : Except (Failure Cause) α)
    (y : Attempt β) : Prop :=
  Ends limit depth R x (y depth)

/-- The cursor stands before these tokens of the span, not before the index `low`, and inside `depth` groups. -/
structure Stands (s : Span) (depth low : Nat) (ts : List Token) (c : Cursor) : Prop where
  rest : ts = s.rest c.index
  low : low ≤ c.index
  upto : c.index ≤ s.upto
  depth : c.depth = depth

/-- The same result, and the cursor before the tokens that are left. -/
def Moves (s : Span) (depth low : Nat) {α : Type} (p : α × List Token) (q : α × Cursor) : Prop :=
  p.1 = q.1 ∧ Stands s depth low p.2 q.2

section Outcomes
variable {limit : Limit} {α β γ δ : Type} {R : α → β → Prop} {R' : γ → δ → Prop} {x : Except (Failure Cause) α}
  {y : Attempt β} {s : Span} {depth depth' low : Nat}

theorem Ends.after {p : Progress β} {counts : List Nat} (h : Ends limit depth R x p)
    (hb : ∀ n ∈ counts, n ≤ limit.levels) : Ends limit depth R x ⟨p.outcome, p.count, counts ++ p.counts⟩ := by
  cases h with
  | ok bounded h => exact Ends.ok (List.forall_mem_append.mpr ⟨hb, bounded⟩) h
  | error bounded full => exact Ends.error (List.forall_mem_append.mpr ⟨hb, bounded⟩) full

theorem Mirrors.ok {a : α} {b : β} (h : R a b) : Mirrors limit depth R (.ok a) (Attempt.of (.ok b)) :=
  Ends.ok (List.forall_mem_nil _) h

theorem Mirrors.error {f : Failure Cause} (h : Shallow f) :
    Mirrors limit depth R (.error f) (Attempt.of (.error f) : Attempt β) :=
  Ends.error (List.forall_mem_nil _) fun hf => absurd h hf

/-- At the limit a group is refused, with nothing read of it. -/
theorem Mirrors.refused (f : Failure Cause) (h : limit.levels ≤ depth) :
    Mirrors limit depth R (.error f) (Attempt.of (.error f) : Attempt β) :=
  Ends.error (List.forall_mem_nil _) fun _ => (Nat.max_eq_left h).symm

theorem Mirrors.bind {k : α → Except (Failure Cause) γ} {k' : β → Attempt δ} (h : Mirrors limit depth R x y)
    (hk : ∀ a b, R a b → Mirrors limit depth R' (k a) (k' b)) : Mirrors limit depth R' (x >>= k) (y >>= k') := by
  unfold Mirrors at h ⊢
  generalize hp : y depth = p at h
  cases h with
  | ok bounded h =>
    rw [Attempt.bind_of_ok hp]
    exact Ends.after (hk _ _ h) bounded
  | error bounded full =>
    rw [Attempt.bind_of_error hp]
    exact Ends.error bounded full

/-- A run inside one more group, where the limit allows one. -/
theorem Mirrors.inside (hlt : depth < limit.levels) (h : Mirrors limit (depth + 1) R x y) :
    Mirrors limit depth R x (Attempt.inside y) := by
  have hmax : max (depth + 1) limit.levels = max depth limit.levels := by omega
  have henter : ∀ n ∈ [depth + 1], n ≤ limit.levels := List.forall_mem_singleton.mpr hlt
  have hleave : ∀ n ∈ [depth], n ≤ limit.levels := List.forall_mem_singleton.mpr (Nat.le_of_lt hlt)
  unfold Mirrors at h ⊢
  generalize hp : y (depth + 1) = p at h
  cases h with
  | @ok a b counts bounded h =>
    have hrun : Attempt.inside y depth = ⟨some (.ok b), depth, [depth + 1] ++ (counts ++ [depth])⟩ := by
      simp [Attempt.inside, Bind.bind, Pure.pure, Attempt.enter, Attempt.leave, Attempt.of, hp]
    rw [hrun]
    exact Ends.ok (List.forall_mem_append.mpr ⟨henter, List.forall_mem_append.mpr ⟨bounded, hleave⟩⟩) h
  | @error f count counts bounded full =>
    have hrun : Attempt.inside y depth = ⟨some (.error f), count, [depth + 1] ++ counts⟩ := by
      simp [Attempt.inside, Bind.bind, Attempt.enter, hp]
    rw [hrun]
    exact Ends.error (List.forall_mem_append.mpr ⟨henter, bounded⟩) fun hf => (full hf).trans hmax

theorem Mirrors.ite {x' : Except (Failure Cause) α} {y' : Attempt β} {p : Prop} [Decidable p]
    (ht : p → Mirrors limit depth R x y) (hf : ¬p → Mirrors limit depth R x' y') :
    Mirrors limit depth R (if p then x else x') (if p then y else y') := by
  by_cases hp : p
  · rw [if_pos hp, if_pos hp]
    exact ht hp
  · rw [if_neg hp, if_neg hp]
    exact hf hp

/-- What looks at no token is the same for both. -/
theorem Mirrors.same (h : OnError Shallow x) : Mirrors limit depth Eq x (Attempt.of x) := by
  cases x with
  | error f => exact .error (h f rfl)
  | ok a => exact .ok rfl

theorem Stands.at {i : Nat} {ts : List Token} (hr : s.rest i = ts) (hlow : low ≤ i) (hi : i ≤ s.upto) :
    Stands s depth low ts ⟨i, depth⟩ :=
  ⟨hr.symm, hlow, hi, rfl⟩

theorem Mirrors.at {i : Nat} {ts : List Token} (a : α) (hr : s.rest i = ts) (hlow : low ≤ i) (hi : i ≤ s.upto) :
    Mirrors limit depth (Moves s depth low) (.ok (a, ts)) (Attempt.of (.ok (a, ⟨i, depth⟩))) :=
  .ok ⟨rfl, .at hr hlow hi⟩

theorem Mirrors.read {x : Except (Failure Cause) (α × List Token)} {y : Attempt (α × Cursor)}
    {k : α × List Token → Except (Failure Cause) γ} {k' : α × Cursor → Attempt δ}
    (h : Mirrors limit depth (Moves s depth' low) x y)
    (hk : ∀ a i, low ≤ i → i ≤ s.upto → Mirrors limit depth R' (k (a, s.rest i)) (k' (a, ⟨i, depth'⟩))) :
    Mirrors limit depth R' (x >>= k) (y >>= k') := by
  refine h.bind fun ⟨a, ts⟩ ⟨b, i, n⟩ ⟨hab, hrest, hlow, hi, hdepth⟩ => ?_
  cases hab
  cases hrest
  cases hdepth
  exact hk a i hlow hi

theorem Mirrors.map {ts : List Token} {c : Cursor} (hx : OnError Shallow x) (h : Stands s depth low ts c) :
    Mirrors limit depth (Moves s depth low) (x.map (·, ts)) (Attempt.of x >>= fun a => Attempt.of (.ok (a, c))) := by
  cases x with
  | error f => exact .error (hx f rfl)
  | ok a => exact .ok ⟨rfl, h⟩

theorem Mirrors.later {x : Except (Failure Cause) (α × List Token)} {y : Attempt (α × Cursor)} {low' : Nat}
    (h : Mirrors limit depth (Moves s depth low) x y) (hlow : low' ≤ low) :
    Mirrors limit depth (Moves s depth low') x y := by
  unfold Mirrors at h ⊢
  generalize y depth = p at h
  cases h with
  | ok bounded h => exact Ends.ok bounded ⟨h.1, h.2.rest, Nat.le_trans hlow h.2.low, h.2.upto, h.2.depth⟩
  | error bounded full => exact Ends.error bounded full

end Outcomes

/-! ### Readers that open no group -/

section Spans
variable {limit : Limit} {s : Span} {depth low i : Nat}

/-- A group is left in the same way, whether the tokens are split or its brace is matched. -/
theorem matching_mirrors {α β : Type} {R : α → β → Prop} {t : Token} {k : Group → Except (Failure Cause) α}
    {k' : Fin s.upto → Attempt β} (ht : s.peek? i = some t) (ho : t.opensGroup = true)
    (hk : ∀ close : Fin s.upto, i < close → Mirrors limit depth R (k (s.groupTo (i + 1) close)) (k' close)) :
    Mirrors limit depth R
      (match Group.split? 0 (s.rest (i + 1)) with
        | none => .error ⟨.unbalancedBraces, t.start⟩
        | some g => k g)
      (Attempt.of (s.matching i) >>= k') := by
  obtain ⟨close, hclose, hmatch, hsplit⟩ | ⟨hmatch, hsplit⟩ := Span.matching_cases ht ho
  · rw [hmatch, hsplit]
    exact hk close hclose
  · rw [hmatch, hsplit]
    exact .error (shallow rfl)

theorem skipSubscript_mirrors (hi : i ≤ s.upto) :
    Mirrors limit depth (Stands s depth i) (skipSubscript (s.rest i)) (Attempt.of (s.skipSubscript ⟨i, depth⟩)) := by
  obtain ⟨-, hp, hr⟩ | ⟨mark, hmark, hp, hr⟩ := s.peek_cases i
  · rw [Span.skipSubscript, hp, hr]
    exact .ok (.at hr (Nat.le_refl i) hi)
  · rw [Span.skipSubscript, hp, hr]
    simp only [skipSubscript, apply_ite Attempt.of]
    refine .ite (fun _ => ?_) fun _ => .ok (.at hr (Nat.le_refl i) hi)
    obtain ⟨-, hp', hr'⟩ | ⟨t, ht, hp', hr'⟩ := s.peek_cases (i + 1)
    · rw [hp', hr']
      exact .error (shallow rfl)
    · rw [hp', hr']
      simp only [apply_ite Attempt.of, Attempt.of_bind]
      refine .ite (fun ho => matching_mirrors hp' ho fun close hclose => ?_) fun _ => ?_
      · have hlow : i ≤ close + 1 := by omega
        exact .ok (.at rfl hlow close.isLt)
      · exact .ok (.at rfl (Nat.le_add_right i 2) ht)

theorem exponent_mirrors (start : Int) :
    Mirrors limit depth (Moves s depth (i + 1)) (exponent start (s.rest i))
      (Attempt.of (s.exponent start ⟨i, depth⟩)) := by
  obtain ⟨-, hp, hr⟩ | ⟨t, hi, hp, hr⟩ := s.peek_cases i
  · rw [Span.exponent, hp, hr]
    exact .error (shallow rfl)
  · rw [Span.exponent, hp, hr]
    simp only [exponent, apply_ite Attempt.of, Attempt.of_bind]
    refine .ite (fun _ => .map (shallow_exponentNumber _ _) (.at rfl (Nat.le_refl _) hi)) fun _ => ?_
    refine .ite (fun ho => matching_mirrors hp ho fun close hclose => ?_) fun _ => .error (shallow rfl)
    have hlow : i + 1 ≤ close + 1 := Nat.succ_le_succ (Nat.le_of_lt hclose)
    dsimp only [Span.groupTo]
    exact .ite (fun _ => .map (shallow_exponentNumber _ _) (.at rfl hlow close.isLt)) fun _ => .error (shallow rfl)

theorem combined_mirrors (start : Int) (result : Except Overflow Dimension) (hlow : low ≤ i) (hi : i ≤ s.upto) :
    Mirrors limit depth (Moves s depth low) (combined start result (s.rest i))
      (Attempt.of (Span.combine start result) >>= fun d => pure (d, ⟨i, depth⟩)) := by
  cases result with
  | error o => exact .error (shallow rfl)
  | ok d => exact .at d rfl hlow hi

end Spans

/-! ### Groups -/

/-- With one group more open, the cursor's reader of sums does as this reader, when the clock is not short. -/
def MirrorsBelow (scope : Scope) (depth : Nat) (read : Reader) : Prop :=
  ∀ (s : Span) (i clock : Nat), 6 * (s.upto - i) + 4 ≤ clock →
    Mirrors scope.limit (depth + 1) (Moves s (depth + 1) (i + 1)) (read s.stop (s.rest i))
      (s.sum scope clock ⟨i, depth + 1⟩)

/-- What there is to read a group with, inside `depth` groups. -/
inductive Inner (scope : Scope) (depth : Nat) : Option Reader → Prop where
  | none (h : scope.limit.levels ≤ depth) : Inner scope depth none
  | some {read : Reader} (hdepth : depth < scope.limit.levels) (h : MirrorsBelow scope depth read) :
      Inner scope depth (some read)

theorem complete_mirrors {scope : Scope} {depth i clock : Nat} {s : Span} {read : Reader}
    (h : Mirrors scope.limit depth (Moves s depth (i + 1)) (read s.stop (s.rest i)) (s.sum scope clock ⟨i, depth⟩)) :
    Mirrors scope.limit depth Eq (complete read s.stop (s.rest i)) (s.complete scope (clock + 1) ⟨i, depth⟩) := by
  obtain ⟨hle, -, hr⟩ | ⟨t, hlt, -, hr⟩ := s.peek_cases i
  · rw [Span.complete, complete, if_pos hle, hr]
    exact .error (shallow rfl)
  · have hnonempty : (s.rest i).isEmpty = false := by rw [hr, List.isEmpty_cons]
    rw [Span.complete, complete, if_neg (Nat.not_le_of_lt hlt), hnonempty]
    simp only [Bool.false_eq_true, if_false]
    cases firstDenied? (s.rest i) with
    | some hit => exact .error (shallow rfl)
    | none =>
      refine h.read fun d j _ _ => ?_
      obtain ⟨-, hp', hr'⟩ | ⟨u, -, hp', hr'⟩ := s.peek_cases j
      · rw [hp', hr']
        exact .ok rfl
      · rw [hp', hr']
        exact .error (shallow rfl)

section Readers
variable {scope : Scope} {s : Span} {depth low i clock : Nat} {inner : Option Reader}

theorem group_mirrors (hi : Inner scope depth inner) {t : Token} (hlt : i < s.upto) (hp : s.peek? i = some t)
    (ho : t.opensGroup = true) (hclock : 6 * (s.upto - i) ≤ clock) :
    Mirrors scope.limit depth (Moves s depth (i + 1)) (group scope.limit inner t (s.rest (i + 1)))
      (s.group scope clock ⟨i, depth⟩) := by
  obtain ⟨clock, rfl⟩ : ∃ n, clock = n + 2 := Nat.exists_eq_add_of_le' (by omega)
  rw [Span.group]
  refine matching_mirrors hp ho fun close hclose => ?_
  cases hi with
  | none h =>
    rw [Span.nested, if_pos h, Span.position_of_peek? hp]
    exact .refused _ h
  | @some read hdepth h =>
    have hless : 6 * ((s.before close).upto - (i + 1)) + 4 ≤ clock := by
      have hupto : (s.before close).upto < s.upto := close.isLt
      omega
    have hinner : Mirrors scope.limit (depth + 1) Eq
        (complete read (s.token close).start ((s.before close).rest (i + 1)))
        ((s.before close).complete scope (clock + 1) ⟨i + 1, depth + 1⟩) := complete_mirrors (h _ _ _ hless)
    rw [Span.nested, if_neg (Nat.not_le_of_lt hdepth)]
    dsimp only
    rw [map_eq_bind]
    refine (hinner.inside hdepth).bind fun d d' hd => .ok ⟨hd, .at rfl ?_ close.isLt⟩
    exact Nat.succ_le_succ (Nat.le_of_lt hclose)

theorem operand_mirrors (hi : Inner scope depth inner) (start : Int) (hclock : 6 * (s.upto - i) + 1 ≤ clock) :
    Mirrors scope.limit depth (Moves s depth (i + 1)) (operand scope.limit inner start (s.rest i))
      (s.operand scope clock start ⟨i, depth⟩) := by
  obtain ⟨clock, rfl⟩ : ∃ n, clock = n + 1 := Nat.exists_eq_add_of_le' (by omega)
  obtain ⟨-, hp, hr⟩ | ⟨t, hlt, hp, hr⟩ := s.peek_cases i
  · rw [Span.operand, hp, hr]
    exact .error (shallow rfl)
  · rw [Span.operand, hp, hr]
    exact .ite (fun ho => group_mirrors hi hlt hp ho (by omega)) fun _ => .error (shallow rfl)

theorem symbol_mirrors (t : Token) (hi : i ≤ s.upto) :
    Mirrors scope.limit depth (Moves s depth i)
      (do let rest ← skipSubscript (s.rest i)
          let d ← symbol scope.declared t
          .ok (d, rest))
      (do let c ← Attempt.of (s.skipSubscript ⟨i, depth⟩)
          let d ← Attempt.of (symbol scope.declared t)
          pure (d, c)) := by
  refine (skipSubscript_mirrors hi).bind fun ts c hc => (Mirrors.same (shallow_symbol t)).bind fun d _ hd => ?_
  exact .ok ⟨hd, hc⟩

theorem primary_mirrors (hi : Inner scope depth inner) (hclock : 6 * (s.upto - i) + 1 ≤ clock) :
    Mirrors scope.limit depth (Moves s depth (i + 1)) (primary scope inner s.stop (s.rest i))
      (s.primary scope clock ⟨i, depth⟩) := by
  obtain ⟨clock, rfl⟩ : ∃ n, clock = n + 1 := Nat.exists_eq_add_of_le' (by omega)
  obtain ⟨-, hp, hr⟩ | ⟨t, hlt, hp, hr⟩ := s.peek_cases i
  · rw [Span.primary, hp, hr]
    exact .error (shallow rfl)
  · have hoperand {j : Nat} (hj : i < j) : Mirrors scope.limit depth (Moves s depth (j + 1))
        (operand scope.limit inner t.start (s.rest j)) (s.operand scope clock t.start ⟨j, depth⟩) :=
      operand_mirrors hi t.start (by omega)
    rw [Span.primary, hp, hr]
    simp only [primary]
    cases hk : t.kind with
    | number => exact .at _ rfl (Nat.le_refl _) hlt
    | identifier => exact symbol_mirrors t hlt
    | command =>
      refine .ite (fun _ => ?_) fun _ => symbol_mirrors t hlt
      refine (hoperand (Nat.lt_succ_self i)).read fun above j hj _ => ?_
      have hij : i + 1 ≤ j := Nat.le_of_succ_le hj
      refine ((hoperand hij).later (Nat.le_succ_of_le hij)).read fun below k hk hkupto => ?_
      exact combined_mirrors _ _ hk hkupto
    | operator =>
      refine .ite (fun _ => ?_) fun _ =>
        .ite (fun ho => group_mirrors hi hlt hp ho (by omega)) fun _ => .error (shallow rfl)
      cases hi with
      | none h =>
        rw [Span.nested, if_pos h, Span.position_of_peek? hp]
        exact .refused _ h
      | some hdepth h =>
        rw [Span.nested, if_neg (Nat.not_le_of_lt hdepth)]
        refine ((h s (i + 1) clock (by omega)).inside hdepth).read fun d j hj _ => ?_
        obtain ⟨-, hp', hr'⟩ | ⟨u, hlt', hp', hr'⟩ := s.peek_cases j
        · rw [hp', hr']
          exact .error (shallow rfl)
        · rw [hp', hr']
          exact .ite (fun _ => .at d rfl (Nat.le_succ_of_le (Nat.le_of_succ_le hj)) hlt') fun _ => .error (shallow rfl)
    | subscript => exact .error (shallow rfl)

theorem factor_mirrors (hi : Inner scope depth inner) (hclock : 6 * (s.upto - i) + 2 ≤ clock) :
    Mirrors scope.limit depth (Moves s depth (i + 1)) (factor scope inner s.stop (s.rest i))
      (s.factor scope clock ⟨i, depth⟩) := by
  obtain ⟨clock, rfl⟩ : ∃ n, clock = n + 1 := Nat.exists_eq_add_of_le' (by omega)
  rw [Span.factor]
  refine (primary_mirrors hi (by omega)).read fun d j hj hupto => ?_
  dsimp only
  obtain ⟨-, hp, hr⟩ | ⟨t, hlt, hp, hr⟩ := s.peek_cases j
  · rw [hp, hr]
    exact .at d hr hj hupto
  · rw [hp, hr]
    refine .ite (fun _ => ?_) fun _ => .at d hr hj hupto
    refine (exponent_mirrors t.start).read fun x k hk hkupto => ?_
    cases d.pow? x with
    | none => exact .error (shallow rfl)
    | some d => exact .at d rfl (by omega) hkupto

/-- One round of the loop in a product: a factor, what its dimension is combined to, and the rounds behind it. -/
theorem round_mirrors (hi : Inner scope depth inner) {bound : Nat} (start : Int)
    (op : Dimension → Except Overflow Dimension) (hclock : 6 * (s.upto - i) + 2 ≤ clock)
    (hmore : ∀ d j, i < j → j ≤ s.upto →
      Mirrors scope.limit depth (Moves s depth low) (factors scope inner s.stop bound d (s.rest j))
        (s.factors scope clock d ⟨j, depth⟩)) :
    Mirrors scope.limit depth (Moves s depth low)
      (do let (e, rest) ← factor scope inner s.stop (s.rest i)
          let (d, rest) ← combined start (op e) rest
          factors scope inner s.stop bound d rest)
      (do let (e, c) ← s.factor scope clock ⟨i, depth⟩
          let d ← Attempt.of (Span.combine start (op e))
          s.factors scope clock d c) := by
  refine (factor_mirrors hi hclock).read fun e j hj hupto => ?_
  dsimp only
  cases op e with
  | error o => exact .error (shallow rfl)
  | ok d => exact hmore d j hj hupto

theorem factors_mirrors (hi : Inner scope depth inner) {bound : Nat} (d : Dimension) (hbound : s.upto - i ≤ bound)
    (hlow : low ≤ i) (hupto : i ≤ s.upto) (hclock : 6 * (s.upto - i) + 3 ≤ clock) :
    Mirrors scope.limit depth (Moves s depth low) (factors scope inner s.stop bound d (s.rest i))
      (s.factors scope clock d ⟨i, depth⟩) := by
  induction bound generalizing d i clock with
  | zero =>
    obtain ⟨clock, rfl⟩ : ∃ n, clock = n + 1 := Nat.exists_eq_add_of_le' (by omega)
    have hend : s.upto ≤ i := Nat.le_of_sub_eq_zero (Nat.le_zero.mp hbound)
    rw [Span.factors, Span.peek?_of_le hend, factors]
    exact .at d rfl hlow hupto
  | succ bound ih =>
    obtain ⟨clock, rfl⟩ : ∃ n, clock = n + 1 := Nat.exists_eq_add_of_le' (by omega)
    obtain ⟨-, hp, hr⟩ | ⟨t, hlt, hp, hr⟩ := s.peek_cases i
    · rw [Span.factors, hp, hr]
      exact .at d hr hlow hupto
    · have hnext (d : Dimension) (j : Nat) (hj : i < j) (hj' : j ≤ s.upto) :
          Mirrors scope.limit depth (Moves s depth low) (factors scope inner s.stop bound d (s.rest j))
            (s.factors scope clock d ⟨j, depth⟩) :=
        ih d (by omega) (Nat.le_trans hlow (Nat.le_of_lt hj)) hj' (by omega)
      rw [Span.factors, hp, hr]
      simp only [factors]
      refine .ite (fun _ => ?_) fun _ => .ite (fun _ => ?_) fun _ => .ite (fun _ => ?_) fun _ => ?_
      · exact round_mirrors hi t.start d.mul (by omega) fun d j hj => hnext d j (Nat.lt_of_succ_lt hj)
      · exact round_mirrors hi t.start d.div (by omega) fun d j hj => hnext d j (Nat.lt_of_succ_lt hj)
      · rw [← hr]
        exact round_mirrors hi t.start d.mul (by omega) hnext
      · exact .at d hr hlow hupto

theorem term_mirrors (hi : Inner scope depth inner) (hclock : 6 * (s.upto - i) + 3 ≤ clock) :
    Mirrors scope.limit depth (Moves s depth (i + 1)) (term scope inner s.stop (s.rest i))
      (s.term scope clock ⟨i, depth⟩) := by
  obtain ⟨clock, rfl⟩ : ∃ n, clock = n + 1 := Nat.exists_eq_add_of_le' (by omega)
  rw [Span.term]
  refine (factor_mirrors hi (by omega)).read fun d j hj hupto => ?_
  exact factors_mirrors hi d (Nat.le_of_eq (Span.rest_length s j).symm) hj hupto (by omega)

theorem terms_mirrors (hi : Inner scope depth inner) {bound : Nat} (d : Dimension) (hbound : s.upto - i ≤ bound)
    (hlow : low ≤ i) (hupto : i ≤ s.upto) (hclock : 6 * (s.upto - i) + 1 ≤ clock) :
    Mirrors scope.limit depth (Moves s depth low) (terms scope inner s.stop bound d (s.rest i))
      (s.terms scope clock d ⟨i, depth⟩) := by
  induction bound generalizing d i clock with
  | zero =>
    obtain ⟨clock, rfl⟩ : ∃ n, clock = n + 1 := Nat.exists_eq_add_of_le' (by omega)
    have hend : s.upto ≤ i := Nat.le_of_sub_eq_zero (Nat.le_zero.mp hbound)
    rw [Span.terms, Span.peek?_of_le hend, terms]
    exact .at d rfl hlow hupto
  | succ bound ih =>
    obtain ⟨clock, rfl⟩ : ∃ n, clock = n + 1 := Nat.exists_eq_add_of_le' (by omega)
    obtain ⟨-, hp, hr⟩ | ⟨t, hlt, hp, hr⟩ := s.peek_cases i
    · rw [Span.terms, hp, hr]
      exact .at d hr hlow hupto
    · rw [Span.terms, hp, hr]
      simp only [terms]
      refine .ite (fun _ => ?_) fun _ => .at d hr hlow hupto
      refine (term_mirrors hi (by omega)).read fun e j hj hj' => .ite (fun _ => ?_) fun _ => .error (shallow rfl)
      exact ih d (by omega) (by omega) hj' (by omega)

theorem sum_mirrors (hi : Inner scope depth inner) (hclock : 6 * (s.upto - i) + 4 ≤ clock) :
    Mirrors scope.limit depth (Moves s depth (i + 1)) (sum scope inner s.stop (s.rest i))
      (s.sum scope clock ⟨i, depth⟩) := by
  obtain ⟨clock, rfl⟩ : ∃ n, clock = n + 1 := Nat.exists_eq_add_of_le' (by omega)
  have hterms (j : Nat) (hj : i ≤ j) : Mirrors scope.limit depth (Moves s depth (i + 1))
      (do let (d, rest) ← term scope inner s.stop (s.rest j)
          terms scope inner s.stop rest.length d rest)
      (do let (d, c) ← s.term scope clock ⟨j, depth⟩
          s.terms scope clock d c) := by
    refine (term_mirrors hi (by omega)).read fun d k hk hupto => ?_
    exact terms_mirrors hi d (Nat.le_of_eq (Span.rest_length s k).symm) (by omega) hupto (by omega)
  rw [Span.sum, sum]
  obtain ⟨-, hp, hr⟩ | ⟨t, hlt, hp, hr⟩ := s.peek_cases i
  · rw [hp, hr, dropSign, ← hr]
    exact hterms i (Nat.le_refl i)
  · rw [hp, hr, dropSign, Option.any_some, ← hr]
    cases t.isSign with
    | true => exact hterms (i + 1) (Nat.le_succ i)
    | false => exact hterms i (Nat.le_refl i)

end Readers

/-! ### Every range -/

theorem inner_below (scope : Scope) (depth : Nat) : Inner scope depth (below scope (scope.limit.levels - depth)) := by
  induction hn : scope.limit.levels - depth generalizing depth with
  | zero => exact .none (Nat.le_of_sub_eq_zero hn)
  | succ n ih =>
    have hinner : Inner scope (depth + 1) (below scope n) := ih (depth + 1) (by omega)
    refine .some (by omega) fun s i clock hclock => ?_
    rw [expression_eq]
    exact sum_mirrors hinner hclock

/-- The run fails as the reading does, or it gives the same dimension and leaves the cursor before the same tokens,
    further on in the span and inside as many groups as before, with all those left that it has entered. -/
def Advances (s : Span) (c : Cursor) (reading : Reading) (run : Attempt (Dimension × Cursor)) : Prop :=
  (∃ f, reading = .error f ∧ (run c.depth).outcome = some (.error f)) ∨
  ∃ d c', reading = .ok (d, s.rest c'.index) ∧ (run c.depth).outcome = some (.ok (d, c')) ∧
    c.index < c'.index ∧ c'.index ≤ s.upto ∧ c'.depth = c.depth ∧ (run c.depth).count = c.depth

theorem Mirrors.advances {limit : Limit} {s : Span} {depth i : Nat} {reading : Reading}
    {run : Attempt (Dimension × Cursor)} (h : Mirrors limit depth (Moves s depth (i + 1)) reading run) :
    Advances s ⟨i, depth⟩ reading run := by
  unfold Mirrors at h
  unfold Advances
  generalize run depth = p at h ⊢
  cases h with
  | @ok a q counts bounded h =>
    obtain ⟨d, ts⟩ := a
    obtain ⟨rfl, rfl, hlow, hupto, hdepth⟩ := h
    exact Or.inr ⟨_, q.2, rfl, rfl, hlow, hupto, hdepth, rfl⟩
  | @error f count counts bounded full => exact Or.inl ⟨f, rfl, rfl⟩

theorem Mirrors.outcome {limit : Limit} {depth : Nat} {α : Type} {x : Except (Failure Cause) α} {run : Attempt α}
    (h : Mirrors limit depth Eq x run) : (run depth).outcome = some x := by
  unfold Mirrors at h
  generalize run depth = p at h ⊢
  cases h with
  | ok bounded h => rw [h]
  | error bounded full => rfl

namespace Span

section Ranges
variable (s : Span) (scope : Scope) (i depth clock : Nat)

theorem complete_mirrors_inside (hclock : 6 * (s.upto - i) + 5 ≤ clock) :
    Mirrors scope.limit depth Eq (parseInside scope depth s.stop (s.rest i)) (s.complete scope clock ⟨i, depth⟩) := by
  obtain ⟨clock, rfl⟩ : ∃ n, clock = n + 1 := Nat.exists_eq_add_of_le' (by omega)
  refine complete_mirrors ?_
  rw [expression_eq]
  exact sum_mirrors (inner_below scope depth) (Nat.le_of_succ_le_succ hclock)

theorem complete_whole (hclock : 6 * (s.upto - i) + 5 ≤ clock) :
    ((whole (s.rest i) s.stop).complete scope clock ⟨0, depth⟩ depth).outcome =
      some (parseInside scope depth s.stop (s.rest i)) := by
  have hupto : (whole (s.rest i) s.stop).upto = s.upto - i := s.rest_length i
  have hwhole := complete_mirrors_inside (whole (s.rest i) s.stop) scope 0 depth clock (by omega)
  rw [whole_rest] at hwhole
  exact hwhole.outcome

/-- What is read in a range is what its tokens are read as when they are a list of their own. And a reader that begins
    anywhere comes to an end, its calls nesting at most six deep for each token that is left and five more: it fails, or
    it stands further on in the range, with the groups that it opened closed again. -/
theorem complete_alone_and_advances (hclock : 6 * (s.upto - i) + 5 ≤ clock) :
    let c : Cursor := ⟨i, depth⟩
    let inner := below scope (scope.limit.levels - depth)
    (s.complete scope clock c depth).outcome = some (parseInside scope depth s.stop (s.rest i)) ∧
    (s.complete scope clock c depth).outcome =
      ((whole (s.rest i) s.stop).complete scope clock ⟨0, depth⟩ depth).outcome ∧
    Advances s c (Markup.sum scope inner s.stop (s.rest i)) (s.sum scope clock c) ∧
    Advances s c (Markup.term scope inner s.stop (s.rest i)) (s.term scope clock c) ∧
    Advances s c (Markup.factor scope inner s.stop (s.rest i)) (s.factor scope clock c) ∧
    Advances s c (Markup.primary scope inner s.stop (s.rest i)) (s.primary scope clock c) := by
  intro c inner
  have hinner : Inner scope depth inner := inner_below scope depth
  have hcomplete : (s.complete scope clock c depth).outcome = some (parseInside scope depth s.stop (s.rest i)) :=
    (s.complete_mirrors_inside scope i depth clock hclock).outcome
  refine ⟨hcomplete, hcomplete.trans (s.complete_whole scope i depth clock hclock).symm, ?_, ?_, ?_, ?_⟩
  · exact (sum_mirrors hinner (Nat.le_of_succ_le hclock)).advances
  · exact (term_mirrors hinner (by omega)).advances
  · exact (factor_mirrors hinner (by omega)).advances
  · exact (primary_mirrors hinner (by omega)).advances

end Ranges

/-- The fraction in `v\frac{x_{a}^{2}}{(t)t}v`. -/
def fractionBetween : Span :=
  ⟨tokenize "v\\frac\x7bx_\x7ba\x7d^\x7b2\x7d\x7d\x7b(t)t\x7dv".toList, 19, 23, by decide +kernel⟩

/-- Nothing is known of what stands around the fraction, and it is read inside two groups. -/
theorem complete_alone_and_advances_between :
    let scope : Scope := ⟨.ofList [("x", .ofBase .length), ("t", .ofBase .time)], .standard⟩
    let d : Dimension := .ofInts [(.length, 2), (.time, -2)]
    6 * (fractionBetween.upto - 1) + 5 ≤ 113 ∧
      (fractionBetween.complete scope 113 ⟨1, 2⟩ 2).outcome = some (.ok d) ∧
      ((whole (fractionBetween.rest 1) 23).complete scope 113 ⟨0, 2⟩ 2).outcome = some (.ok d) ∧
      Advances fractionBetween ⟨1, 2⟩ (.ok (d, [])) (fractionBetween.primary scope 113 ⟨1, 2⟩) := by
  intro scope d
  have hclock : 6 * (fractionBetween.upto - 1) + 5 ≤ 113 := by decide
  obtain ⟨hcomplete, halone, -, -, -, hprimary⟩ := complete_alone_and_advances fractionBetween scope 1 2 113 hclock
  have hd : parseInside scope 2 23 (fractionBetween.rest 1) = .ok d := toOption_eq_some.mp (by decide +kernel)
  have hreading :
      Markup.primary scope (below scope (scope.limit.levels - 2)) 23 (fractionBetween.rest 1) = .ok (d, []) :=
    toOption_eq_some.mp (by decide +kernel)
  have hread : (fractionBetween.complete scope 113 ⟨1, 2⟩ 2).outcome = some (.ok d) :=
    hcomplete.trans (congrArg _ hd)
  exact ⟨hclock, hread, halone.symm.trans hread, hreading ▸ hprimary⟩

end Span

end UnitCheck.Markup
