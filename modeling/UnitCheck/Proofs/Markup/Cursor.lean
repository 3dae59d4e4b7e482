import UnitCheck.Markup.Parser
import UnitCheck.Proofs.Markup.Balance

/-! # Reading by index

Instead of handing on the tokens that are left, a reader can keep one list and move an index through it, with
a count of the groups that are open. A group is then read where it stands: its braces are matched first, and
what is between them is a shorter span of the same list. No loop here is bounded by what is left to read, and
nothing in the calls decreases but a clock that stands for how deep they may nest, each further round of a
loop being a call. A run that is cut off by the clock has no outcome.

What a reader does about the limit it does by the depth of its cursor. Apart from that, a run keeps the number of
groups that it has entered and not left, which decides nothing. -/

namespace UnitCheck.Markup

/-- What comes of a run: how it ended, unless it was cut off, how many groups were open then, and every such number on
    the way. -/
structure Progress (α : Type) where
  outcome : Option (Except (Failure Cause) α)
  count : Nat
  counts : List Nat

/-- A run that begins with some groups open. -/
def Attempt (α : Type) : Type := Nat → Progress α

namespace Attempt
variable {α β : Type}

def cutOff : Attempt α := fun count => ⟨none, count, []⟩

/-- The run that ends at once. -/
def of (x : Except (Failure Cause) α) : Attempt α := fun count => ⟨some x, count, []⟩

def fail (f : Failure Cause) : Attempt α := of (.error f)

instance : Monad Attempt where
  pure a := of (.ok a)
  bind r k := fun count =>
    let first := r count
    match first.outcome with
    | none => ⟨none, first.count, first.counts⟩
    | some (.error f) => ⟨some (.error f), first.count, first.counts⟩
    | some (.ok a) =>
      let second := k a first.count
      ⟨second.outcome, second.count, first.counts ++ second.counts⟩

def enter : Attempt Unit := fun count => ⟨some (.ok ()), count + 1, [count + 1]⟩

def leave : Attempt Unit := fun count => ⟨some (.ok ()), count - 1, [count - 1]⟩

/-- A run inside one more group. -/
def inside (r : Attempt α) : Attempt α := do
  enter
  let a ← r
  leave
  return a

theorem bind_of_ok {r : Attempt α} {k : α → Attempt β} {a : α} {n count : Nat} {counts : List Nat}
    (h : r n = ⟨some (.ok a), count, counts⟩) :
    (r >>= k) n = ⟨(k a count).outcome, (k a count).count, counts ++ (k a count).counts⟩ := by
  simp only [Bind.bind, h]

theorem bind_of_error {r : Attempt α} {k : α → Attempt β} {f : Failure Cause} {n count : Nat} {counts : List Nat}
    (h : r n = ⟨some (.error f), count, counts⟩) : (r >>= k) n = ⟨some (.error f), count, counts⟩ := by
  simp only [Bind.bind, h]

theorem of_bind (x : Except (Failure Cause) α) (k : α → Except (Failure Cause) β) :
    of (x >>= k) = of x >>= fun a => of (k a) := by
  cases x <;> rfl

end Attempt

/-- The tokens of a list before the index `upto`, as a text that ends at the offset `stop`. -/
structure Span where
  tokens : List Token
  upto : Nat
  stop : Int
  le : upto ≤ tokens.length

/-- Where a reader is: the index of the next token and how many groups are open. -/
structure Cursor where
  index : Nat
  depth : Nat

namespace Cursor

def moveTo (c : Cursor) (i : Nat) : Cursor := { c with index := i }

def next (c : Cursor) : Cursor := c.moveTo (c.index + 1)

end Cursor

namespace Span

/-- A list of tokens from its beginning to its end. -/
def whole (tokens : List Token) (stop : Int) : Span := ⟨tokens, tokens.length, stop, Nat.le_refl _⟩

variable (s : Span)

/-- The tokens from an index on. -/
def rest (i : Nat) : List Token := (s.tokens.take s.upto).drop i

def token (i : Fin s.upto) : Token := s.tokens.get (i.castLE s.le)

/-- The tokens before one of the span, which end where it begins. -/
def before (i : Fin s.upto) : Span := ⟨s.tokens, i, (s.token i).start, Nat.le_trans (Nat.le_of_lt i.isLt) s.le⟩

def peek? (i : Nat) : Option Token := if h : i < s.upto then some (s.token ⟨i, h⟩) else none

def position (i : Nat) : Int := ((s.peek? i).map (·.start)).getD s.stop

/-- The first brace from index `i` on at which as many have closed as opened, when `depth` more have opened than
    closed before. -/
def closing? (depth : Int) (i : Nat) : Option (Fin s.upto) :=
  if h : i < s.upto then
    if (s.token ⟨i, h⟩).opensGroup then closing? (depth + 1) (i + 1)
    else if (s.token ⟨i, h⟩).closesGroup then
      if depth - 1 = 0 then some ⟨i, h⟩ else closing? (depth - 1) (i + 1)
    else closing? depth (i + 1)
  else none
termination_by s.upto - i

/-- The brace that closes the group which opens at an index. -/
def matching (i : Nat) : Except (Failure Cause) (Fin s.upto) :=
  match s.closing? 0 i with
  | none => .error ⟨.unbalancedBraces, s.position i⟩
  | some close => .ok close

/-- Refuses to open one more group than the limit allows. -/
def nested (limit : Limit) (c : Cursor) : Except (Failure Cause) Unit :=
  if limit.levels ≤ c.depth then .error ⟨.tooDeep limit.levels, s.position c.index⟩ else .ok ()

/-- Moves the cursor past a subscript, if there is one. -/
def skipSubscript (c : Cursor) : Except (Failure Cause) Cursor :=
  match s.peek? c.index with
  | none => .ok c
  | some mark =>
    if mark.kind = .subscript then
      match s.peek? (c.index + 1) with
      | none => .error ⟨.subscriptMissing, mark.start⟩
      | some t =>
        if t.opensGroup then do
          let close ← s.matching (c.index + 1)
          .ok (c.moveTo (close + 1))
        else .ok (c.moveTo (c.index + 2))
    else .ok c

/-- Reads the exponent behind a caret at `start`. -/
def exponent (start : Int) (c : Cursor) : Except (Failure Cause) (Binary64 × Cursor) :=
  match s.peek? c.index with
  | none => .error ⟨.exponentMissing, start⟩
  | some t =>
    if t.kind = .number then do
      let x ← exponentNumber start t.text
      .ok (x, c.next)
    else if t.opensGroup then do
      let close ← s.matching c.index
      let content := (s.before close).rest (c.index + 1)
      let text := String.join (content.map (·.text))
      if isSignedNumber content then do
        let x ← exponentNumber start text
        .ok (x, c.moveTo (close + 1))
      else .error ⟨.exponentInvalid text, start⟩
    else .error ⟨.exponentMissing, t.start⟩

/-- A result of arithmetic, or the failure at an offset. -/
def combine (start : Int) (result : Except Overflow Dimension) : Except (Failure Cause) Dimension :=
  result.mapError fun _ => ⟨.exponentOverflow, start⟩

mutual

/-- Reads all tokens from the cursor on as one expression. -/
def complete (scope : Scope) : Nat → Span → Cursor → Attempt Dimension
  | 0, _, _ => .cutOff
  | clock + 1, s, c =>
    if s.upto ≤ c.index then .fail ⟨.emptyExpression, s.stop⟩
    else
      match firstDenied? (s.rest c.index) with
      | some (name, start) => .fail ⟨.deniedCommand name, start⟩
      | none => do
        let (d, c) ← sum scope clock s c
        match s.peek? c.index with
        | none => pure d
        | some t => .fail ⟨.trailing t.text, t.start⟩

/-- Reads the group that opens at the cursor. -/
def group (scope : Scope) : Nat → Span → Cursor → Attempt (Dimension × Cursor)
  | 0, _, _ => .cutOff
  | clock + 1, s, c => do
    let close ← Attempt.of (s.matching c.index)
    Attempt.of (s.nested scope.limit c)
    let d ← Attempt.inside (complete scope clock (s.before close) ⟨c.index + 1, c.depth + 1⟩)
    pure (d, c.moveTo (close + 1))

/-- Reads an operand of the fraction whose command begins at `start`. -/
def operand (scope : Scope) : Nat → Span → Int → Cursor → Attempt (Dimension × Cursor)
  | 0, _, _, _ => .cutOff
  | clock + 1, s, start, c =>
    match s.peek? c.index with
    | none => .fail ⟨.fractionOperands, start⟩
    | some t => if t.opensGroup then group scope clock s c else .fail ⟨.fractionOperands, start⟩

/-- Reads a primary. -/
def primary (scope : Scope) : Nat → Span → Cursor → Attempt (Dimension × Cursor)
  | 0, _, _ => .cutOff
  | clock + 1, s, c =>
    match s.peek? c.index with
    | none => .fail ⟨.unexpectedEnd, s.stop⟩
    | some t =>
      match t.kind with
      | .number => pure (.one, c.next)
      | .identifier => do
        let c ← Attempt.of (s.skipSubscript c.next)
        let d ← Attempt.of (symbol scope.declared t)
        pure (d, c)
      | .command =>
        if t.text = "\\frac" then do
          let (above, c) ← operand scope clock s t.start c.next
          let (below, c) ← operand scope clock s t.start c
          let d ← Attempt.of (combine t.start (above.div below))
          pure (d, c)
        else do
          let c ← Attempt.of (s.skipSubscript c.next)
          let d ← Attempt.of (symbol scope.declared t)
          pure (d, c)
      | .operator =>
        if t.text = "(" then do
          Attempt.of (s.nested scope.limit c)
          let (d, c) ← Attempt.inside (sum scope clock s ⟨c.index + 1, c.depth + 1⟩)
          match s.peek? c.index with
          | none => .fail ⟨.unclosedParenthesis, s.stop⟩
          | some t =>
            if t.isOperator ")" then pure (d, ⟨c.index + 1, c.depth - 1⟩)
            else .fail ⟨.unclosedParenthesis, t.start⟩
        else if t.opensGroup then group scope clock s c
        else .fail ⟨.unexpectedToken t.text, t.start⟩
      | .subscript => .fail ⟨.unexpectedToken t.text, t.start⟩

/-- Reads a primary with its exponent. -/
def factor (scope : Scope) : Nat → Span → Cursor → Attempt (Dimension × Cursor)
  | 0, _, _ => .cutOff
  | clock + 1, s, c => do
    let (d, c) ← primary scope clock s c
    match s.peek? c.index with
    | none => pure (d, c)
    | some t =>
      if t.isOperator "^" then do
        let (x, c) ← Attempt.of (s.exponent t.start c.next)
        match d.pow? x with
        | some d => pure (d, c)
        | none => .fail ⟨.exponentNotFinite, t.start⟩
      else pure (d, c)

/-- Reads factors behind a dimension as long as there are some. -/
def factors (scope : Scope) : Nat → Span → Dimension → Cursor → Attempt (Dimension × Cursor)
  | 0, _, _, _ => .cutOff
  | clock + 1, s, d, c =>
    match s.peek? c.index with
    | none => pure (d, c)
    | some t =>
      if t.isOperator "*" then do
        let (e, c) ← factor scope clock s c.next
        let d ← Attempt.of (combine t.start (d.mul e))
        factors scope clock s d c
      else if t.isOperator "/" then do
        let (e, c) ← factor scope clock s c.next
        let d ← Attempt.of (combine t.start (d.div e))
        factors scope clock s d c
      else if t.startsFactor then do
        let (e, c) ← factor scope clock s c
        let d ← Attempt.of (combine t.start (d.mul e))
        factors scope clock s d c
      else pure (d, c)

/-- Reads a product. -/
def term (scope : Scope) : Nat → Span → Cursor → Attempt (Dimension × Cursor)
  | 0, _, _ => .cutOff
  | clock + 1, s, c => do
    let (d, c) ← factor scope clock s c
    factors scope clock s d c

/-- Reads signs and terms behind the first term of a sum as long as there are some. -/
def terms (scope : Scope) : Nat → Span → Dimension → Cursor → Attempt (Dimension × Cursor)
  | 0, _, _, _ => .cutOff
  | clock + 1, s, d, c =>
    match s.peek? c.index with
    | none => pure (d, c)
    | some t =>
      if t.isSign then do
        let (e, c) ← term scope clock s c.next
        if d.near e then terms scope clock s d c else .fail ⟨.sumMismatch (t.text = "-") d e, t.start⟩
      else pure (d, c)

/-- Reads a sum. -/
def sum (scope : Scope) : Nat → Span → Cursor → Attempt (Dimension × Cursor)
  | 0, _, _ => .cutOff
  | clock + 1, s, c => do
    let (d, c) ← term scope clock s (if (s.peek? c.index).any (·.isSign) then c.next else c)
    terms scope clock s d c

end

/-! ### Tokens of a span -/

section Tokens
variable {s : Span} {i : Nat}

theorem whole_rest (tokens : List Token) (stop : Int) : (whole tokens stop).rest 0 = tokens := by
  rw [rest, List.drop_zero]
  exact List.take_length

theorem rest_length (s : Span) (i : Nat) : (s.rest i).length = s.upto - i := by
  rw [rest, List.length_drop, List.length_take, Nat.min_eq_left s.le]

theorem rest_of_le (h : s.upto ≤ i) : s.rest i = [] := by
  rw [rest, List.drop_eq_nil_iff, List.length_take]
  exact Nat.le_trans (Nat.min_le_left _ _) h

theorem rest_of_lt (h : i < s.upto) : s.rest i = s.token ⟨i, h⟩ :: s.rest (i + 1) := by
  have hlt : i < (s.tokens.take s.upto).length := by
    rw [List.length_take]
    exact Nat.lt_min.mpr ⟨h, Nat.lt_of_lt_of_le h s.le⟩
  rw [rest, List.drop_eq_getElem_cons hlt, List.getElem_take]
  rfl

theorem peek?_of_le (h : s.upto ≤ i) : s.peek? i = none := dif_neg (Nat.not_lt.mpr h)

theorem peek?_of_lt (h : i < s.upto) : s.peek? i = some (s.token ⟨i, h⟩) := dif_pos h

theorem position_of_peek? {t : Token} (h : s.peek? i = some t) : s.position i = t.start := by
  rw [position, h]
  rfl

theorem before_rest_of_lt {close : Fin s.upto} (h : i < close) :
    (s.before close).rest i = s.token ⟨i, Nat.lt_trans h close.isLt⟩ :: (s.before close).rest (i + 1) :=
  rest_of_lt (s := s.before close) h

/-- At an index there is a token, or the span has ended. -/
theorem peek_cases (s : Span) (i : Nat) :
    (s.upto ≤ i ∧ s.peek? i = none ∧ s.rest i = []) ∨
      ∃ t, i < s.upto ∧ s.peek? i = some t ∧ s.rest i = t :: s.rest (i + 1) := by
  rcases Nat.lt_or_ge i s.upto with h | h
  · exact Or.inr ⟨_, h, peek?_of_lt h, rest_of_lt h⟩
  · exact Or.inl ⟨h, peek?_of_le h, rest_of_le h⟩

end Tokens

/-! ### Matching braces -/

/-- The group that ends at a brace, from an index on. -/
def groupTo (s : Span) (i : Nat) (close : Fin s.upto) : Group :=
  ⟨(s.before close).rest i, s.token close, s.rest (close + 1)⟩

section Braces
variable {s : Span} {i : Nat}

theorem groupTo_self (h : i < s.upto) : s.groupTo i ⟨i, h⟩ = ⟨[], s.token ⟨i, h⟩, s.rest (i + 1)⟩ := by
  have hrest : (s.before ⟨i, h⟩).rest i = [] := rest_of_le (Nat.le_refl i)
  rw [groupTo, hrest]

theorem groupTo_succ {close : Fin s.upto} (h : i < close) :
    s.groupTo i close = (s.groupTo (i + 1) close).prepend (s.token ⟨i, Nat.lt_trans h close.isLt⟩) := by
  rw [groupTo, before_rest_of_lt h]
  rfl

theorem le_of_closing? {depth : Int} {close : Fin s.upto} (h : s.closing? depth i = some close) : i ≤ close := by
  fun_induction closing? with
  | case1 depth i hi ho ih => exact Nat.le_of_succ_le (ih h)
  | case2 depth i hi ho hc hd =>
    cases h
    exact Nat.le_refl i
  | case3 depth i hi ho hc hd ih => exact Nat.le_of_succ_le (ih h)
  | case4 depth i hi ho hc ih => exact Nat.le_of_succ_le (ih h)
  | case5 => cases h

theorem map_groupTo_succ {found : Option (Fin s.upto)} (hi : i < s.upto) (h : ∀ close, found = some close → i < close) :
    (found.map (s.groupTo (i + 1))).map (·.prepend (s.token ⟨i, hi⟩)) = found.map (s.groupTo i) := by
  rw [Option.map_map]
  exact Option.map_congr fun close hclose => (groupTo_succ (h close hclose)).symm

/-- The brace that the count finds is the one at which the tokens are split. -/
theorem split?_rest (s : Span) (depth i : Nat) :
    Group.split? depth (s.rest i) = (s.closing? (depth + 1) i).map (s.groupTo i) := by
  induction hn : s.upto - i generalizing depth i with
  | zero =>
    rw [closing?, dif_neg (by omega), rest_of_le (by omega)]
    rfl
  | succ n ih =>
    have hi : i < s.upto := by omega
    have hnext (depth : Nat) : (Group.split? depth (s.rest (i + 1))).map (·.prepend (s.token ⟨i, hi⟩)) =
        (s.closing? (depth + 1) (i + 1)).map (s.groupTo i) := by
      rw [ih depth (i + 1) (by omega)]
      exact map_groupTo_succ hi fun _ hclose => le_of_closing? hclose
    rw [closing?, dif_pos hi, rest_of_lt hi]
    simp only [Group.split?]
    cases hc : (s.token ⟨i, hi⟩).closesGroup with
    | true =>
      simp only [Token.opensGroup_eq_false hc, if_true, Bool.false_eq_true, if_false, Int.add_sub_cancel]
      cases depth with
      | zero =>
        rw [if_pos Int.natCast_zero, Option.map_some, groupTo_self]
      | succ depth =>
        rw [if_neg (by omega), Int.natCast_succ]
        exact hnext depth
    | false =>
      simp only [Bool.false_eq_true, if_false, hnext]
      cases (s.token ⟨i, hi⟩).opensGroup <;> rfl

/-- The group that opens at an index is read up to the same brace, or found unbalanced, either way. -/
theorem matching_cases {t : Token} (ht : s.peek? i = some t) (ho : t.opensGroup = true) :
    (∃ close : Fin s.upto, i < close ∧ s.matching i = .ok close ∧
      Group.split? 0 (s.rest (i + 1)) = some (s.groupTo (i + 1) close)) ∨
    (s.matching i = .error ⟨.unbalancedBraces, t.start⟩ ∧ Group.split? 0 (s.rest (i + 1)) = none) := by
  rcases Nat.lt_or_ge i s.upto with hi | hi
  · have hopens : (s.token ⟨i, hi⟩).opensGroup = true := by
      rw [Option.some.inj ((peek?_of_lt hi).symm.trans ht)]
      exact ho
    have hfirst : s.closing? 0 i = s.closing? 1 (i + 1) := by
      rw [closing?, dif_pos hi, if_pos hopens]
      rfl
    have hsplit : Group.split? 0 (s.rest (i + 1)) = (s.closing? 1 (i + 1)).map (s.groupTo (i + 1)) :=
      split?_rest s 0 (i + 1)
    rw [matching, hfirst, hsplit, position_of_peek? ht]
    cases hclose : s.closing? 1 (i + 1) with
    | none => exact Or.inr ⟨rfl, rfl⟩
    | some close => exact Or.inl ⟨close, le_of_closing? hclose, rfl, rfl⟩
  · rw [peek?_of_le hi] at ht
    cases ht

end Braces

end Span

end UnitCheck.Markup
