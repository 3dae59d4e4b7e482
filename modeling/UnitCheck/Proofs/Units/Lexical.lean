import UnitCheck.Proofs.Outcome
import UnitCheck.Proofs.Text.Run
import UnitCheck.Units.Token

/-! # The tokens of a normal form

A normal form over the alphabet of unit expressions is cut in one way only: letters in runs as long as
they go, digits and points likewise, and every sign for itself. `tokenize` finds that cut, and there is
none when a character lies outside the alphabet. -/

namespace UnitCheck.Units

/-- The characters that are tokens by themselves. -/
def signs : List (Char × Kind) :=
  [('(', .leftParen), (')', .rightParen), ('*', .times), ('/', .over), ('^', .caret), ('+', .sign), ('-', .sign)]

/-- A digit or a point. -/
def InNumber (c : Char) : Prop := c.isDigit ∨ c = '.'

/-- The characters of a unit expression. -/
def InAlphabet (c : Char) : Prop := c.isAlpha ∨ InNumber c ∨ c ∈ signs.map Prod.fst

/-- The cut of a text that begins at `start`. -/
inductive Cut : Nat → List Char → List Token → Prop where
  | nil {start : Nat} : Cut start [] []
  | sign {start : Nat} {c : Char} {k : Kind} {rest : List Char} {ts : List Token} (sign : (c, k) ∈ signs)
      (behind : Cut (start + 1) rest ts) : Cut start (c :: rest) (⟨k, String.ofList [c], start⟩ :: ts)
  | letters {start : Nat} {run rest : List Char} {ts : List Token} (nonempty : run ≠ [])
      (letters : ∀ c ∈ run, c.isAlpha) (longest : ∀ c ∈ rest.head?, ¬c.isAlpha)
      (behind : Cut (start + run.length) rest ts) :
      Cut start (run ++ rest) (⟨.symbol, String.ofList run, start⟩ :: ts)
  | digits {start : Nat} {run rest : List Char} {ts : List Token} (nonempty : run ≠ [])
      (digits : ∀ c ∈ run, InNumber c) (longest : ∀ c ∈ rest.head?, ¬InNumber c)
      (behind : Cut (start + run.length) rest ts) :
      Cut start (run ++ rest) (⟨.number, String.ofList run, start⟩ :: ts)

theorem Cut.inAlphabet {start : Nat} {cs : List Char} {ts : List Token} (h : Cut start cs ts) :
    ∀ c ∈ cs, InAlphabet c := by
  induction h with
  | nil => simp
  | sign sign _ ih =>
    intro c hc
    rcases List.mem_cons.mp hc with rfl | hc
    · exact Or.inr (Or.inr (List.mem_map.mpr ⟨_, sign, rfl⟩))
    · exact ih c hc
  | letters _ letters _ _ ih =>
    intro c hc
    rcases List.mem_append.mp hc with hc | hc
    · exact Or.inl (letters c hc)
    · exact ih c hc
  | digits _ digits _ _ ih =>
    intro c hc
    rcases List.mem_append.mp hc with hc | hc
    · exact Or.inr (Or.inl (digits c hc))
    · exact ih c hc

/-! ### Kinds of characters -/

section Kind
variable {c : Char} {k : Kind}

theorem isDigit_eq_false_of_isAlpha (h : c.isAlpha = true) : c.isDigit = false := by
  delta Char.isAlpha Char.isUpper Char.isLower at h
  delta Char.isDigit
  simp [UInt32.le_iff_toNat_le] at h ⊢
  omega

theorem kind?_eq_symbol : kind? c = some .symbol ↔ c.isAlpha := by
  constructor
  · grind [kind?]
  · intro h
    have hd := isDigit_eq_false_of_isAlpha h
    have hne : ∀ x : Char, x.isAlpha = false → c ≠ x := fun x hx e => by rw [e, hx] at h; cases h
    simp [kind?, hne '(' rfl, hne ')' rfl, hne '*' rfl, hne '/' rfl, hne '^' rfl, hne '+' rfl, hne '-' rfl,
      hne '.' rfl, hd, h]

theorem kind?_eq_number : kind? c = some .number ↔ InNumber c := by
  constructor
  · grind [kind?, InNumber]
  · intro h
    have hne : ∀ x : Char, ¬InNumber x → c ≠ x := fun x hx e => hx (e ▸ h)
    have hdigit : c.isDigit = true ∨ c = '.' := h
    simp [kind?, hne '(' (by simp [InNumber]), hne ')' (by simp [InNumber]), hne '*' (by simp [InNumber]),
      hne '/' (by simp [InNumber]), hne '^' (by simp [InNumber]), hne '+' (by simp [InNumber]),
      hne '-' (by simp [InNumber]), hdigit]

theorem mem_signs : (c, k) ∈ signs ↔ kind? c = some k ∧ k.runs = false := by
  constructor
  · intro h
    simp only [signs, List.mem_cons, Prod.mk.injEq, List.not_mem_nil, or_false] at h
    rcases h with ⟨rfl, rfl⟩ | ⟨rfl, rfl⟩ | ⟨rfl, rfl⟩ | ⟨rfl, rfl⟩ | ⟨rfl, rfl⟩ | ⟨rfl, rfl⟩ | ⟨rfl, rfl⟩ <;>
      exact ⟨rfl, rfl⟩
  · rintro ⟨h, hr⟩
    grind [kind?, signs, Kind.runs]

end Kind

/-! ### What tokens are made of -/

section Chars
variable {start : Nat} {cs : List Char} {ts : List Token}

/-- The characters of tokens. -/
def chars (ts : List Token) : List Char := ts.flatMap fun t => t.text.toList

theorem chars_cons (t : Token) (ts : List Token) : chars (t :: ts) = t.text.toList ++ chars ts := rfl

theorem Cut.chars_eq (h : Cut start cs ts) : chars ts = cs := by
  induction h with
  | nil => rfl
  | sign _ _ ih | letters _ _ _ _ ih | digits _ _ _ _ ih => simp [chars_cons, ih]

/-- Every character of a token has its kind. -/
theorem Cut.kind (h : Cut start cs ts) : ∀ t ∈ ts, ∀ c ∈ t.text.toList, kind? c = some t.kind := by
  induction h with
  | nil => simp
  | sign sign _ ih => exact List.forall_mem_cons.mpr ⟨by simpa using (mem_signs.mp sign).1, ih⟩
  | letters _ letters _ _ ih =>
    exact List.forall_mem_cons.mpr ⟨by simpa using fun c hc => kind?_eq_symbol.mpr (letters c hc), ih⟩
  | digits _ digits _ _ ih =>
    exact List.forall_mem_cons.mpr ⟨by simpa using fun c hc => kind?_eq_number.mpr (digits c hc), ih⟩

end Chars

section Tokenize
variable {start : Nat} {k : Kind} {rest : List Char}

theorem tokenize_sign {c : Char} (kind : kind? c = some k) (single : k.runs = false) :
    tokenize start (c :: rest) =
      (tokenize (start + 1) rest).map (⟨k, String.ofList [c], start⟩ :: ·) := by
  simp [tokenize, kind, single]

theorem tokenize_run {run : List Char} (runs : k.runs = true) (nonempty : run ≠ [])
    (kind : ∀ c ∈ run, kind? c = some k) (longest : ∀ c ∈ rest.head?, kind? c ≠ some k) :
    tokenize start (run ++ rest) =
      (tokenize (start + run.length) rest).map (⟨k, String.ofList run, start⟩ :: ·) := by
  obtain ⟨c, tail, rfl⟩ := List.exists_cons_of_ne_nil nonempty
  have htail : (tail ++ rest).takeWhile (kind? · = some k) = tail :=
    Text.takeWhile_run (fun d hd => decide_eq_true (kind d (List.mem_cons_of_mem _ hd)))
      fun d hd => decide_eq_false (longest d hd)
  rw [List.cons_append, tokenize]
  simp only [kind c (List.mem_cons_self ..), runs, if_true, htail, List.drop_left, List.length_cons]
  rw [Nat.add_right_comm, Nat.add_assoc]

theorem tokenize_of_cut {cs : List Char} {ts : List Token} (h : Cut start cs ts) :
    tokenize start cs = .ok ts := by
  induction h with
  | nil => rw [tokenize]
  | sign sign _ ih =>
    obtain ⟨kind, single⟩ := mem_signs.mp sign
    rw [tokenize_sign kind single, ih]
    rfl
  | letters nonempty letters longest _ ih =>
    rw [tokenize_run rfl nonempty (fun c hc => kind?_eq_symbol.mpr (letters c hc))
      fun c hc hk => longest c hc (kind?_eq_symbol.mp hk), ih]
    rfl
  | digits nonempty digits longest _ ih =>
    rw [tokenize_run rfl nonempty (fun c hc => kind?_eq_number.mpr (digits c hc))
      fun c hc hk => longest c hc (kind?_eq_number.mp hk), ih]
    rfl

theorem eq_nil_of_cut {ts : List Token} (h : Cut start [] ts) : ts = [] := by
  have hts := tokenize_of_cut h
  rw [tokenize] at hts
  exact (Except.ok.inj hts).symm

/-- A run of one kind goes on to the cut of what is behind it. -/
theorem Cut.run {run : List Char} {ts : List Token} (runs : k.runs = true) (nonempty : run ≠ [])
    (kind : ∀ c ∈ run, kind? c = some k) (longest : ∀ c ∈ rest.head?, kind? c ≠ some k)
    (behind : Cut (start + run.length) rest ts) :
    Cut start (run ++ rest) (⟨k, String.ofList run, start⟩ :: ts) := by
  cases k <;> cases runs
  · exact .digits nonempty (fun c hc => kind?_eq_number.mp (kind c hc))
      (fun c hc hn => longest c hc (kind?_eq_number.mpr hn)) behind
  · exact .letters nonempty (fun c hc => kind?_eq_symbol.mp (kind c hc))
      (fun c hc hn => longest c hc (kind?_eq_symbol.mpr hn)) behind

theorem cut_of_tokenize {cs : List Char} {ts : List Token} (h : tokenize start cs = .ok ts) :
    Cut start cs ts := by
  induction hn : cs.length using Nat.strongRecOn generalizing start cs ts with
  | ind n ih =>
    subst hn
    cases cs with
    | nil =>
      rw [tokenize] at h
      cases h
      exact .nil
    | cons c rest =>
      cases hk : kind? c with
      | none =>
        rw [tokenize, hk] at h
        cases h
      | some k =>
        cases hr : k.runs with
        | false =>
          rw [tokenize_sign hk hr] at h
          obtain ⟨us, hus, rfl⟩ := map_eq_ok.mp h
          exact .sign (mem_signs.mpr ⟨hk, hr⟩) (ih _ (by simp) hus rfl)
        | true =>
          obtain ⟨tail, behind, rfl, htail, hbehind⟩ := Text.exists_run (kind? · = some k) rest
          have hkind : ∀ d ∈ c :: tail, kind? d = some k := fun d hd => by
            rcases List.mem_cons.mp hd with rfl | hd
            · exact hk
            · exact of_decide_eq_true (htail d hd)
          have hlongest : ∀ d ∈ behind.head?, kind? d ≠ some k := fun d hd =>
            of_decide_eq_false (hbehind d hd)
          rw [← List.cons_append, tokenize_run hr (List.cons_ne_nil _ _) hkind hlongest] at h
          obtain ⟨us, hus, rfl⟩ := map_eq_ok.mp h
          refine .run hr (List.cons_ne_nil _ _) hkind hlongest (ih _ ?_ hus rfl)
          simp only [List.length_cons, List.length_append]
          omega

theorem tokenize_eq_ok {cs : List Char} {ts : List Token} : tokenize start cs = .ok ts ↔ Cut start cs ts :=
  ⟨cut_of_tokenize, tokenize_of_cut⟩

end Tokenize

end UnitCheck.Units
