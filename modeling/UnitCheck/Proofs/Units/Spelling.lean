import UnitCheck.Proofs.Units.Normal
import UnitCheck.Proofs.Units.Reading

/-! # Spelling phrases

A text spells a phrase when it is cut into the tokens of that phrase before whatever does not go on with
its last run. Spelled phrases are put together as the grammar does it: a unit, a power, and products and
quotients to the right of what is there. A text that spells an expression is parsed to its value. -/

namespace UnitCheck.Units

/-- What may stand behind a run of letters or of digits and points. -/
def EndsRun (rest : List Char) : Prop := ∀ c ∈ rest.head?, ¬c.isAlpha ∧ ¬InNumber c

/-- Before anything that ends a run, the text is cut into the tokens of a phrase with the value. -/
def Spells (k : Category) (text : List Char) (d : Dimension) : Prop :=
  ∀ (start : Nat) (rest : List Char) (us : List Token), EndsRun rest → Cut (start + text.length) rest us →
    ∃ ts e, Cut start (text ++ rest) (ts ++ us) ∧ Derives k ts e ∧ e.value? = some d

theorem endsRun_of_sign {c : Char} {k : Kind} (h : (c, k) ∈ signs) (rest : List Char) : EndsRun (c :: rest) := by
  obtain ⟨hk, hr⟩ := mem_signs.mp h
  rintro x ⟨⟩
  refine ⟨fun hl => ?_, fun hn => ?_⟩
  · cases (kind?_eq_symbol.mpr hl).symm.trans hk
    cases hr
  · cases (kind?_eq_number.mpr hn).symm.trans hk
    cases hr

theorem length_behind (start : Nat) (text : List Char) (c : Char) (xs : List Char) :
    start + (text ++ c :: xs).length = start + text.length + 1 + xs.length := by
  rw [List.length_append, List.length_cons]
  omega

section
variable {text xs : List Char} {a b d : Dimension}

theorem Spells.one : Spells .primary ['1'] .one := fun start _ _ hends hcut =>
  ⟨[⟨.number, String.ofList ['1'], start⟩], .one,
    .digits (List.cons_ne_nil _ _) (by simp [InNumber]) (fun c hc => (hends c hc).2) hcut, .one rfl rfl, rfl⟩

theorem Spells.unit (hne : text ≠ []) (hl : ∀ c ∈ text, c.isAlpha) (hd : find? (String.ofList text) = some d) :
    Spells .primary text d := fun start _ _ hends hcut =>
  ⟨[⟨.symbol, String.ofList text, start⟩], .unit (String.ofList text),
    .letters hne hl (fun c hc => (hends c hc).1) hcut, .unit rfl, hd⟩

theorem Spells.factor (h : Spells .primary text d) : Spells .factor text d := fun start rest us hends hcut => by
  obtain ⟨ts, e, hts, hderives, hv⟩ := h start rest us hends hcut
  exact ⟨ts, e, hts, .primary hderives, hv⟩

theorem Spells.expression (h : Spells .factor text d) : Spells .expression text d := fun start rest us hends hcut => by
  obtain ⟨ts, e, hts, hderives, hv⟩ := h start rest us hends hcut
  exact ⟨ts, e, hts, .factor hderives, hv⟩

theorem Spells.group (h : Spells .expression text d) : Spells .primary ('(' :: text ++ [')']) d :=
  fun start rest us hends hcut => by
  have hclose : (')', Kind.rightParen) ∈ signs := by decide
  have hopen : ('(', Kind.leftParen) ∈ signs := by decide
  have hlength : start + ('(' :: text ++ [')']).length = start + 1 + text.length + 1 := by
    simp only [List.length_append, List.length_cons, List.length_nil]
    omega
  rw [hlength] at hcut
  obtain ⟨ts, e, hts, hderives, hv⟩ := h (start + 1) _ _ (endsRun_of_sign hclose rest) (.sign hclose hcut)
  refine ⟨_, .group e, ?_, .group (l := ⟨.leftParen, String.ofList ['('], start⟩) rfl hderives
    (r := ⟨.rightParen, String.ofList [')'], start + 1 + text.length⟩) rfl, hv⟩
  simpa using Cut.sign hopen hts

theorem Spells.power (h : Spells .primary text a) (hne : xs ≠ []) (hx : ∀ c ∈ xs, InNumber c)
    (hd : a.raised? (String.ofList xs) = some d) : Spells .factor (text ++ '^' :: xs) d := fun start rest us hends hcut => by
  have hsign : ('^', Kind.caret) ∈ signs := by decide
  rw [length_behind] at hcut
  have hnumber := Cut.digits hne hx (fun c hc => (hends c hc).2) hcut
  obtain ⟨ts, e, hts, hderives, hv⟩ := h start _ _ (endsRun_of_sign hsign (xs ++ rest)) (.sign hsign hnumber)
  let caret : Token := ⟨.caret, String.ofList ['^'], start + text.length⟩
  let exponent : Token := ⟨.number, String.ofList xs, start + text.length + 1⟩
  refine ⟨ts ++ [caret, exponent], .power e (String.ofList xs), ?_, .power hderives rfl rfl, ?_⟩
  · rw [List.append_assoc, List.append_assoc]
    exact hts
  · rw [Tree.value?, hv, Option.bind_some, hd]

/-- Tokens of an expression, a sign, and tokens of a factor. -/
theorem Spells.beside {c : Char} {k : Kind} (hc : (c, k) ∈ signs) (ha : Spells .expression text a) (hb : Spells .factor xs b)
    {start : Nat} {rest : List Char} {us : List Token} (hends : EndsRun rest)
    (hcut : Cut (start + (text ++ c :: xs).length) rest us) :
    ∃ ts o ts' e f, Cut start (text ++ c :: xs ++ rest) (ts ++ o :: ts' ++ us) ∧ o.kind = k ∧
      (Derives .expression ts e ∧ e.value? = some a) ∧ Derives .factor ts' f ∧ f.value? = some b := by
  rw [length_behind] at hcut
  obtain ⟨ts', f, hts', hfactor⟩ := hb _ rest us hends hcut
  obtain ⟨ts, e, hts, hexpression⟩ := ha start _ _ (endsRun_of_sign hc (xs ++ rest)) (.sign hc hts')
  exact ⟨ts, _, ts', e, f, by simpa using hts, rfl, hexpression, hfactor⟩

theorem Spells.times (ha : Spells .expression text a) (hb : Spells .factor xs b) (hd : a.mul b = .ok d) :
    Spells .expression (text ++ '*' :: xs) d := fun start rest us hends hcut => by
  have hsign : ('*', Kind.times) ∈ signs := by decide
  obtain ⟨ts, o, ts', e, f, hts, ho, ⟨he, hev⟩, hf, hfv⟩ := ha.beside hsign hb hends hcut
  refine ⟨_, .times e f, hts, .times he ho hf, ?_⟩
  simp [Tree.value?, hev, hfv, Dimension.mul?_eq_some, hd]

theorem Spells.quotient (ha : Spells .expression text a) (hb : Spells .factor xs b) (hd : a.div b = .ok d) :
    Spells .expression (text ++ '/' :: xs) d := fun start rest us hends hcut => by
  have hsign : ('/', Kind.over) ∈ signs := by decide
  obtain ⟨ts, o, ts', e, f, hts, ho, ⟨he, hev⟩, hf, hfv⟩ := ha.beside hsign hb hends hcut
  refine ⟨_, .quotient e f, hts, .quotient he ho hf, ?_⟩
  simp [Tree.value?, hev, hfv, Dimension.div?_eq_some, hd]

theorem Spells.parse (h : Spells .expression text d) : parse text = .ok d := by
  obtain ⟨ts, e, hts, hderives, hv⟩ := h 0 [] [] (by simp [EndsRun]) .nil
  rw [List.append_nil, List.append_nil] at hts
  refine parse_eq_ok.mpr ⟨ts, e, ?_, hderives, hv⟩
  rwa [normalize_of_inAlphabet hts.inAlphabet]

end

/-! ### Signs of numbers -/

/-- No phrase has a token that is a sign of a number. -/
theorem Derives.kind_ne_sign {k : Category} {ts : List Token} {e : Tree} (h : Derives k ts e) :
    ∀ t ∈ ts, t.kind ≠ .sign := by
  induction h with
  | one kind _ | unit kind => simp [kind]
  | group left _ right ih =>
    simp only [List.mem_cons, List.mem_append, List.not_mem_nil, or_false]
    rintro t (rfl | ht | rfl)
    · simp [left]
    · exact ih t ht
    · simp [right]
  | primary _ ih | factor _ ih => exact ih
  | power _ caret number ih =>
    simp only [List.mem_cons, List.mem_append, List.not_mem_nil, or_false]
    rintro t (ht | rfl | rfl)
    · exact ih t ht
    · simp [caret]
    · simp [number]
  | times _ operator _ iha ihb | quotient _ operator _ iha ihb =>
    simp only [List.mem_cons, List.mem_append]
    rintro t (ht | rfl | ht)
    · exact iha t ht
    · simp [operator]
    · exact ihb t ht

/-- A text with a plus or a minus has no dimension. -/
theorem parse_of_sign {text : List Char} {c : Char} (hc : c = '-' ∨ c = '+') (hmem : c ∈ text) (d : Dimension) :
    parse text ≠ .ok d := by
  intro h
  obtain ⟨ts, e, hcut, hderives, -⟩ := parse_eq_ok.mp h
  have hchars : c ∈ chars ts := by
    rw [hcut.chars_eq]
    exact mem_normalize hc hmem
  obtain ⟨t, ht, hct⟩ := List.mem_flatMap.mp hchars
  have hkind : kind? c = some .sign := by rcases hc with rfl | rfl <;> decide
  exact hderives.kind_ne_sign t ht (Option.some.inj ((hcut.kind t ht c hct).symm.trans hkind))

end UnitCheck.Units
