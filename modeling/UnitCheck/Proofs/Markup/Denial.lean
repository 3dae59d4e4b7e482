import Mathlib.Data.List.Basic
import Mathlib.Data.List.Find
import UnitCheck.Proofs.Markup.Lexing

/-! # Denied commands in texts and among tokens

The search in a text looks for each denied command and takes the earliest hit. It finds what a scan finds
that asks at every offset which denied command begins there, since no denied command begins with another.
A denied command is a backslash and letters, so whether a text begins with one is decided by its first
piece. So the search in a text and the one among its tokens find the same, and the reading of a text that
is not blank is the reading of its tokens. -/

namespace UnitCheck.Markup

theorem shape_of_denied : ∀ name ∈ deniedCommands,
    name.toList.head? = some '\\' ∧ name.toList.tail ≠ [] ∧ name.toList.tail.all isLetter = true := by
  decide

theorem exists_of_denied {name : String} (h : name ∈ deniedCommands) :
    ∃ letters, name.toList = '\\' :: letters ∧ letters ≠ [] ∧ ∀ c ∈ letters, isLetter c = true := by
  obtain ⟨hhead, htail, hletters⟩ := shape_of_denied name h
  cases hn : name.toList with
  | nil =>
    rw [hn] at hhead
    cases hhead
  | cons c letters =>
    rw [hn] at hhead htail hletters
    cases hhead
    exact ⟨letters, rfl, htail, List.all_eq_true.mp hletters⟩

theorem deniedAtStart?_of_ne {c : Char} (h : c ≠ '\\') (rest : List Char) : deniedAtStart? (c :: rest) = none := by
  refine List.find?_eq_none.mpr fun name hname hprefix => ?_
  obtain ⟨letters, hn, -, -⟩ := exists_of_denied hname
  rw [hn, List.isPrefixOf_iff_prefix, List.cons_prefix_cons] at hprefix
  exact h hprefix.1.symm

theorem prefix_takeWhile {α : Type} {p : α → Bool} {l rest : List α} (h : ∀ x ∈ l, p x = true) :
    l <+: rest.takeWhile p ↔ l <+: rest := by
  constructor
  · exact fun hl => hl.trans (List.takeWhile_prefix p)
  · rintro ⟨tail, rfl⟩
    rw [List.takeWhile_append_of_pos h]
    exact ⟨_, rfl⟩

theorem deniedAtStart?_takeWhile (rest : List Char) :
    deniedAtStart? ('\\' :: rest.takeWhile isLetter) = deniedAtStart? ('\\' :: rest) := by
  have hsame : ∀ name ∈ deniedCommands,
      name.toList.isPrefixOf ('\\' :: rest.takeWhile isLetter) = name.toList.isPrefixOf ('\\' :: rest) := by
    intro name hname
    obtain ⟨letters, hn, -, hletters⟩ := exists_of_denied hname
    rw [hn, Bool.eq_iff_iff, List.isPrefixOf_iff_prefix, List.isPrefixOf_iff_prefix, List.cons_prefix_cons,
      List.cons_prefix_cons, prefix_takeWhile hletters]
  exact List.find?_congr hsame

/-- The commands that make no command token are not denied. -/
theorem commandPiece_cases (name : String) : commandPiece name = some (.command, name) ∨
    (commandPiece name = none ∨ commandPiece name = some (.operator, "*")) ∧ deniedAtStart? name.toList = none := by
  have hfree : ∀ s ∈ multiplicationCommands ++ sizingCommands, deniedAtStart? s.toList = none := by decide
  unfold commandPiece
  split
  · rename_i hm
    exact Or.inr ⟨Or.inr rfl, hfree name (List.mem_append_left _ (List.contains_iff_mem.mp hm))⟩
  · split
    · rename_i hs
      exact Or.inr ⟨Or.inl rfl, hfree name (List.mem_append_right _ (List.contains_iff_mem.mp hs))⟩
    · exact Or.inl rfl

theorem kind_of_piece {c : Char} {rest : List Char} {kind : Kind} {text : String} {more : Nat} (hc : c ≠ '\\')
    (h : piece c rest = (some (kind, text), more)) : kind ≠ .command := by
  cases spelled_of_piece h with
  | command backslash => exact absurd backslash hc
  | multiplication | number | identifier | operator | subscript => simp

theorem firstDenied?_singleton (t : Token) : firstDenied? [t] = t.denied?.map (·, t.start) := by
  rw [firstDenied?, List.findSome?_singleton]

theorem firstDenied?_append (ts us : List Token) : firstDenied? (ts ++ us) = (firstDenied? ts).or (firstDenied? us) :=
  List.findSome?_append

theorem firstDenied?_pieceTokens (start : Int) (c : Char) (rest : List Char) :
    firstDenied? (pieceTokens start c rest) = (deniedAtStart? (c :: rest)).map (·, start) := by
  by_cases hc : c = '\\'
  · subst hc
    rw [← deniedAtStart?_takeWhile]
    have hpiece : piece '\\' rest = (if (rest.takeWhile isLetter).isEmpty then none
        else commandPiece (String.ofList ('\\' :: rest.takeWhile isLetter)), (rest.takeWhile isLetter).length) := rfl
    rw [pieceTokens, hpiece]
    cases rest.takeWhile isLetter with
    | nil => rfl
    | cons l letters =>
      rw [if_neg (by simp)]
      obtain hname | ⟨hname | hname, hfree⟩ := commandPiece_cases (String.ofList ('\\' :: l :: letters))
      · rw [hname]
        dsimp only
        rw [firstDenied?_singleton, Token.denied?, if_pos rfl, String.toList_ofList]
      · rw [String.toList_ofList] at hfree
        rw [hname, hfree]
        rfl
      · rw [String.toList_ofList] at hfree
        rw [hname, hfree]
        rfl
  · rw [deniedAtStart?_of_ne hc, pieceTokens]
    split
    · rename_i hp
      rw [firstDenied?_singleton, Token.denied?, if_neg (kind_of_piece hc hp), Option.map_none]
    · rfl

/-! ### The earliest hit -/

/-- The first denied command in a text that begins at offset `start`, looked for at every offset. -/
def findDeniedFrom (start : Int) : List Char → Option (String × Int)
  | [] => none
  | c :: rest =>
    match deniedAtStart? (c :: rest) with
    | some name => some (name, start)
    | none => findDeniedFrom (start + 1) rest

theorem deniedAtStart?_eq_none {text : List Char} :
    deniedAtStart? text = none ↔ ∀ name ∈ deniedCommands, ¬name.toList <+: text := by
  simp [deniedAtStart?, List.find?_eq_none]

/-- No denied command begins with another, so there is one at most at any place. -/
theorem eq_of_denied_isPrefixOf : ∀ name ∈ deniedCommands, ∀ other ∈ deniedCommands,
    name.toList.isPrefixOf other.toList = true → name = other := by
  decide

theorem denied_of_deniedAtStart? {text : List Char} {name : String} (h : deniedAtStart? text = some name) :
    name ∈ deniedCommands ∧ name.toList <+: text := by
  unfold deniedAtStart? at h
  have hprefix := List.find?_some h
  exact ⟨List.mem_of_find?_eq_some h, List.isPrefixOf_iff_prefix.mp hprefix⟩

theorem deniedAtStart?_eq_some {text : List Char} {name : String} :
    deniedAtStart? text = some name ↔ name ∈ deniedCommands ∧ name.toList <+: text := by
  refine ⟨denied_of_deniedAtStart?, ?_⟩
  rintro ⟨hname, hprefix⟩
  cases hd : deniedAtStart? text with
  | none => exact absurd hprefix (deniedAtStart?_eq_none.mp hd name hname)
  | some other =>
    obtain ⟨hother, hprefix'⟩ := denied_of_deniedAtStart? hd
    rcases List.prefix_or_prefix_of_prefix hprefix hprefix' with h | h
    · exact congrArg some (eq_of_denied_isPrefixOf name hname other hother (List.isPrefixOf_iff_prefix.mpr h)).symm
    · exact congrArg some (eq_of_denied_isPrefixOf other hother name hname (List.isPrefixOf_iff_prefix.mpr h))

/-- The hit as it is seen from one character further in front. -/
def later (hit : Nat × String) : Nat × String := (hit.1 + 1, hit.2)

theorem earlier_later (a b : Nat × String) : earlier (later a) (later b) = later (earlier a b) := by
  simp only [earlier, later, Nat.add_lt_add_iff_right, Nat.add_right_cancel_iff]
  split
  · rfl
  · rfl

theorem earliest?_later (hs : List (Nat × String)) : earliest? (hs.map later) = (earliest? hs).map later := by
  cases hs with
  | nil => rfl
  | cons hit more =>
    rw [List.map_cons, earliest?, earliest?, Option.map_some, List.foldl_map]
    exact congrArg some (List.foldl_hom later fun a b => earlier_later a b)

theorem earlier_eq (a b : Nat × String) :
    (earlier a b = a ∨ earlier a b = b) ∧ (earlier a b).1 ≤ a.1 ∧ (earlier a b).1 ≤ b.1 := by
  unfold earlier
  split
  · exact ⟨Or.inr rfl, by omega, Nat.le_refl _⟩
  · exact ⟨Or.inl rfl, Nat.le_refl _, by omega⟩

theorem foldl_earlier (hit : Nat × String) (more : List (Nat × String)) :
    more.foldl earlier hit ∈ hit :: more ∧ ∀ other ∈ hit :: more, (more.foldl earlier hit).1 ≤ other.1 := by
  induction more generalizing hit with
  | nil => simp
  | cons next more ih =>
    obtain ⟨hmem, hle⟩ := ih (earlier hit next)
    obtain ⟨hchosen, hhit, hnext⟩ := earlier_eq hit next
    have hfirst := hle _ List.mem_cons_self
    rw [List.foldl_cons]
    refine ⟨?_, fun other hother => ?_⟩
    · rcases List.mem_cons.mp hmem with h | h
      · rw [h]
        rcases hchosen with h | h
        · simp [h]
        · simp [h]
      · simp [h]
    · rcases List.mem_cons.mp hother with rfl | hother
      · exact Nat.le_trans hfirst hhit
      · rcases List.mem_cons.mp hother with rfl | hother
        · exact Nat.le_trans hfirst hnext
        · exact hle other (List.mem_cons_of_mem _ hother)

theorem offset?_cons {word rest : List Char} {c : Char} (h : ¬word <+: c :: rest) :
    offset? word (c :: rest) = (offset? word rest).map (· + 1) := by
  rw [offset?, if_neg (fun hp => h (List.isPrefixOf_iff_prefix.mp hp))]

theorem offset?_eq_zero {word rest : List Char} {c : Char} :
    offset? word (c :: rest) = some 0 ↔ word <+: c :: rest := by
  constructor
  · intro h
    by_cases hp : word <+: c :: rest
    · exact hp
    · rw [offset?_cons hp] at h
      cases ho : offset? word rest <;> simp [ho] at h
  · intro h
    rw [offset?, if_pos (List.isPrefixOf_iff_prefix.mpr h)]

theorem mem_hits {text : List Char} {hit : Nat × String} :
    hit ∈ hits text ↔ hit.2 ∈ deniedCommands ∧ offset? hit.2.toList text = some hit.1 := by
  obtain ⟨offset, name⟩ := hit
  simp only [hits, List.mem_filterMap, Option.map_eq_some_iff, Prod.mk.injEq]
  constructor
  · rintro ⟨other, hother, p, hp, rfl, rfl⟩
    exact ⟨hother, hp⟩
  · rintro ⟨hname, hp⟩
    exact ⟨name, hname, offset, hp, rfl, rfl⟩

theorem hits_cons {c : Char} {rest : List Char} (h : deniedAtStart? (c :: rest) = none) :
    hits (c :: rest) = (hits rest).map later := by
  rw [hits, hits, List.map_filterMap]
  refine List.filterMap_congr fun name hname => ?_
  rw [offset?_cons (deniedAtStart?_eq_none.mp h name hname)]
  cases offset? name.toList rest <;> rfl

theorem earliest?_hits_cons {c : Char} {rest : List Char} {name : String}
    (h : deniedAtStart? (c :: rest) = some name) : earliest? (hits (c :: rest)) = some (0, name) := by
  obtain ⟨hname, hprefix⟩ := deniedAtStart?_eq_some.mp h
  have hmem : (0, name) ∈ hits (c :: rest) := mem_hits.mpr ⟨hname, offset?_eq_zero.mpr hprefix⟩
  cases hs : hits (c :: rest) with
  | nil =>
    rw [hs] at hmem
    cases hmem
  | cons hit more =>
    rw [hs] at hmem
    obtain ⟨hfound, hle⟩ := foldl_earlier hit more
    rw [← hs] at hfound
    obtain ⟨hdenied, hoffset⟩ := mem_hits.mp hfound
    have hzero : (more.foldl earlier hit).1 = 0 := Nat.le_zero.mp (hle _ hmem)
    -- The earliest hit stands at the beginning, where `name` does.
    rw [hzero, offset?_eq_zero] at hoffset
    have hsame := deniedAtStart?_eq_some.mpr ⟨hdenied, hoffset⟩
    rw [h] at hsame
    exact congrArg some (Prod.ext hzero (Option.some.inj hsame).symm)

theorem findDeniedFrom_eq_hits (start : Int) (text : List Char) :
    findDeniedFrom start text = (earliest? (hits text)).map fun hit => (hit.2, start + hit.1) := by
  induction text generalizing start with
  | nil =>
    have hnone : hits [] = [] := by decide
    rw [findDeniedFrom, hnone]
    rfl
  | cons c rest ih =>
    rw [findDeniedFrom]
    cases h : deniedAtStart? (c :: rest) with
    | some name => simp [earliest?_hits_cons h]
    | none =>
      rw [hits_cons h, earliest?_later, Option.map_map]
      refine (ih (start + 1)).trans (Option.map_congr fun hit _ => ?_)
      simp only [later, Function.comp_apply, Int.natCast_add, Prod.mk.injEq, true_and]
      omega

theorem findDenied?_eq (text : List Char) : findDenied? text = findDeniedFrom 0 text := by
  rw [findDeniedFrom_eq_hits, findDenied?]
  simp

/-! ### The scan by pieces -/

theorem findDeniedFrom_append (start : Int) {run : List Char} (h : ∀ c ∈ run, c ≠ '\\') (cs : List Char) :
    findDeniedFrom start (run ++ cs) = findDeniedFrom (start + run.length) cs := by
  induction run generalizing start with
  | nil => simp
  | cons c run ih =>
    rw [List.cons_append, findDeniedFrom, deniedAtStart?_of_ne (h c List.mem_cons_self)]
    dsimp only
    rw [ih _ fun x hx => h x (List.mem_cons_of_mem c hx)]
    congr 1
    simp only [List.length_cons]
    omega

/-- The search in a text finds what the search among its tokens finds. -/
theorem findDeniedFrom_eq (start : Int) (cs : List Char) :
    findDeniedFrom start cs = firstDenied? (tokenizeFrom start cs) := by
  induction cs using pieces_induct generalizing start with
  | nil => simp [findDeniedFrom, firstDenied?]
  | cons c rest ih =>
    have hletters : ∀ x ∈ rest.take (piece c rest).2, x ≠ '\\' := by
      rintro x hx rfl
      exact absurd (inPiece_of_mem_take _ hx) (by decide)
    have hskip : findDeniedFrom (start + 1) rest =
        findDeniedFrom (start + 1 + (piece c rest).2) (rest.drop (piece c rest).2) := by
      conv => lhs; rw [← List.take_append_drop (piece c rest).2 rest]
      rw [findDeniedFrom_append _ hletters, List.length_take, Nat.min_eq_left (piece_more_le c rest)]
    rw [tokenizeFrom_cons, firstDenied?_append, firstDenied?_pieceTokens, findDeniedFrom, hskip, ih]
    cases deniedAtStart? (c :: rest) with
    | none => rfl
    | some name => rfl

theorem findDenied?_eq_firstDenied? (text : List Char) : findDenied? text = firstDenied? (tokenize text) :=
  (findDenied?_eq text).trans (findDeniedFrom_eq 0 text)

/-- A text that is not blank is read as its tokens are. -/
theorem parse_of_not_blank (scope : Scope) {text : List Char} (h : text.all Text.isBlank = false) :
    parse scope text = parseTokens scope text.length (tokenize text) := by
  rw [parse, h, findDenied?_eq_firstDenied?]
  cases ht : tokenize text with
  | nil => rfl
  | cons t tail =>
    rw [parseTokens, complete]
    cases hd : firstDenied? (t :: tail) with
    | none => simp
    | some hit => simp

/-! ### Refused tokens -/

/-- The token is a command that begins with a denied one. -/
def Token.Refused (t : Token) (name : String) : Prop :=
  t.kind = .command ∧ name ∈ deniedCommands ∧ name.toList <+: t.text.toList

theorem Token.denied?_eq_some {t : Token} {name : String} : t.denied? = some name ↔ t.Refused name := by
  unfold Token.denied? Token.Refused
  split
  · rename_i hk
    rw [deniedAtStart?_eq_some, and_iff_right hk]
  · rename_i hk
    constructor
    · intro h
      cases h
    · intro h
      exact absurd h.1 hk

theorem Token.not_refused_iff {t : Token} : (∀ name, ¬t.Refused name) ↔ t.denied? = none := by
  simp only [Option.eq_none_iff_forall_ne_some, ne_eq, Token.denied?_eq_some]

theorem firstDenied?_eq_some {ts : List Token} {name : String} {p : Int} :
    firstDenied? ts = some (name, p) ↔
      ∃ before t behind, ts = before ++ t :: behind ∧ (∀ u ∈ before, ∀ other, ¬u.Refused other) ∧
        t.Refused name ∧ t.start = p := by
  simp only [firstDenied?, List.findSome?_eq_some_iff, Option.map_eq_some_iff, Option.map_eq_none_iff,
    Token.not_refused_iff, Token.denied?_eq_some, Prod.mk.injEq]
  constructor
  · rintro ⟨before, t, behind, hts, ⟨other, hrefused, rfl, hp⟩, hbefore⟩
    exact ⟨before, t, behind, hts, hbefore, hrefused, hp⟩
  · rintro ⟨before, t, behind, hts, hbefore, hrefused, hp⟩
    exact ⟨before, t, behind, hts, ⟨name, hrefused, rfl, hp⟩, hbefore⟩

/-- The search in a text finds the first token that is refused, and what that is refused for. So a text that is not
    blank is read as its tokens are. -/
theorem findDenied?_iff_refused (text : List Char) :
    (∀ name p, findDenied? text = some (name, p) ↔
      ∃ before t behind, tokenize text = before ++ t :: behind ∧ (∀ u ∈ before, ∀ other, ¬u.Refused other) ∧
        t.Refused name ∧ t.start = p) ∧
    (findDenied? text = none ↔ ∀ t ∈ tokenize text, ∀ name, ¬t.Refused name) ∧
    ∀ scope, (∃ c ∈ text, Text.isBlank c = false) →
      parse scope text = parseTokens scope text.length (tokenize text) := by
  refine ⟨fun name p => ?_, ?_, fun scope hc => ?_⟩
  · rw [findDenied?_eq_firstDenied?, firstDenied?_eq_some]
  · rw [findDenied?_eq_firstDenied?, firstDenied?_eq_none]
    exact forall₂_congr fun t _ => Token.not_refused_iff.symm
  · obtain ⟨c, hmem, hblank⟩ := hc
    refine parse_of_not_blank scope (Bool.eq_false_iff.mpr fun hall => ?_)
    have hc := List.all_eq_true.mp hall c hmem
    rw [hblank] at hc
    cases hc

/-- Three refused commands in another order than among the denied ones, the first behind a lone backslash and each in a
    longer name. -/
def threeRefused : List Char := "\\\\lnx\\intop\\partialx".toList

theorem findDenied?_threeRefused :
    findDenied? threeRefused = some ("\\ln", 1) ∧ (∃ c ∈ threeRefused, Text.isBlank c = false) ∧
      ∀ scope, parse scope threeRefused = parseTokens scope threeRefused.length (tokenize threeRefused) := by
  have hfound : findDenied? threeRefused = some ("\\ln", 1) := by decide +kernel
  have hc : ∃ c ∈ threeRefused, Text.isBlank c = false := ⟨'x', by decide, by decide⟩
  exact ⟨hfound, hc, fun scope => (findDenied?_iff_refused threeRefused).2.2 scope hc⟩

end UnitCheck.Markup
