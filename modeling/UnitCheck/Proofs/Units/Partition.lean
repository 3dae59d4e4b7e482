import Mathlib.Data.List.Chain
import UnitCheck.Proofs.Units.Lexical

/-! # Tokens as a partition

The tokens of a text hold every character of it once and in order, each token characters of one kind and no
number or symbol next to another of its kind. There is one such partition of a text over the alphabet of unit
expressions, the one that `tokenize` gives; of any other text it names the first character outside. -/

namespace UnitCheck.Units

/-- A token of one character, or of one or more if those of its kind run together. -/
structure Token.Uniform (t : Token) : Prop where
  nonempty : t.text.toList ≠ []
  kind : ∀ c ∈ t.text.toList, kind? c = some t.kind
  single : t.kind.runs = false → t.text.toList.length = 1

/-- The tokens are the text that begins at `start`, cut where the kind changes and behind every sign. -/
structure Partition (start : Nat) (cs : List Char) (ts : List Token) : Prop where
  text : chars ts = cs
  starts : ∀ front t behind, ts = front ++ t :: behind → t.start = start + (chars front).length
  uniform : ∀ t ∈ ts, t.Uniform
  apart : ts.IsChain fun t u => t.kind.runs = true → t.kind ≠ u.kind

/-- The first token of a text has the kind of its first character. -/
theorem kind?_head {ts : List Token} (h : ∀ t ∈ ts, t.Uniform) :
    (chars ts).head?.bind kind? = ts.head?.map (·.kind) := by
  cases ts with
  | nil => rfl
  | cons t ts =>
    have ht := h t List.mem_cons_self
    obtain ⟨c, rest, hc⟩ := List.exists_cons_of_ne_nil ht.nonempty
    have hkind := ht.kind c (hc ▸ List.mem_cons_self)
    rw [chars_cons, hc, List.cons_append, List.head?_cons, Option.bind_some, hkind, List.head?_cons, Option.map_some]

/-! ### The cut of a text -/

section Cut
variable {start : Nat} {cs rest : List Char} {ts : List Token}

theorem Cut.uniform (h : Cut start cs ts) : ∀ t ∈ ts, t.Uniform := by
  have hkind := h.kind
  induction h with
  | nil => simp
  | sign _ _ ih =>
    obtain ⟨hfirst, hrest⟩ := List.forall_mem_cons.mp hkind
    exact List.forall_mem_cons.mpr ⟨⟨by simp, hfirst, fun _ => by simp⟩, ih hrest⟩
  | letters nonempty _ _ _ ih | digits nonempty _ _ _ ih =>
    obtain ⟨hfirst, hrest⟩ := List.forall_mem_cons.mp hkind
    exact List.forall_mem_cons.mpr ⟨⟨by simpa using nonempty, hfirst, nofun⟩, ih hrest⟩

theorem starts_cons {t : Token} {behind : List Token} (ht : t.start = start)
    (h : ∀ front u after, behind = front ++ u :: after →
      u.start = start + t.text.toList.length + (chars front).length) :
    ∀ front u after, t :: behind = front ++ u :: after → u.start = start + (chars front).length := by
  rintro (_ | ⟨v, front⟩) u after heq
  · obtain ⟨rfl, -⟩ := List.cons.inj heq
    exact ht
  · obtain ⟨rfl, hbehind⟩ := List.cons.inj heq
    rw [h front u after hbehind, chars_cons, List.length_append, Nat.add_assoc]

theorem Cut.starts (h : Cut start cs ts) :
    ∀ front t behind, ts = front ++ t :: behind → t.start = start + (chars front).length := by
  induction h with
  | nil => simp
  | sign _ _ ih => exact starts_cons rfl (by simpa using ih)
  | letters _ _ _ _ ih | digits _ _ _ _ ih => exact starts_cons rfl (by simpa using ih)

/-- What follows a run that is as long as it can be is of another kind. -/
theorem Cut.head_ne {k : Kind} (h : Cut start rest ts) (longest : ∀ c ∈ rest.head?, kind? c ≠ some k) :
    ∀ u ∈ ts.head?, k ≠ u.kind := by
  rintro u hu rfl
  have hhead := kind?_head h.uniform
  rw [h.chars_eq, hu, Option.map_some] at hhead
  obtain ⟨c, hc, hk⟩ := Option.bind_eq_some_iff.mp hhead
  exact longest c hc hk

theorem Cut.apart (h : Cut start cs ts) : ts.IsChain fun t u => t.kind.runs = true → t.kind ≠ u.kind := by
  induction h with
  | nil => exact .nil
  | sign sign _ ih =>
    refine List.isChain_cons.mpr ⟨fun u _ hr => ?_, ih⟩
    exact absurd hr (Bool.eq_false_iff.mp (mem_signs.mp sign).2)
  | letters _ _ longest behind ih =>
    refine List.isChain_cons.mpr ⟨fun u hu _ => behind.head_ne (fun c hc hk => ?_) u hu, ih⟩
    exact longest c hc (kind?_eq_symbol.mp hk)
  | digits _ _ longest behind ih =>
    refine List.isChain_cons.mpr ⟨fun u hu _ => behind.head_ne (fun c hc hk => ?_) u hu, ih⟩
    exact longest c hc (kind?_eq_number.mp hk)

theorem Cut.partition (h : Cut start cs ts) : Partition start cs ts := ⟨h.chars_eq, h.starts, h.uniform, h.apart⟩

/-- A partition begins with a token at its start, and goes on behind it. -/
theorem Partition.tail {t : Token} (h : Partition start cs (t :: ts)) :
    t.start = start ∧ cs = t.text.toList ++ chars ts ∧ Partition (start + t.text.toList.length) (chars ts) ts := by
  refine ⟨h.starts [] t ts rfl, h.text.symm, rfl, fun front u behind heq => ?_, ?_, (List.isChain_cons.mp h.apart).2⟩
  · rw [h.starts (t :: front) u behind (heq ▸ rfl), chars_cons, List.length_append, Nat.add_assoc]
  · exact fun u hu => h.uniform u (List.mem_cons_of_mem t hu)

theorem Partition.cut (h : Partition start cs ts) : Cut start cs ts := by
  induction ts generalizing start cs with
  | nil =>
    obtain rfl : [] = cs := h.text
    exact .nil
  | cons t ts ih =>
    obtain ⟨rfl, rfl, htail⟩ := h.tail
    have hbehind := ih htail
    have ht := h.uniform t List.mem_cons_self
    obtain ⟨k, text, start⟩ := t
    cases hr : k.runs with
    | true =>
      have hlongest : ∀ c ∈ (chars ts).head?, kind? c ≠ some k := fun c hc hk => by
        have hhead := kind?_head htail.uniform
        rw [hc, Option.bind_some, hk, eq_comm, Option.map_eq_some_iff] at hhead
        obtain ⟨u, hu, rfl⟩ := hhead
        exact (List.isChain_cons.mp h.apart).1 u hu hr rfl
      simpa using Cut.run hr ht.nonempty ht.kind hlongest hbehind
    | false =>
      obtain ⟨c, hc⟩ := List.length_eq_one_iff.mp (ht.single hr)
      have hkind : kind? c = some k := ht.kind c (hc ▸ List.mem_cons_self)
      obtain rfl : text = String.ofList [c] := by rw [← hc, String.ofList_toList]
      simpa using Cut.sign (mem_signs.mpr ⟨hkind, hr⟩) (by simpa using hbehind)

theorem tokenize_eq_ok_iff_partition : tokenize start cs = .ok ts ↔ Partition start cs ts :=
  ⟨fun h => (cut_of_tokenize h).partition, fun h => tokenize_of_cut h.cut⟩

end Cut

/-! ### The first character outside -/

theorem kind?_isSome {c : Char} : (kind? c).isSome = true ↔ InAlphabet c := by
  constructor
  · intro h
    obtain ⟨k, hk⟩ := Option.isSome_iff_exists.mp h
    cases hr : k.runs with
    | false => exact Or.inr (Or.inr (List.mem_map.mpr ⟨(c, k), mem_signs.mpr ⟨hk, hr⟩, rfl⟩))
    | true =>
      cases k <;> cases hr
      · exact Or.inr (Or.inl (kind?_eq_number.mp hk))
      · exact Or.inl (kind?_eq_symbol.mp hk)
  · rintro (h | h | h)
    · rw [kind?_eq_symbol.mpr h]
      rfl
    · rw [kind?_eq_number.mpr h]
      rfl
    · obtain ⟨⟨_, k⟩, hk, rfl⟩ := List.mem_map.mp h
      rw [(mem_signs.mp hk).1]
      rfl

section Outside
variable {start : Nat} {cs : List Char} {f : Failure Cause}

/-- The failure names the first character outside the alphabet and lies where it stands. -/
def FirstOutside (start : Nat) (cs : List Char) (f : Failure Cause) : Prop :=
  ∃ front c behind, cs = front ++ c :: behind ∧ (∀ d ∈ front, InAlphabet d) ∧ ¬InAlphabet c ∧
    f = ⟨.unexpectedCharacter c, (start + front.length : Nat)⟩

/-- A text has one first character outside. -/
theorem FirstOutside.unique {g : Failure Cause} (hf : FirstOutside start cs f) (hg : FirstOutside start cs g) :
    f = g := by
  obtain ⟨front, c, behind, rfl, hfront, hc, rfl⟩ := hf
  obtain ⟨front', c', behind', heq, hfront', hc', rfl⟩ := hg
  have hrun {us vs : List Char} {d : Char} (hus : ∀ x ∈ us, InAlphabet x) (hd : ¬InAlphabet d) :
      (us ++ d :: vs).takeWhile (fun x => (kind? x).isSome) = us :=
    Text.takeWhile_run (fun x hx => kind?_isSome.mpr (hus x hx)) fun x hx => by
      obtain rfl := Option.some.inj hx
      exact Bool.eq_false_iff.mpr fun h => hd (kind?_isSome.mp h)
  obtain rfl : front = front' := by rw [← hrun hfront hc, heq, hrun hfront' hc']
  obtain ⟨rfl, -⟩ := List.cons.inj (List.append_cancel_left heq)
  rfl

theorem firstOutside_of_tokenize (h : tokenize start cs = .error f) : FirstOutside start cs f := by
  fun_induction tokenize start cs with
  | case1 => cases h
  | case2 start c rest hk =>
    cases h
    refine ⟨[], c, rest, rfl, nofun, fun hc => ?_, rfl⟩
    rw [← kind?_isSome, hk] at hc
    cases hc
  | case3 start c rest k hk run token ih =>
    obtain ⟨front, d, behind, heq, hfront, hd, rfl⟩ := ih (map_eq_error.mp h)
    obtain ⟨hrest, hkind⟩ : run <+: rest ∧ ∀ x ∈ run, kind? x = some k := by
      dsimp only [run]
      split
      · exact ⟨List.takeWhile_prefix _, fun x hx => of_decide_eq_true (List.all_eq_true.mp List.all_takeWhile x hx)⟩
      · exact ⟨List.nil_prefix, nofun⟩
    have hin : ∀ x ∈ c :: run, InAlphabet x := List.forall_mem_cons.mpr
      ⟨kind?_isSome.mp (hk ▸ rfl), fun x hx => kind?_isSome.mp (hkind x hx ▸ rfl)⟩
    have hposition : start + 1 + run.length + front.length = start + (c :: run ++ front).length := by
      rw [List.length_append, List.length_cons]
      omega
    refine ⟨c :: run ++ front, d, behind, ?_, List.forall_mem_append.mpr ⟨hin, hfront⟩, hd, by rw [hposition]⟩
    rw [List.append_assoc, ← heq, List.cons_append, List.prefix_iff_eq_append.mp hrest]

theorem exists_outside (hout : ∃ c ∈ cs, ¬InAlphabet c) : ∃ f, tokenize start cs = .error f := by
  obtain ⟨c, hc, hnot⟩ := hout
  rcases ok_or_error (tokenize start cs) with ⟨ts, hts⟩ | hf
  · exact absurd ((cut_of_tokenize hts).inAlphabet c hc) hnot
  · exact hf

theorem tokenize_eq_error : tokenize start cs = .error f ↔ FirstOutside start cs f := by
  refine ⟨firstOutside_of_tokenize, fun hf => ?_⟩
  obtain ⟨front, c, behind, rfl, -, hc, -⟩ := id hf
  obtain ⟨g, hg⟩ : ∃ g, tokenize start (front ++ c :: behind) = .error g :=
    exists_outside ⟨c, List.mem_append_right front List.mem_cons_self, hc⟩
  rw [hg, hf.unique (firstOutside_of_tokenize hg)]

/-- The tokens of a text are the one partition of it, each beginning where those before it end. There is none exactly
    when a character of the text lies outside the alphabet, and the failure is then the one at the first of those. -/
theorem tokenize_partitions (cs : List Char) :
    (∀ ts, tokenize 0 cs = .ok ts ↔ Partition 0 cs ts) ∧
      (∀ f, tokenize 0 cs = .error f ↔ f.cause.code = .malformed ∧ FirstOutside 0 cs f) ∧
      ((∃ f, tokenize 0 cs = .error f) ↔ ∃ c ∈ cs, ¬InAlphabet c) := by
  refine ⟨fun ts => tokenize_eq_ok_iff_partition, fun f => ?_, ?_, exists_outside⟩
  · rw [tokenize_eq_error]
    refine (and_iff_right_of_imp ?_).symm
    rintro ⟨front, c, behind, -, -, -, rfl⟩
    rfl
  · rintro ⟨f, hf⟩
    obtain ⟨front, c, behind, rfl, -, hc, -⟩ := firstOutside_of_tokenize hf
    exact ⟨c, List.mem_append_right front List.mem_cons_self, hc⟩

end Outside

end UnitCheck.Units
