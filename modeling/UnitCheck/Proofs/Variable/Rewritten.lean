import UnitCheck.Proofs.Text.Lines
import UnitCheck.Proofs.Text.Trimmed
import UnitCheck.Variable.Text

/-! # Declarations written and read again

A declaration that was read from a line can be written on a line of its own: its symbol, a colon, a space and
its unit. What reading took away is not there any more (`Plain`): there is no colon in the symbol and no `#` at
its beginning, no comment in the unit, no punctuation at its end, and no blank at the ends of either. So the
line says the same declaration, and a text of such lines says what was read, without a warning. -/

namespace UnitCheck.Declaration

open Text

/-- What is dropped at the end of a unit. -/
def isFinal (c : Char) : Bool := isBlank c || c = ',' || c = ';'

/-- A declaration as it is read from a line. -/
structure Plain (d : Declaration) : Prop where
  symbol_trimmed : Trimmed d.symbol.toList
  symbol_first : ∀ c ∈ d.symbol.toList.head?, c ≠ '#'
  no_colon : ':' ∉ d.symbol.toList
  symbol_line : OneLine d.symbol.toList
  unit_ne : d.unitText ≠ ""
  unit_first : ∀ c ∈ d.unitText.toList.head?, isBlank c = false
  unit_last : ∀ c ∈ d.unitText.toList.getLast?, isFinal c = false
  no_comment : '#' ∉ d.unitText.toList
  unit_line : OneLine d.unitText.toList

/-- The line of a declaration. -/
def written (d : Declaration) : List Char := d.symbol.toList ++ ':' :: ' ' :: d.unitText.toList

theorem written_eq (d : Declaration) : written d = (d.symbol.toList ++ [':', ' ']) ++ d.unitText.toList := by
  simp [written]

/-! ### One line -/

section
variable {raw front behind : List Char} {d : Declaration}

theorem ne_colon (h : ':' ∉ front) : ∀ c ∈ front, decide (c ≠ ':') = true := by
  intro c hc
  rw [decide_eq_true_eq]
  rintro rfl
  exact h hc

theorem readLine_of_colon (h : trim raw = front ++ ':' :: behind) (hhash : ∀ c ∈ (trim raw).head?, c ≠ '#')
    (hfront : ':' ∉ front) :
    readLine raw =
      if hs : String.ofList (trim front) = "" then .faulty .emptySymbol
      else if String.ofList (unitPart behind) = "" then .faulty (.emptyUnit (String.ofList (trim front)))
      else .declares ⟨String.ofList (trim front), String.ofList (unitPart behind), hs⟩ := by
  have hstop : ∀ c ∈ (':' :: behind).head?, decide (c ≠ ':') = false := by simp
  have htake : (trim raw).takeWhile (· ≠ ':') = front := by
    rw [h]
    exact takeWhile_run (ne_colon hfront) hstop
  have hdrop : (trim raw).dropWhile (· ≠ ':') = ':' :: behind := by
    rw [h]
    exact dropWhile_run (ne_colon hfront) hstop
  unfold readLine
  split
  · rename_i hnil
    rw [hnil] at h
    cases front <;> cases h
  · rename_i tail hline
    rw [hline] at hhash
    exact absurd rfl (hhash '#' rfl)
  · rw [htake, hdrop]

theorem exists_front (h : readLine raw = .declares d) :
    ∃ front behind, trim raw = front ++ ':' :: behind ∧ (∀ c ∈ (trim raw).head?, c ≠ '#') ∧ ':' ∉ front := by
  have hhash : ∀ c ∈ (trim raw).head?, c ≠ '#' := by
    rintro c hc rfl
    obtain ⟨tail, hline⟩ := List.head?_eq_some_iff.mp hc
    rw [readLine, hline] at h
    cases h
  have hcolon : ':' ∈ trim raw := by
    by_contra hno
    have hdrop : (trim raw).dropWhile (· ≠ ':') = [] := dropWhile_all (ne_colon hno)
    unfold readLine at h
    split at h
    · cases h
    · cases h
    · rw [hdrop] at h
      cases h
  obtain ⟨front, behind, hline, hfront⟩ := List.eq_append_cons_of_mem hcolon
  exact ⟨front, behind, hline, hhash, hfront⟩

/-- A line is a declaration if it has a colon, is no comment, and leaves a symbol and a unit. -/
theorem readLine_eq_declares : readLine raw = .declares d ↔
    ∃ front behind, trim raw = front ++ ':' :: behind ∧ (∀ c ∈ (trim raw).head?, c ≠ '#') ∧ ':' ∉ front ∧
      String.ofList (trim front) = d.symbol ∧ String.ofList (unitPart behind) = d.unitText ∧ d.unitText ≠ "" := by
  constructor
  · intro h
    obtain ⟨front, behind, hline, hhash, hfront⟩ := exists_front h
    rw [readLine_of_colon hline hhash hfront] at h
    split at h
    · cases h
    · split at h
      · cases h
      · rename_i hu
        cases h
        exact ⟨front, behind, hline, hhash, hfront, rfl, rfl, hu⟩
  · rintro ⟨front, behind, hline, hhash, hfront, hs, hu, hne⟩
    rw [readLine_of_colon hline hhash hfront, hu]
    simp only [hs, d.symbol_ne, hne, dite_false, if_false]

end

/-! ### The unit -/

section
variable {text : List Char} {c : Char}

theorem mem_unitPart (h : c ∈ unitPart text) : c ∈ text ∧ c ≠ '#' := by
  have htake : c ∈ text.takeWhile (· ≠ '#') := mem_of_mem_trim ((prefix_dropEnd _ _).subset h)
  exact ⟨(List.takeWhile_sublist _).subset htake, by simpa using List.all_eq_true.mp List.all_takeWhile c htake⟩

theorem first_unitPart : ∀ c ∈ (unitPart text).head?, isBlank c = false :=
  first_of_isPrefix (prefix_dropEnd _ _) (trimmed_trim _).first

theorem last_unitPart : ∀ c ∈ (unitPart text).getLast?, isFinal c = false :=
  last_dropEnd _ _

theorem isBlank_of_not_final (h : isFinal c = false) : isBlank c = false := by
  simp only [isFinal, Bool.or_eq_false_iff] at h
  exact h.1.1

theorem unitPart_of_plain (hcomment : '#' ∉ text) (hfirst : ∀ c ∈ text.head?, isBlank c = false)
    (hlast : ∀ c ∈ text.getLast?, isFinal c = false) : unitPart (' ' :: text) = text := by
  have hall : ∀ c ∈ ' ' :: text, decide (c ≠ '#') = true := by
    intro c hc
    rw [decide_eq_true_eq]
    rintro rfl
    simp [hcomment] at hc
  have htrimmed : Trimmed text := ⟨hfirst, fun c hc => isBlank_of_not_final (hlast c hc)⟩
  rw [unitPart, takeWhile_all hall, trim_blank_cons (by decide), htrimmed.trim_eq]
  exact dropEnd_of_last hlast

end

/-! ### There and back -/

section
variable {raw text : List Char} {d : Declaration}

theorem toList_ne_nil {s : String} (h : s ≠ "") : s.toList ≠ [] := by
  simpa using h

theorem plain_of_declares (h : readLine raw = .declares d) (hraw : OneLine raw) : Plain d := by
  obtain ⟨front, behind, hline, hhash, hfront, hs, hu, hne⟩ := readLine_eq_declares.mp h
  have hsymbol : d.symbol.toList = trim front := by rw [← hs, String.toList_ofList]
  have hunit : d.unitText.toList = unitPart behind := by rw [← hu, String.toList_ofList]
  have hmem : ∀ c ∈ front ++ ':' :: behind, isLineEnd c = false := fun c hc => hraw c (mem_of_mem_trim (hline ▸ hc))
  have hfront' : front <+: trim raw := ⟨_, hline.symm⟩
  have hfirst : ∀ c ∈ front.head?, isBlank c = false := first_of_isPrefix hfront' (trimmed_trim raw).first
  exact {
    symbol_trimmed := hsymbol ▸ trimmed_trim front
    symbol_first := hsymbol ▸ first_of_isPrefix ((prefix_trim hfirst).trans hfront') hhash
    no_colon := fun hc => hfront (mem_of_mem_trim (hsymbol ▸ hc))
    symbol_line := fun c hc => hmem c (List.mem_append_left _ (mem_of_mem_trim (hsymbol ▸ hc)))
    unit_ne := hne
    unit_first := hunit ▸ first_unitPart
    unit_last := hunit ▸ last_unitPart
    no_comment := fun hc => (mem_unitPart (hunit ▸ hc)).2 rfl
    unit_line := fun c hc => hmem c (List.mem_append_right _ (List.mem_cons_of_mem _ (mem_unitPart (hunit ▸ hc)).1)) }

theorem written_ne (d : Declaration) : written d ≠ [] := by
  simp [written]

theorem Plain.oneLine_written (h : Plain d) : OneLine (written d) := by
  have hmarks : OneLine [':', ' '] :=
    oneLine_cons.mpr ⟨by decide, oneLine_cons.mpr ⟨by decide, List.forall_mem_nil _⟩⟩
  intro c hc
  simp only [written_eq, List.mem_append] at hc
  rcases hc with (hc | hc) | hc
  · exact h.symbol_line c hc
  · exact hmarks c hc
  · exact h.unit_line c hc

theorem Plain.trimmed_written (h : Plain d) : Trimmed (written d) where
  first c hc := by
    rw [written, List.head?_append_of_ne_nil _ (toList_ne_nil d.symbol_ne)] at hc
    exact h.symbol_trimmed.first c hc
  last c hc := by
    rw [written_eq, List.getLast?_append_of_ne_nil _ (toList_ne_nil h.unit_ne)] at hc
    exact isBlank_of_not_final (h.unit_last c hc)

theorem Plain.readLine_written (h : Plain d) : readLine (written d) = .declares d := by
  refine readLine_eq_declares.mpr ⟨d.symbol.toList, ' ' :: d.unitText.toList, ?_, ?_, h.no_colon, ?_, ?_, h.unit_ne⟩
  · exact h.trimmed_written.trim_eq
  · rw [h.trimmed_written.trim_eq, written, List.head?_append_of_ne_nil _ (toList_ne_nil d.symbol_ne)]
    exact h.symbol_first
  · rw [h.symbol_trimmed.trim_eq, String.ofList_toList]
  · rw [unitPart_of_plain h.no_comment h.unit_first h.unit_last, String.ofList_toList]

/-! ### Whole texts -/

/-- The declaration that a line is. -/
def Line.declaration? : Line → Option Declaration
  | .declares d => some d
  | .silent | .faulty _ => none

theorem declaration?_eq_some {line : Line} : line.declaration? = some d ↔ line = .declares d := by
  cases line <;> simp [Line.declaration?]

theorem declarations_readLines (number : Nat) (ls : List (List Char)) :
    (readLines number ls).declarations = ls.filterMap fun line => (readLine line).declaration? := by
  induction ls generalizing number with
  | nil => rfl
  | cons line ls ih =>
    rw [readLines, List.filterMap_cons]
    cases readLine line with
    | silent | faulty => exact ih (number + 1)
    | declares d => exact congrArg (d :: ·) (ih (number + 1))

theorem plain_of_mem_readText (h : d ∈ (readText text).declarations) : Plain d := by
  rw [readText, declarations_readLines] at h
  obtain ⟨line, hline, hd⟩ := List.mem_filterMap.mp h
  exact plain_of_declares (declaration?_eq_some.mp hd) (oneLine_of_mem_lines text line hline)

theorem readLines_written {ds : List Declaration} (h : ∀ d ∈ ds, Plain d) (number : Nat) :
    readLines number (ds.map written) = ⟨ds, []⟩ := by
  induction ds generalizing number with
  | nil => rfl
  | cons d ds ih =>
    obtain ⟨hd, hds⟩ := List.forall_mem_cons.mp h
    rw [List.map_cons, readLines, hd.readLine_written, ih hds]

/-- What was read from a text and is written one on a line, with or without an end behind the last line, is read again
    as the same declarations and without a warning. Each of them has the symbol that a declaration must have. -/
theorem readText_written (text : List Char) :
    (∀ d ∈ (readText text).declarations, of? d.symbol d.unitText = some d) ∧
      readText (['\n'].intercalate ((readText text).declarations.map written)) = ⟨(readText text).declarations, []⟩ ∧
      readText (((readText text).declarations.map written).flatMap (· ++ ['\n'])) =
        ⟨(readText text).declarations, []⟩ := by
  have hplain : ∀ d ∈ (readText text).declarations, Plain d := fun d hd => plain_of_mem_readText hd
  have hlines : ∀ line ∈ (readText text).declarations.map written, OneLine line ∧ line ≠ [] := by
    intro line hline
    obtain ⟨d, hd, rfl⟩ := List.mem_map.mp hline
    exact ⟨(hplain d hd).oneLine_written, written_ne d⟩
  refine ⟨fun d _ => by simp [of?, d.symbol_ne], ?_, ?_⟩
  · rw [readText, lines_intercalate hlines]
    exact readLines_written hplain 1
  · have hended := lines_flatMap (fun line hline => (hlines line hline).1) []
    rw [List.append_nil] at hended
    rw [readText, hended, lines, List.append_nil]
    exact readLines_written hplain 1

example : (readText " m : kg ,\t# mass\r\n\n\\rho: a:b;; ".toList).declarations.map (String.ofList ·.written) =
    ["m: kg", "\\rho: a:b"] := by
  decide +kernel

end

end UnitCheck.Declaration
