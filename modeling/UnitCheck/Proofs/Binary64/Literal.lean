import UnitCheck.Binary64.Literal
import UnitCheck.Proofs.Binary64.Integers
import UnitCheck.Proofs.Binary64.Shortest
import UnitCheck.Proofs.Text.Run

/-! # Numbers read back

Every finite number is read back from its text: the shortest decimal rounds to it, and the point, the zeros
and the exponent mark of the text do not change the decimal. So no two numbers have the same text. A positive
number that is an integer or at least 0.0001 has a text without an exponent mark. -/

namespace UnitCheck.Binary64

open UnitCheck.Text

/-! ### Number texts -/

section Texts
variable {cs ws fs es : List Char}

/-- Digits and points. -/
def Numeral (cs : List Char) : Prop := ∀ c ∈ cs, c.isDigit ∨ c = '.'

/-- The characters that numbers are written with. -/
def textChars : List Char := '.' :: 'e' :: '+' :: '-' :: digits

/-- A number text without a sign in front. -/
structure Unsigned (cs : List Char) : Prop where
  first : ∃ c rest, cs = c :: rest ∧ c.isDigit
  chars : ∀ c ∈ cs, c ∈ textChars

/-- A text with the sign that a number has. -/
def signed (negative : Bool) (cs : List Char) : List Char := if negative then '-' :: cs else cs

theorem signed_false (cs : List Char) : signed false cs = cs := rfl

theorem mem_textChars_of_digit {c : Char} (h : c.isDigit) : c ∈ textChars := by
  simp [textChars, mem_digits, h]

theorem Unsigned.signed_chars (h : Unsigned cs) (negative : Bool) : ∀ c ∈ signed negative cs, c ∈ textChars := by
  cases negative with
  | false => exact h.chars
  | true => exact List.forall_mem_cons.mpr ⟨by decide, h.chars⟩

theorem Unsigned.of_digits (hne : cs ≠ []) (h : ∀ c ∈ cs, c.isDigit) : Unsigned cs := by
  obtain ⟨c, rest, rfl⟩ := List.exists_cons_of_ne_nil hne
  exact ⟨⟨c, rest, rfl, h c List.mem_cons_self⟩, fun d hd => mem_textChars_of_digit (h d hd)⟩

theorem Unsigned.append (h : Unsigned cs) (hrest : ∀ c ∈ fs, c ∈ textChars) : Unsigned (cs ++ fs) := by
  obtain ⟨⟨c, rest, rfl, hc⟩, hchars⟩ := h
  exact ⟨⟨c, rest ++ fs, rfl, hc⟩, List.forall_mem_append.mpr ⟨hchars, hrest⟩⟩

theorem trimSpace_of_textChars (h : ∀ c ∈ cs, c ∈ textChars) : trimSpace cs = cs := by
  have hspace : textChars.all (!isSpace ·) = true := by decide
  have drop {l : List Char} (hl : ∀ c ∈ l, c ∈ textChars) : l.dropWhile isSpace = l := by
    cases l with
    | nil => rfl
    | cons c l =>
      have hc := List.all_eq_true.mp hspace c (hl c List.mem_cons_self)
      rw [List.dropWhile_cons_of_neg (by simpa using hc)]
  rw [trimSpace, drop h, dropEnd, drop fun c hc => h c (List.mem_reverse.mp hc), List.reverse_reverse]

theorem asciiDigit_of_textChars (h : ∀ c ∈ cs, c ∈ textChars) : cs.map asciiDigit = cs := by
  have hall : textChars.all (fun c => asciiDigit c == c) = true := by decide
  exact (List.map_congr_left fun c hc => beq_iff_eq.mp (List.all_eq_true.mp hall c (h c hc))).trans (List.map_id cs)

theorem Unsigned.splitSign_signed (h : Unsigned cs) (negative : Bool) : splitSign (signed negative cs) = (negative, cs) := by
  obtain ⟨⟨c, rest, rfl, hc⟩, -⟩ := h
  cases negative with
  | true => rfl
  | false =>
    rw [signed_false]
    unfold splitSign
    split
    · rename_i heq
      cases heq
      cases hc
    · rename_i heq
      cases heq
      cases hc
    · rfl

theorem Unsigned.ne_word (h : Unsigned cs) (word : String) {d : Char} {rest : List Char} (hw : word.toList = d :: rest)
    (hd : digits.all (fun x => x.toLower != d) = true) : String.ofList (cs.map Char.toLower) ≠ word := by
  obtain ⟨⟨c, tail, rfl, hc⟩, -⟩ := h
  intro he
  have hlist : (c :: tail).map Char.toLower = d :: rest := by rw [← hw, ← he, String.toList_ofList]
  have hc' := List.all_eq_true.mp hd c (mem_digits.mpr hc)
  simp [(List.cons.inj hlist).1] at hc'

/-- A sign and a number text that begins with a digit. -/
theorem Unsigned.read?_signed (h : Unsigned cs) (negative : Bool) : read? (signed negative cs) = readDecimal? negative cs := by
  have hinf := h.ne_word "inf" rfl (by decide)
  have hinfinity := h.ne_word "infinity" rfl (by decide)
  have hnan := h.ne_word "nan" rfl (by decide)
  have hchars := h.signed_chars negative
  simp [read?, trimSpace_of_textChars hchars, asciiDigit_of_textChars hchars, h.splitSign_signed, hinf, hinfinity, hnan]

/-! ### Decimals -/

theorem ne_point_of_digits (h : ∀ c ∈ cs, c.isDigit) : ∀ c ∈ cs, (c != '.') = true := fun c hc => by
  have hall : digits.all (· != '.') = true := by decide
  exact List.all_eq_true.mp hall c (mem_digits.mpr (h c hc))

theorem optionalDigits?_of_digits (h : ∀ c ∈ cs, c.isDigit) : optionalDigits? cs = some cs := by
  cases cs with
  | nil => rfl
  | cons c cs => exact digitGroups?_of_digits (List.cons_ne_nil c cs) h

theorem readMantissa?_digits (hne : cs ≠ []) (h : ∀ c ∈ cs, c.isDigit) : readMantissa? cs = some (cs, 0) := by
  have hs := ne_point_of_digits h
  simp [readMantissa?, takeWhile_all hs, dropWhile_all hs, digitGroups?_of_digits hne h]

theorem readMantissa?_point (hne : ws ≠ []) (hw : ∀ c ∈ ws, c.isDigit) (hf : ∀ c ∈ fs, c.isDigit) :
    readMantissa? (ws ++ '.' :: fs) = some (ws ++ fs, fs.length) := by
  have hwhole : (ws ++ '.' :: fs).takeWhile (· != '.') = ws := takeWhile_run (ne_point_of_digits hw) (by simp)
  have hbehind : (ws ++ '.' :: fs).dropWhile (· != '.') = '.' :: fs := dropWhile_run (ne_point_of_digits hw) (by simp)
  simp [readMantissa?, hwhole, hbehind, optionalDigits?_of_digits hw, optionalDigits?_of_digits hf, hne]

theorem Numeral.not_mark (h : Numeral cs) : ∀ c ∈ cs, (!(c == 'e' || c == 'E')) = true := fun c hc =>
  of_inNumeral (p := fun c => !(c == 'e' || c == 'E')) (by decide) (h c hc)

theorem Numeral.readDecimal?_eq (h : Numeral cs) (negative : Bool) :
    readDecimal? negative cs = (readMantissa? cs).map fun m => ofDecimal negative (ofDigits m.1) (-m.2) := by
  simp only [readDecimal?, takeWhile_all h.not_mark, dropWhile_all h.not_mark]
  cases readMantissa? cs <;> simp

theorem numeral_digits (h : ∀ c ∈ cs, c.isDigit) : Numeral cs := fun c hc => Or.inl (h c hc)

theorem numeral_point (hw : ∀ c ∈ ws, c.isDigit) (hf : ∀ c ∈ fs, c.isDigit) : Numeral (ws ++ '.' :: fs) := by
  refine List.forall_mem_append.mpr ⟨numeral_digits hw, List.forall_mem_cons.mpr ⟨Or.inr rfl, numeral_digits hf⟩⟩

/-- Digits read as an integer. -/
theorem readDecimal?_digits (negative : Bool) (hne : cs ≠ []) (h : ∀ c ∈ cs, c.isDigit) :
    readDecimal? negative cs = some (ofDecimal negative (ofDigits cs) 0) := by
  rw [(numeral_digits h).readDecimal?_eq, readMantissa?_digits hne h]
  rfl

/-- Digits with a point among them read as those digits, scaled by how many are behind the point. -/
theorem readDecimal?_point (negative : Bool) (hne : ws ≠ []) (hw : ∀ c ∈ ws, c.isDigit) (hf : ∀ c ∈ fs, c.isDigit) :
    readDecimal? negative (ws ++ '.' :: fs) = some (ofDecimal negative (ofDigits (ws ++ fs)) (-fs.length)) := by
  rw [(numeral_point hw hf).readDecimal?_eq, readMantissa?_point hne hw hf]
  rfl

/-- An exponent mark scales what is read before it. -/
theorem readDecimal?_mark {negative : Bool} {ds : List Char} {behind : Nat} {e : Int} (hn : Numeral cs)
    (hm : readMantissa? cs = some (ds, behind)) (he : readExponent? es = some e) :
    readDecimal? negative (cs ++ 'e' :: es) = some (ofDecimal negative (ofDigits ds) (e - behind)) := by
  have hbefore : (cs ++ 'e' :: es).takeWhile (fun c => !(c == 'e' || c == 'E')) = cs := takeWhile_run hn.not_mark (by simp)
  have hbehind : (cs ++ 'e' :: es).dropWhile (fun c => !(c == 'e' || c == 'E')) = 'e' :: es := dropWhile_run hn.not_mark (by simp)
  simp only [readDecimal?, hbefore, hbehind, hm, he]

theorem readExponent?_signed (negative : Bool) (hne : es ≠ []) (h : ∀ c ∈ es, c.isDigit) :
    readExponent? ((if negative then '-' else '+') :: es) = some (if negative then -(ofDigits es : Int) else ofDigits es) := by
  cases negative <;> simp [readExponent?, splitSign, digitGroups?_of_digits hne h]

end Texts

/-! ### Significant digits -/

/-- The significant digits of a decimal number, and how many zeros are left out behind them. -/
structure Significant (d : Decimal) (kept : List Char) (zeros : Nat) : Prop where
  nonempty : kept ≠ []
  digits : ∀ c ∈ kept, c.isDigit
  value : ofDigits kept * 10 ^ zeros = d.digits
  count : kept.length + zeros = digitCount d.digits

theorem scientific_significant {d : Decimal} (hd : 0 < d.digits) : ∃ zeros, Significant d d.scientific.1 zeros := by
  obtain ⟨zeros, hz⟩ : ∃ zeros, (Nat.toDigits 10 d.digits).reverse.takeWhile (· == '0') = List.replicate zeros '0' :=
    ⟨_, List.eq_replicate_of_mem fun c hc => beq_iff_eq.mp (List.all_eq_true.mp List.all_takeWhile c hc)⟩
  have hall : d.scientific.1 ++ List.replicate zeros '0' = Nat.toDigits 10 d.digits := by
    have happend := List.takeWhile_append_dropWhile (p := (· == '0')) (l := (Nat.toDigits 10 d.digits).reverse)
    rw [hz] at happend
    have hreverse := congrArg List.reverse happend
    rwa [List.reverse_append, List.reverse_replicate, List.reverse_reverse] at hreverse
  have hvalue : ofDigits d.scientific.1 * 10 ^ zeros = d.digits := by
    rw [← ofDigits_append_zeros, hall, ofDigits_toDigits]
  refine ⟨zeros, fun hnil => ?_, fun c hc => ?_, hvalue, ?_⟩
  · rw [hnil, show ofDigits [] = 0 from rfl, Nat.zero_mul] at hvalue
    omega
  · exact isDigit_of_mem_toDigits c (hall ▸ List.mem_append_left _ hc)
  · rw [digitCount, ← hall, List.length_append, List.length_replicate]

/-- Digits with a point, zeros put where the point needs them, are the digits scaled to where the first one stands. -/
theorem positional_eq {ds : List Char} (leading : Int) (hne : ds ≠ []) (hd : ∀ c ∈ ds, c.isDigit) :
    ∃ (ws fs : List Char) (zeros : Nat), positional ds leading = ws ++ '.' :: fs ∧ ws ≠ [] ∧
      (∀ c ∈ ws, c.isDigit) ∧ (∀ c ∈ fs, c.isDigit) ∧ ofDigits (ws ++ fs) = ofDigits ds * 10 ^ zeros ∧
        (ds.length + zeros : Int) - fs.length = leading + 1 := by
  have hzero : ∀ n, ∀ c ∈ List.replicate n '0', c.isDigit := fun n c hc => by
    rw [(List.mem_replicate.mp hc).2]
    rfl
  unfold positional
  split
  · refine ⟨['0'], List.replicate (leading.natAbs - 1) '0' ++ ds, 0, rfl, List.cons_ne_nil _ _, hzero 1, ?_, ?_, ?_⟩
    · exact fun c hc => (List.mem_append.mp hc).elim (hzero _ c) (hd c)
    · rw [Nat.pow_zero, Nat.mul_one]
      exact (ofDigits_zeros_append 1 _).trans (ofDigits_zeros_append _ ds)
    · simp only [List.length_append, List.length_replicate]
      omega
  · dsimp only
    have htake : ∀ c ∈ ds.take (leading.natAbs + 1) ++ List.replicate (leading.natAbs + 1 - ds.length) '0', c.isDigit :=
      fun c hc => (List.mem_append.mp hc).elim (fun hc => hd c (List.mem_of_mem_take hc)) (hzero _ c)
    split
    · rename_i hfraction
      have hle : ds.length ≤ leading.natAbs + 1 := List.drop_eq_nil_iff.mp (List.isEmpty_iff.mp hfraction)
      refine ⟨_, ['0'], leading.natAbs + 1 - ds.length + 1, rfl, ?_, htake, hzero 1, ?_, ?_⟩
      · simp [hne]
      · rw [List.take_of_length_le hle, Nat.pow_succ, ← Nat.mul_assoc, ← ofDigits_append_zeros]
        exact ofDigits_append_zeros _ 1
      · simp only [List.length_cons, List.length_nil]
        omega
    · rename_i hfraction
      have hlt : leading.natAbs + 1 < ds.length := by
        refine Nat.lt_of_not_le fun hle => hfraction ?_
        rw [List.drop_of_length_le hle]
        rfl
      refine ⟨_, ds.drop (leading.natAbs + 1), 0, rfl, ?_, htake, fun c hc => hd c (List.mem_of_mem_drop hc), ?_, ?_⟩
      · simp [hne]
      · rw [show leading.natAbs + 1 - ds.length = 0 by omega, List.replicate_zero, List.append_nil, List.take_append_drop,
          Nat.pow_zero, Nat.mul_one]
      · rw [List.length_drop]
        omega

/-- Digits with a point are a number text. -/
theorem positional_text {ds : List Char} (leading : Int) (hne : ds ≠ []) (hd : ∀ c ∈ ds, c.isDigit) :
    Numeral (positional ds leading) ∧ Unsigned (positional ds leading) := by
  obtain ⟨ws, fs, -, heq, hne', hw, hf, -, -⟩ := positional_eq leading hne hd
  rw [heq]
  refine ⟨numeral_point hw hf, (Unsigned.of_digits hne' hw).append (List.forall_mem_cons.mpr ⟨by decide, ?_⟩)⟩
  exact fun c hc => mem_textChars_of_digit (hf c hc)

/-- The mantissa of a number with an exponent mark. -/
def mantissa (ds : List Char) : List Char := ds.take 1 ++ if ds.length ≤ 1 then [] else '.' :: ds.drop 1

/-- The digits of an exponent, at least two. -/
def exponentDigits (n : Nat) : List Char := List.replicate (2 - (Nat.toDigits 10 n).length) '0' ++ Nat.toDigits 10 n

theorem exponential_eq (ds : List Char) (leading : Int) :
    exponential ds leading = mantissa ds ++ 'e' :: (if leading < 0 then '-' else '+') :: exponentDigits leading.natAbs := rfl

theorem mantissa_cons (c : Char) (ds : List Char) : mantissa (c :: ds) = [c] ++ if ds = [] then [] else '.' :: ds := by
  cases ds <;> simp [mantissa]

section Mantissa
variable {ds : List Char}

theorem readMantissa?_mantissa (hne : ds ≠ []) (hd : ∀ c ∈ ds, c.isDigit) :
    Numeral (mantissa ds) ∧ Unsigned (mantissa ds) ∧ readMantissa? (mantissa ds) = some (ds, ds.length - 1) := by
  obtain ⟨c, rest, rfl⟩ := List.exists_cons_of_ne_nil hne
  obtain ⟨hc, hrest⟩ := List.forall_mem_cons.mp hd
  have hfirst : ∀ x ∈ [c], x.isDigit := List.forall_mem_singleton.mpr hc
  have hunsigned := Unsigned.of_digits (List.cons_ne_nil c []) hfirst
  rw [mantissa_cons]
  split
  · rename_i hnil
    subst hnil
    exact ⟨numeral_digits hfirst, hunsigned, readMantissa?_digits (List.cons_ne_nil c []) hfirst⟩
  · refine ⟨numeral_point hfirst hrest, hunsigned.append (List.forall_mem_cons.mpr ⟨by decide, ?_⟩), ?_⟩
    · exact fun x hx => mem_textChars_of_digit (hrest x hx)
    · exact readMantissa?_point (List.cons_ne_nil c []) hfirst hrest

theorem exponentDigits_digits (n : Nat) :
    exponentDigits n ≠ [] ∧ (∀ c ∈ exponentDigits n, c.isDigit) ∧ ofDigits (exponentDigits n) = n := by
  refine ⟨by simp [exponentDigits, Nat.toDigits_ne_nil], List.forall_mem_append.mpr ⟨fun c hc => ?_, ?_⟩, ?_⟩
  · rw [(List.mem_replicate.mp hc).2]
    rfl
  · exact isDigit_of_mem_toDigits
  · exact (ofDigits_zeros_append _ _).trans (ofDigits_toDigits n)

/-- Digits with an exponent mark read as those digits, scaled to where the first one stands. -/
theorem readDecimal?_exponential (negative : Bool) (hne : ds ≠ []) (hd : ∀ c ∈ ds, c.isDigit) (leading : Int) :
    readDecimal? negative (exponential ds leading) =
      some (ofDecimal negative (ofDigits ds) (leading - (ds.length - 1 : Nat))) := by
  obtain ⟨hnumeral, -, hmantissa⟩ := readMantissa?_mantissa hne hd
  obtain ⟨hne', hdigits, hvalue⟩ := exponentDigits_digits leading.natAbs
  have hread := readExponent?_signed (leading < 0) hne' hdigits
  have hexponent : (if leading < 0 then -(leading.natAbs : Int) else leading.natAbs) = leading := by
    split <;> omega
  simp only [decide_eq_true_eq, hvalue, hexponent] at hread
  rw [exponential_eq, readDecimal?_mark hnumeral hmantissa hread]

theorem exponential_unsigned (hne : ds ≠ []) (hd : ∀ c ∈ ds, c.isDigit) (leading : Int) : Unsigned (exponential ds leading) := by
  obtain ⟨-, hunsigned, -⟩ := readMantissa?_mantissa hne hd
  obtain ⟨-, hdigits, -⟩ := exponentDigits_digits leading.natAbs
  rw [exponential_eq]
  refine hunsigned.append (List.forall_mem_cons.mpr ⟨by decide, List.forall_mem_cons.mpr ⟨?_, fun c hc => ?_⟩⟩)
  · split <;> decide
  · exact mem_textChars_of_digit (hdigits c hc)

end Mantissa

/-! ### Numbers -/

/-- Within reach, what is read is rounded once. -/
theorem ofDecimal_eq {negative : Bool} {digits : Nat} {e : Int} (hd : 0 < digits)
    (hlow : -decimalReach ≤ digitCount digits + e) (hhigh : digitCount digits + e ≤ decimalReach) :
    ofDecimal negative digits e = ofQuotient negative (digits * (powerOfTen e).1 * quantaPerOne) (powerOfTen e).2 := by
  have hne : ¬((digits = 0 || (digitCount digits : Int) + e < -decimalReach) = true) := by
    simp only [Bool.or_eq_true, decide_eq_true_eq]
    omega
  rw [ofDecimal, if_neg hne, if_neg (by omega)]

theorem Decimal.scientific_first (d : Decimal) : d.scientific.2 = d.exponent + digitCount d.digits - 1 := rfl

section Read
variable {x : Finite} {d : Decimal}

/-- A decimal number that is written with more or fewer zeros rounds to the same. -/
theorem ofDecimal_of_nearest {kept zeros : Nat} (shift : Nat) {e : Int} (hd : 0 < d.digits) (hround : d.nearest = x.quanta.natAbs)
    (hkept : kept * 10 ^ zeros = d.digits) (he : e + shift = d.exponent + zeros)
    (hlow : -400 ≤ d.scientific.2) (hhigh : d.scientific.2 < 400) :
    ofDecimal (x.quanta < 0) (kept * 10 ^ shift) e = .finite x := by
  have hpos : 0 < kept := by
    refine Nat.pos_of_ne_zero fun h0 => ?_
    rw [h0, Nat.zero_mul] at hkept
    omega
  have hcount := digitCount_mul_pow hpos zeros
  have hshift := digitCount_mul_pow hpos shift
  have hfirst := d.scientific_first
  have hreach : decimalReach = 400 := rfl
  rw [hkept] at hcount
  rw [ofDecimal_eq (Nat.mul_pos hpos (Nat.pow_pos (by decide))) (by omega) (by omega), ofQuotient_of_nearest]
  rw [← hround, Decimal.nearest_eq, ← hkept]
  refine nearest_congr (powerOfTen_pos _).2 (powerOfTen_pos _).2 ?_
  -- the two quotients are equal, for the powers of ten in them add up
  obtain ⟨a, b, hab⟩ : ∃ a b : Nat, e = a - b := ⟨e.toNat, (-e).toNat, by omega⟩
  have hread := powerOfTen_sub hab
  have hwritten := powerOfTen_sub (e := d.exponent) (a := a + shift) (b := b + zeros) (by omega)
  refine Nat.eq_of_mul_eq_mul_right (Nat.pow_pos (n := b) (Nat.succ_pos 9)) ?_
  generalize (powerOfTen e).1 = n at *
  generalize (powerOfTen e).2 = m at *
  generalize (powerOfTen d.exponent).1 = n' at *
  generalize (powerOfTen d.exponent).2 = m' at *
  calc kept * 10 ^ shift * n * quantaPerOne * m' * 10 ^ b = kept * 10 ^ shift * (n * 10 ^ b) * quantaPerOne * m' := by ring
    _ = kept * quantaPerOne * m * (10 ^ (a + shift) * m') := by rw [hread]; ring
    _ = kept * 10 ^ zeros * n' * quantaPerOne * m * 10 ^ b := by rw [← hwritten]; ring

/-- Where the first digit of a number of the format stands is within reach. -/
theorem Hit.reach {count k : Nat} (h : Hit count k d) (hpos : 0 < count) (hlt : count < bound) :
    -400 ≤ d.scientific.2 ∧ d.scientific.2 < 400 := by
  have hlow : -330 ≤ leadingExponent count := by
    have := digitCount_pos (n := count * Nat.pow 10 330 / quantaPerOne)
    rw [leadingExponent]
    omega
  have hhigh : leadingExponent count < 309 := by
    refine Int.lt_of_not_ge fun hge => ?_
    have hle := (le_leadingExponent (a := 309) (b := 0) hpos).mp hge
    have hbound : bound ≤ 10 ^ 309 * quantaPerOne := by decide +kernel
    omega
  have hfirst := d.scientific_first
  rcases h.first with heq | ⟨-, heq⟩ <;> omega

/-- Digits with a point that write a decimal number read as what the decimal rounds to. -/
theorem readDecimal?_positional (hd : 0 < d.digits) (hround : d.nearest = x.quanta.natAbs)
    (hlow : -400 ≤ d.scientific.2) (hhigh : d.scientific.2 < 400) :
    readDecimal? (x.quanta < 0) (positional d.scientific.1 d.scientific.2) = some (.finite x) := by
  obtain ⟨zeros, hs⟩ := scientific_significant hd
  obtain ⟨ws, fs, shift, heq, hne, hw, hf, hvalue, hlength⟩ := positional_eq d.scientific.2 hs.nonempty hs.digits
  have hfirst := d.scientific_first
  have hcount := hs.count
  rw [heq, readDecimal?_point _ hne hw hf, hvalue, ofDecimal_of_nearest shift hd hround hs.value (by omega) hlow hhigh]

/-- So do digits with an exponent mark. -/
theorem readDecimal?_scientific (hd : 0 < d.digits) (hround : d.nearest = x.quanta.natAbs)
    (hlow : -400 ≤ d.scientific.2) (hhigh : d.scientific.2 < 400) :
    readDecimal? (x.quanta < 0) (exponential d.scientific.1 d.scientific.2) = some (.finite x) := by
  obtain ⟨zeros, hs⟩ := scientific_significant hd
  have hfirst := d.scientific_first
  have hcount := hs.count
  have hne := List.length_pos_iff.mpr hs.nonempty
  have hvalue := ofDecimal_of_nearest 0 hd hround hs.value (e := d.scientific.2 - (d.scientific.1.length - 1 : Nat))
    (by omega) hlow hhigh
  rw [Nat.pow_zero, Nat.mul_one] at hvalue
  rw [readDecimal?_exponential _ hs.nonempty hs.digits, hvalue]

/-- Digits that write an integer of the format read as that number. -/
theorem readDecimal?_toDigits {n : Nat} (hx : x.quanta.natAbs = n * quantaPerOne) :
    readDecimal? (x.quanta < 0) (Nat.toDigits 10 n) = some (.finite x) := by
  rw [readDecimal?_digits _ Nat.toDigits_ne_nil isDigit_of_mem_toDigits, ofDigits_toDigits]
  rcases Nat.eq_zero_or_pos n with rfl | hn
  · rw [Nat.zero_mul, Int.natAbs_eq_zero] at hx
    obtain ⟨quanta, hrep⟩ := x
    dsimp only at hx
    subst hx
    rfl
  · have hlt : n * quantaPerOne < bound := hx ▸ x.representable.1
    have hbound : bound ≤ 10 ^ decimalReach.natAbs * quantaPerOne := by decide +kernel
    have hreach : digitCount n ≤ decimalReach.natAbs :=
      (digitCount_le_iff (by decide)).mpr (Nat.lt_of_mul_lt_mul_right (Nat.lt_of_lt_of_le hlt hbound))
    have habs : (decimalReach.natAbs : Int) = decimalReach := rfl
    have hclose : Close (n * 1 * quantaPerOne) 1 x.quanta.natAbs := by
      have hexact := Close.exact (c := n * quantaPerOne) Nat.one_pos
      simpa only [hx, Nat.mul_one] using hexact
    rw [ofDecimal_eq hn (by omega) (by omega)]
    exact congrArg some (ofQuotient_of_close hclose)

end Read

namespace Finite
variable {x : Finite}

/-- An integer, or a number of at least 0.0001 in size. -/
def Plain (x : Finite) : Prop := x.quanta.natAbs % quantaPerOne = 0 ∨ quantaPerOne ≤ 10 ^ 4 * x.quanta.natAbs

instance : Decidable x.Plain := inferInstanceAs (Decidable (_ ∨ _))

theorem toInt?_of_integer {n : Nat} (h : x.quanta.natAbs = n * quantaPerOne) :
    x.toInt? = some (if x.quanta < 0 then -(n : Int) else n) := by
  refine toInt?_eq_some.mpr ?_
  have hn : ((n * quantaPerOne : Nat) : Int) = n * quantaPerOne := Int.natCast_mul ..
  split
  · rw [Int.neg_mul]
    omega
  · omega

theorem toInt?_of_fraction (h : x.quanta.natAbs % quantaPerOne ≠ 0) : x.toInt? = none := by
  have hne : x.quanta % quantaPerOne ≠ 0 := fun hz =>
    h (Nat.mod_eq_zero_of_dvd (Int.natCast_dvd.mp (Int.dvd_of_emod_eq_zero hz)))
  rw [toInt?, if_neg hne]

theorem toString_eq_signed (negative : Bool) (n : Nat) (h : negative = true → 0 < n) :
    (toString (if negative then -(n : Int) else n)).toList = signed negative (Nat.toDigits 10 n) := by
  cases negative with
  | false => exact (congrArg String.toList Nat.toString_eq_ofList_toDigits).trans String.toList_ofList
  | true =>
    obtain ⟨m, rfl⟩ := Nat.exists_eq_succ_of_ne_zero (Nat.ne_of_gt (h rfl))
    change (toString (Int.negSucc m)).toList = _
    simp [toString, Int.repr, signed]

/-- What is written of a number, behind its sign: digits alone, digits with a point, or digits with an exponent mark. -/
theorem compactText_cases (x : Finite) :
    (∃ n : Nat, x.quanta.natAbs = n * quantaPerOne ∧ x.compactText = signed (x.quanta < 0) (Nat.toDigits 10 n)) ∨
      x.quanta.natAbs % quantaPerOne ≠ 0 ∧
        x.compactText = signed (x.quanta < 0) (
          if isPositional (shortest x.quanta.natAbs).scientific.2 then
            positional (shortest x.quanta.natAbs).scientific.1 (shortest x.quanta.natAbs).scientific.2
          else exponential (shortest x.quanta.natAbs).scientific.1 (shortest x.quanta.natAbs).scientific.2) := by
  by_cases hf : x.quanta.natAbs % quantaPerOne = 0
  · obtain ⟨n, hn⟩ := Nat.dvd_of_mod_eq_zero hf
    rw [Nat.mul_comm] at hn
    refine Or.inl ⟨n, hn, ?_⟩
    have hpos : decide (x.quanta < 0) = true → 0 < n := by
      rw [decide_eq_true_eq]
      intro hneg
      refine Nat.pos_of_ne_zero ?_
      rintro rfl
      omega
    have htext := toString_eq_signed (x.quanta < 0) n hpos
    rw [compactText, toInt?_of_integer hn]
    simpa only [decide_eq_true_eq] using htext
  · refine Or.inr ⟨hf, ?_⟩
    have hne : x.quanta.natAbs ≠ 0 := by
      intro hzero
      rw [hzero] at hf
      exact hf (Nat.zero_mod _)
    rw [compactText, toInt?_of_fraction hf, text, magnitudeText, if_neg hne]
    simp only [signed, decide_eq_true_eq]

/-- Every finite number reads back from its text, in which a digit follows the sign. -/
theorem read?_text (x : Finite) :
    read? x.compactText = some (.finite x) ∧ ∃ cs, Unsigned cs ∧ x.compactText = signed (x.quanta < 0) cs := by
  rcases compactText_cases x with ⟨n, hn, htext⟩ | ⟨hf, htext⟩
  · have hunsigned := Unsigned.of_digits (Nat.toDigits_ne_nil (b := 10) (n := n)) isDigit_of_mem_toDigits
    rw [htext, hunsigned.read?_signed]
    exact ⟨readDecimal?_toDigits hn, _, hunsigned, rfl⟩
  · have hpos : 0 < x.quanta.natAbs := by
      refine Nat.pos_of_ne_zero fun hzero => ?_
      rw [hzero] at hf
      exact hf (Nat.zero_mod _)
    obtain ⟨k, hit⟩ := shortest_hit hpos x.representable.2
    obtain ⟨hlow, hhigh⟩ := hit.reach hpos x.representable.1
    obtain ⟨zeros, hs⟩ := scientific_significant hit.digits_pos
    rw [htext]
    split
    · have hunsigned := (positional_text (shortest x.quanta.natAbs).scientific.2 hs.nonempty hs.digits).2
      rw [hunsigned.read?_signed]
      exact ⟨readDecimal?_positional hit.digits_pos hit.nearest hlow hhigh, _, hunsigned, rfl⟩
    · have hunsigned := exponential_unsigned hs.nonempty hs.digits (shortest x.quanta.natAbs).scientific.2
      rw [hunsigned.read?_signed]
      exact ⟨readDecimal?_scientific hit.digits_pos hit.nearest hlow hhigh, _, hunsigned, rfl⟩

/-- No two numbers have the same text. -/
theorem compactText_inj {y : Finite} (h : x.compactText = y.compactText) : x = y := by
  have hread := (read?_text x).1
  rw [h, (read?_text y).1] at hread
  exact (Binary64.finite.inj (Option.some.inj hread)).symm

theorem compactText_chars (x : Finite) : ∀ c ∈ x.compactText, c ∈ textChars := by
  obtain ⟨-, cs, hunsigned, htext⟩ := read?_text x
  rw [htext]
  exact hunsigned.signed_chars _

theorem compactText_ne_nil (x : Finite) : x.compactText ≠ [] := by
  obtain ⟨-, cs, ⟨⟨c, rest, rfl, -⟩, -⟩, htext⟩ := read?_text x
  rw [htext]
  unfold signed
  split <;> exact List.cons_ne_nil _ _

/-! ### Plain numbers -/

theorem sign_mem_exponential (ds : List Char) (leading : Int) : '-' ∈ exponential ds leading ∨ '+' ∈ exponential ds leading := by
  by_cases h : leading < 0 <;> simp [exponential, h]

/-- The text of a positive number has digits and points only if the number is plain, and otherwise a sign. -/
theorem numeral_compactText (hx : 0 < x.quanta) (h : x.Plain) : Numeral x.compactText := by
  have hsign : decide (x.quanta < 0) = false := decide_eq_false (by omega)
  rcases compactText_cases x with ⟨n, -, htext⟩ | ⟨hf, htext⟩
  · rw [htext, hsign, signed_false]
    exact numeral_digits isDigit_of_mem_toDigits
  · obtain ⟨k, hit⟩ := shortest_hit (by omega) x.representable.2
    obtain ⟨zeros, hs⟩ := scientific_significant hit.digits_pos
    have hp := (isPositional_shortest x.representable.2 hf).mpr (h.resolve_left hf)
    rw [htext, hsign, signed_false, if_pos hp]
    exact (positional_text (shortest x.quanta.natAbs).scientific.2 hs.nonempty hs.digits).1

/-- The text of any other positive number has a sign in it. -/
theorem sign_mem_compactText (hx : 0 < x.quanta) (h : ¬x.Plain) : '-' ∈ x.compactText ∨ '+' ∈ x.compactText := by
  have hsign : decide (x.quanta < 0) = false := decide_eq_false (by omega)
  rcases compactText_cases x with ⟨n, hn, -⟩ | ⟨hf, htext⟩
  · exact absurd (Or.inl (by rw [hn, Nat.mul_mod_left])) h
  · have hp : ¬isPositional (shortest x.quanta.natAbs).scientific.2 = true := fun hp =>
      h (Or.inr ((isPositional_shortest x.representable.2 hf).mp hp))
    rw [htext, hsign, signed_false, if_neg hp]
    exact sign_mem_exponential _ _

end Finite

end UnitCheck.Binary64
