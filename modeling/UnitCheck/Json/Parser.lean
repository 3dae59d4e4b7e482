import UnitCheck.Json.Value
import UnitCheck.Binary64.Literal

/-! # Reading JSON

A text is one value with blanks around it. Besides the values of the standard the words `NaN`, `Infinity`
and `-Infinity` are numbers. Of two members of one name the last counts. A text that is no value is
refused at the first character that cannot be part of one; strings without an end are refused at their
opening quote. While a text is read, the place of a fault is kept as the number of characters that are
left there. Integers of very many digits and values that nest very deeply are not read at all, and neither
are strings with half a surrogate pair, which is no character. -/

namespace UnitCheck.Json

/-- What is wrong with a text. -/
inductive Fault where
  | byteOrderMark
  | expectingValue
  | expectingName
  | expectingColon
  | expectingComma
  | extraData
  | unterminatedString
  | controlCharacter
  | badEscape
  | badUnicodeEscape
deriving DecidableEq, Repr

/-- The wording of a fault. -/
def Fault.message : Fault → String
  | byteOrderMark => "Unexpected UTF-8 BOM (decode using utf-8-sig)"
  | expectingValue => "Expecting value"
  | expectingName => "Expecting property name enclosed in double quotes"
  | expectingColon => "Expecting ':' delimiter"
  | expectingComma => "Expecting ',' delimiter"
  | extraData => "Extra data"
  | unterminatedString => "Unterminated string starting at"
  | controlCharacter => "Invalid control character at"
  | badEscape => "Invalid \\escape"
  | badUnicodeEscape => "Invalid \\uXXXX escape"

/-- A fault in a text and where it is. -/
structure ParseError where
  fault : Fault
  position : Nat
deriving DecidableEq

/-- The wording of a fault with its place in the text, by line, column and position. -/
def ParseError.message (e : ParseError) (text : List Char) : String :=
  let before := text.take e.position
  let line := before.count '\n' + 1
  let column := (before.reverse.takeWhile (· ≠ '\n')).length + 1
  e.fault.message ++ ": line " ++ toString line ++ " column " ++ toString column ++
    " (char " ++ toString e.position ++ ")"

/-- What is beyond a reader in a text that is otherwise in order. Half a surrogate pair is beyond this reader only. -/
inductive Excess where
  | integerDigits (count : Nat)
  | nesting
  | halfPair
deriving DecidableEq

/-- The wording of an excess. -/
def Excess.message : Excess → String
  | integerDigits count =>
    "Exceeds the limit (" ++ toString Text.maxIntegerDigits ++
      " digits) for integer string conversion: value has " ++ toString count ++
      " digits; use sys.set_int_max_str_digits() to increase the limit"
  | nesting => "values nest too deeply"
  | halfPair => "a string holds half a surrogate pair"

/-- Why a text cannot be read. -/
inductive ReadError where
  | fault (e : ParseError)
  | excess (e : Excess)
deriving DecidableEq

/-- Why reading stops: a fault with the number of characters left at its place, or an excess. -/
inductive Stop where
  | fault (f : Fault) (left : Nat)
  | excess (e : Excess)
deriving DecidableEq

/-- Passes over blanks. -/
def skipBlanks (cs : List Char) : List Char :=
  cs.dropWhile fun c => c = ' ' || c = '\t' || c = '\n' || c = '\r'

/-- The code of a character behind a backslash, `u` apart. -/
def escape? : Char → Option Nat
  | '"' => some 0x22
  | '\\' => some 0x5c
  | '/' => some 0x2f
  | 'b' => some 0x08
  | 'f' => some 0x0c
  | 'n' => some 0x0a
  | 'r' => some 0x0d
  | 't' => some 0x09
  | _ => none

/-- The value of a hexadecimal digit. -/
def hexDigit? (c : Char) : Option Nat :=
  if '0' ≤ c ∧ c ≤ '9' then some (c.toNat - '0'.toNat)
  else if 'a' ≤ c ∧ c ≤ 'f' then some (c.toNat - 'a'.toNat + 10)
  else if 'A' ≤ c ∧ c ≤ 'F' then some (c.toNat - 'A'.toNat + 10)
  else none

/-- The value of four hexadecimal digits. -/
def hexCode? (a b c d : Char) : Option Nat :=
  match hexDigit? a, hexDigit? b, hexDigit? c, hexDigit? d with
  | some a, some b, some c, some d => some (((a * 16 + b) * 16 + c) * 16 + d)
  | _, _, _, _ => none

/-- Puts a code before what was read. -/
def prependCode (code : Nat) (r : Except Stop (List Nat × List Char)) :
    Except Stop (List Nat × List Char) :=
  r.map fun (codes, rest) => (code :: codes, rest)

/-- Reads a string behind its opening quote, at which `opening` characters were left, as codes. -/
def stringCodes (opening : Nat) : List Char → Except Stop (List Nat × List Char)
  | [] => .error (.fault .unterminatedString opening)
  | '"' :: rest => .ok ([], rest)
  | ['\\'] => .error (.fault .unterminatedString opening)
  | '\\' :: 'u' :: a :: b :: c :: d :: e :: rest =>
    match hexCode? a b c d with
    | some code => prependCode code (stringCodes opening (e :: rest))
    | none => .error (.fault .badUnicodeEscape (rest.length + 6))
  | '\\' :: 'u' :: rest => .error (.fault .badUnicodeEscape (rest.length + 1))
  | '\\' :: c :: rest =>
    match escape? c with
    | some code => prependCode code (stringCodes opening rest)
    | none => .error (.fault .badEscape (rest.length + 2))
  | c :: rest =>
    if c.toNat < 0x20 then .error (.fault .controlCharacter (rest.length + 1))
    else prependCode c.toNat (stringCodes opening rest)

/-- Whether a code is the first half of a surrogate pair. -/
def isHighSurrogate (n : Nat) : Bool := 0xd800 ≤ n && n ≤ 0xdbff

/-- Whether a code is the second half of a surrogate pair. -/
def isLowSurrogate (n : Nat) : Bool := 0xdc00 ≤ n && n ≤ 0xdfff

/-- The characters of codes: surrogate pairs are joined, and half a pair is no character. -/
def charsOfCodes? : List Nat → Option (List Char)
  | [] => some []
  | n :: rest =>
    if isHighSurrogate n then
      match rest with
      | m :: rest' =>
        if isLowSurrogate m then
          (charsOfCodes? rest').map (Char.ofNat (0x10000 + (n - 0xd800) * 0x400 + (m - 0xdc00)) :: ·)
        else none
      | [] => none
    else if isLowSurrogate n then none
    else (charsOfCodes? rest).map (Char.ofNat n :: ·)

/-- Reads a string behind its opening quote. -/
def readString (cs : List Char) : Except Stop (String × List Char) := do
  let (codes, rest) ← stringCodes (cs.length + 1) cs
  match charsOfCodes? codes with
  | some chars => .ok (String.ofList chars, rest)
  | none => .error (.excess .halfPair)

/-- The digits that come next. -/
def leadingDigits (cs : List Char) : List Char := cs.takeWhile Char.isDigit

/-- The point and digits that come next, if any. -/
def fractionPart : List Char → List Char
  | '.' :: rest => if (leadingDigits rest).isEmpty then [] else '.' :: leadingDigits rest
  | _ => []

/-- The exponent that comes next, if any. -/
def exponentPart : List Char → List Char
  | e :: rest =>
    if e = 'e' || e = 'E' then
      let sign := (rest.take 1).filter fun c => c = '+' || c = '-'
      let digits := leadingDigits (rest.drop sign.length)
      if digits.isEmpty then [] else e :: sign ++ digits
    else []
  | [] => []

/-- The whole part of a number: a zero, or digits that begin with another one. -/
def wholePart : List Char → List Char
  | '0' :: _ => ['0']
  | cs => leadingDigits cs

/-- Reads a number. -/
def readNumber (cs : List Char) : Except Stop (Json × List Char) :=
  let negative := cs.head? = some '-'
  let body := if negative then cs.drop 1 else cs
  let whole := wholePart body
  if whole.isEmpty then .error (.fault .expectingValue cs.length)
  else
    let behind := body.drop whole.length
    let fraction := fractionPart behind
    let behind := behind.drop fraction.length
    let exponent := exponentPart behind
    let rest := behind.drop exponent.length
    if fraction.isEmpty && exponent.isEmpty then
      let size : Int := Text.ofDigits whole
      if Text.maxIntegerDigits < whole.length then .error (.excess (.integerDigits whole.length))
      else .ok (integer (if negative then -size else size), rest)
    else
      .ok (real negative ((Binary64.readDecimal? false (whole ++ fraction ++ exponent)).getD .nan), rest)

/-- The values that are words. -/
def words : List (String × Json) :=
  [("null", null), ("true", bool true), ("false", bool false), ("NaN", real false .nan),
   ("Infinity", real false (.infinite false)), ("-Infinity", real true (.infinite false))]

/-- The word that comes next, and the text behind it. -/
def readWord? (cs : List Char) : Option (Json × List Char) :=
  words.findSome? fun (word, value) =>
    if word.toList.isPrefixOf cs then some (value, cs.drop word.length) else none

/-- Reads a value and gives it with the text behind it. -/
abbrev Reader := List Char → Except Stop (Json × List Char)

/-- Reads the items of an array that is not empty, at most `bound` of them. -/
def readItems (item : Reader) : Nat → List Char → Except Stop (List Json × List Char)
  | 0, cs => .error (.fault .expectingValue cs.length)
  | bound + 1, cs => do
    let (value, rest) ← item cs
    match skipBlanks rest with
    | ']' :: rest => .ok ([value], rest)
    | ',' :: rest => do
      let (values, rest) ← readItems item bound (skipBlanks rest)
      .ok (value :: values, rest)
    | rest => .error (.fault .expectingComma rest.length)

/-- Reads the name of a member and the colon behind it. -/
def readName : List Char → Except Stop (String × List Char)
  | '"' :: rest => do
    let (name, rest) ← readString rest
    match skipBlanks rest with
    | ':' :: rest => .ok (name, skipBlanks rest)
    | rest => .error (.fault .expectingColon rest.length)
  | cs => .error (.fault .expectingName cs.length)

/-- Reads the members of an object that is not empty, at most `bound` of them. -/
def readMembers (item : Reader) : Nat → List Char → Except Stop (List (String × Json) × List Char)
  | 0, cs => .error (.fault .expectingName cs.length)
  | bound + 1, cs => do
    let (name, rest) ← readName cs
    let (value, rest) ← item rest
    match skipBlanks rest with
    | '\x7d' :: rest => .ok ([(name, value)], rest)
    | ',' :: rest => do
      let (members, rest) ← readMembers item bound (skipBlanks rest)
      .ok ((name, value) :: members, rest)
    | rest => .error (.fault .expectingComma rest.length)

/-- Reads an array behind its opening bracket. -/
def readArray (item : Reader) (cs : List Char) : Except Stop (Json × List Char) :=
  match skipBlanks cs with
  | ']' :: rest => .ok (array [], rest)
  | rest => (readItems item (rest.length + 1) rest).map fun (items, rest) => (array items, rest)

/-- Reads an object behind its opening brace. -/
def readObject (item : Reader) (cs : List Char) : Except Stop (Json × List Char) :=
  match skipBlanks cs with
  | '\x7d' :: rest => .ok (object [], rest)
  | rest =>
    (readMembers item (rest.length + 1) rest).map fun (members, rest) =>
      (object (Table.ofList members).entries, rest)

/-- Reads a value. The items of an array or object are read by `inner`, if they may nest further. -/
def readWith (inner : Option Reader) : Reader
  | '"' :: rest => (readString rest).map fun (s, rest) => (string s, rest)
  | '[' :: rest =>
    match inner with
    | none => .error (.excess .nesting)
    | some item => readArray item rest
  | '\x7b' :: rest =>
    match inner with
    | none => .error (.excess .nesting)
    | some item => readObject item rest
  | cs =>
    match readWord? cs with
    | some found => .ok found
    | none => readNumber cs

/-- Reads a value in which others nest at most `levels` deep. -/
def readValue : Nat → Reader
  | 0 => readWith none
  | levels + 1 => readWith (some (readValue levels))

/-- How deep values may nest. -/
def maxNesting : Nat := 970

/-- Reads a text that is one value. -/
def parse (text : List Char) : Except ReadError Json :=
  let located : Stop → ReadError
    | .fault f left => .fault ⟨f, text.length - left⟩
    | .excess e => .excess e
  if text.head? = some '\ufeff' then .error (.fault ⟨.byteOrderMark, 0⟩)
  else
    match readValue maxNesting (skipBlanks text) with
    | .error s => .error (located s)
    | .ok (value, rest) =>
      match skipBlanks rest with
      | [] => .ok value
      | rest => .error (located (.fault .extraData rest.length))

end UnitCheck.Json
