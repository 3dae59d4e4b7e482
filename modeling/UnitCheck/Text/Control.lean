/-! # Control sequences

A terminal is told how to show text by control sequences: an escape character and `[`, then parameters,
then intermediate characters, then one final character. What has no final character is no sequence. -/

namespace UnitCheck.Text

/-- A parameter of a control sequence. -/
def isParameter (c : Char) : Bool := 0x30 ≤ c.toNat && c.toNat ≤ 0x3f

/-- A character between the parameters of a control sequence and its end. -/
def isIntermediate (c : Char) : Bool := 0x20 ≤ c.toNat && c.toNat ≤ 0x2f

/-- A character that ends a control sequence. -/
def isFinal (c : Char) : Bool := 0x40 ≤ c.toNat && c.toNat ≤ 0x7e

/-- The text behind the control sequence whose `[` came last, if there is one. -/
def behindControl? (cs : List Char) : Option (List Char) :=
  match (cs.dropWhile isParameter).dropWhile isIntermediate with
  | [] => none
  | c :: rest => if isFinal c then some rest else none

theorem length_behindControl?_lt {cs rest : List Char} (h : behindControl? cs = some rest) :
    rest.length < cs.length := by
  have hle : ((cs.dropWhile isParameter).dropWhile isIntermediate).length ≤ cs.length :=
    ((List.dropWhile_suffix isIntermediate).trans (List.dropWhile_suffix isParameter)).length_le
  unfold behindControl? at h
  split at h
  · cases h
  · rename_i c r hr
    rw [hr] at hle
    split at h
    · cases h
      exact hle
    · cases h

/-- The text without its control sequences. -/
def dropControls : List Char → List Char
  | [] => []
  | '\x1b' :: '[' :: rest =>
    match h : behindControl? rest with
    | some behind =>
      have := length_behindControl?_lt h
      dropControls behind
    | none => '\x1b' :: dropControls ('[' :: rest)
  | c :: rest => c :: dropControls rest
termination_by cs => cs.length
decreasing_by
  · simp only [List.length_cons]
    omega
  · simp
  · simp

/-- The string without its control sequences. -/
def plain (s : String) : String := String.ofList (dropControls s.toList)

end UnitCheck.Text
