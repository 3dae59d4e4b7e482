/-! # Similar words

How alike two words are: the longest run that they share, then in the same way what lies before it in
both and what lies behind it in both. Words are close when these runs make up three fifths of them. -/

namespace UnitCheck.Text

/-- How many characters two words have in common at their beginning. -/
def commonStart : List Char → List Char → Nat
  | a :: as, b :: bs => if a = b then commonStart as bs + 1 else 0
  | _, _ => 0

/-- A run that two words share: where it begins in each, and its length. -/
structure SharedRun where
  left : Nat
  right : Nat
  length : Nat
deriving DecidableEq

/-- The longest run that two words share; of runs of one length, the first in the first word and then the
    first in the second. -/
def longestRun (a b : List Char) : SharedRun :=
  let starts := (List.range a.length).flatMap fun i => (List.range b.length).map fun j => (i, j)
  starts.foldl (fun best (i, j) =>
    let n := commonStart (a.drop i) (b.drop j)
    if best.length < n then ⟨i, j, n⟩ else best) ⟨0, 0, 0⟩

/-- How many characters the shared runs of two words have, with at most `bound` runs on the way. -/
def sharedWithin : Nat → List Char → List Char → Nat
  | 0, _, _ => 0
  | bound + 1, a, b =>
    let run := longestRun a b
    if run.length = 0 then 0
    else
      run.length + sharedWithin bound (a.take run.left) (b.take run.right) +
        sharedWithin bound (a.drop (run.left + run.length)) (b.drop (run.right + run.length))

/-- How many characters the shared runs of two words have. -/
def shared (a b : List Char) : Nat := sharedWithin a.length a b

/-- Whether two words are close. -/
def isClose (a b : String) : Bool := 3 * (a.length + b.length) ≤ 10 * shared a.toList b.toList

/-- The words that are close to a given one, in alphabetical order. -/
def closeWords (word : String) (words : List String) : List String :=
  (words.filter fun w => isClose w word).mergeSort fun a b => a ≤ b

end UnitCheck.Text
