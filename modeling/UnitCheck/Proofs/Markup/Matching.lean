import Mathlib.Data.List.Infix
import Mathlib.Order.Bounds.Basic
import UnitCheck.Proofs.Markup.Cursor
import UnitCheck.Proofs.Markup.Live
import UnitCheck.Proofs.Outcome

/-! # Where a brace is matched

From an opening brace on, the count of open braces is one behind it, rises and falls by one, and is zero first
at the brace that matches. In front of that brace nothing closes that was open before, so what is between the
two is balanced, and a brace that opens there is matched there. A scan that counts on to the end of the list,
and not only to the end of the span, meets the same tokens up to that brace and stops there too. -/

namespace UnitCheck.Markup.Span

section Between
variable (s : Span)

/-- The tokens from one index up to another, which is left out. -/
def between (i j : Nat) : List Token := (s.tokens.take j).drop i

/-- The indices of the span, behind `i`, up to which as many braces close as open from `i` on. -/
def evens (i : Nat) : Set Nat := {j | i < j ∧ j < s.upto ∧ surplus (s.between i (j + 1)) = 0}

variable {s} {i j k : Nat}

theorem between_cons (hij : i < j) (hj : j ≤ s.upto) :
    s.between i j = s.token ⟨i, Nat.lt_of_lt_of_le hij hj⟩ :: s.between (i + 1) j :=
  let t : Span := ⟨s.tokens, j, s.stop, Nat.le_trans hj s.le⟩
  t.rest_of_lt hij

theorem between_append (hij : i ≤ j) (hjk : j ≤ k) (hj : j ≤ s.upto) :
    s.between i k = s.between i j ++ s.between j k := by
  have hfront : (s.tokens.take k).take j = s.tokens.take j := by rw [List.take_take, Nat.min_eq_left hjk]
  have hlength : i ≤ (s.tokens.take j).length := by
    rw [List.length_take, Nat.min_eq_left (Nat.le_trans hj s.le)]
    exact hij
  calc s.between i k
      = ((s.tokens.take k).take j ++ (s.tokens.take k).drop j).drop i := by rw [List.take_append_drop, between]
    _ = s.between i j ++ s.between j k := by rw [hfront, List.drop_append_of_le_length hlength]; rfl

theorem between_concat (hij : i ≤ j) (hj : j < s.upto) : s.between i (j + 1) = s.between i j ++ [s.token ⟨j, hj⟩] := by
  have hnil : s.between (j + 1) (j + 1) = [] := List.drop_eq_nil_iff.mpr (List.length_take_le ..)
  rw [between_append hij (Nat.le_succ j) (Nat.le_of_lt hj), between_cons (Nat.lt_succ_self j) hj, hnil]

theorem prefix_between (i : Nat) (hjk : j ≤ k) : s.between i j <+: s.between i k :=
  List.IsPrefix.drop (List.take_prefix_take_left hjk) i

/-- The braces from an opening one on are even where those behind it close one more than they open. -/
theorem mem_evens {hi : i < s.upto} (ho : (s.token ⟨i, hi⟩).opensGroup = true) :
    j ∈ s.evens i ↔ i < j ∧ j < s.upto ∧ surplus (s.between (i + 1) (j + 1)) = -1 := by
  refine and_congr_right fun hij => and_congr_right fun hj => ?_
  have hfirst : s.between i (j + 1) = s.token ⟨i, hi⟩ :: s.between (i + 1) (j + 1) :=
    between_cons (Nat.lt_succ_of_lt hij) hj
  rw [hfirst, surplus_open ho]
  omega

end Between

/-! ### The least index -/

section Matching
variable {s : Span} {i k : Nat} {close : Fin s.upto}

/-- Between the braces of a group no index is even, since what is there closes nothing from before. -/
theorem isLeast_of_balanced {hi : i < s.upto} (ho : (s.token ⟨i, hi⟩).opensGroup = true) (hlt : i < close)
    (hb : Balanced (s.between (i + 1) close)) (hc : (s.token close).closesGroup = true) :
    IsLeast (s.evens i) close := by
  constructor
  · refine (mem_evens ho).mpr ⟨hlt, close.isLt, ?_⟩
    have htotal : (0 : Nat) + surplus (s.between (i + 1) close) = 0 := hb.total
    have hle : i + 1 ≤ close := hlt
    rw [between_concat hle close.isLt, surplus_append, surplus_close hc]
    omega
  · intro j hj
    obtain ⟨-, -, heven⟩ := (mem_evens ho).mp hj
    by_contra hfar
    have hnever := hb.never (s.between (i + 1) (j + 1)) (prefix_between (i + 1) (Nat.lt_of_not_le hfar))
    omega

/-- The group that opens at an index ends at the least even one, or there is none. -/
theorem matching_isLeast {hi : i < s.upto} (ho : (s.token ⟨i, hi⟩).opensGroup = true) :
    (∃ close : Fin s.upto, s.matching i = .ok close ∧ IsLeast (s.evens i) close ∧
      Group.split? 0 (s.rest (i + 1)) = some (s.groupTo (i + 1) close) ∧
      Balanced (s.between (i + 1) close) ∧ (s.token close).closesGroup = true) ∨
    (s.matching i = .error ⟨.unbalancedBraces, (s.token ⟨i, hi⟩).start⟩ ∧ s.evens i = ∅ ∧
      Group.split? 0 (s.rest (i + 1)) = none) := by
  rcases matching_cases (peek?_of_lt hi) ho with ⟨close, hlt, hmatching, hsplit⟩ | ⟨hmatching, hsplit⟩
  · obtain ⟨-, hc, hb⟩ := split?_eq_some hsplit
    exact Or.inl ⟨close, hmatching, isLeast_of_balanced ho hlt hb hc, hsplit, hb, hc⟩
  · refine Or.inr ⟨hmatching, Set.eq_empty_iff_forall_notMem.mpr fun j hj => ?_, hsplit⟩
    obtain ⟨-, hj, heven⟩ := (mem_evens ho).mp hj
    have hnever := split?_eq_none.mp hsplit (s.between (i + 1) (j + 1)) (prefix_between (i + 1) hj)
    omega

/-- A brace that opens between balanced ones is matched there: what is behind it closes it, as nothing in front of it
    closes more than it opens. -/
theorem exists_matching_between (hb : Balanced (s.between i close)) (hik : i ≤ k) (hkc : k < close)
    (ho : (s.token ⟨k, Nat.lt_trans hkc close.isLt⟩).opensGroup = true) :
    ∃ c : Fin s.upto, c < close ∧ s.matching k = .ok c := by
  let t : Span := s.before close
  have hk : k < t.upto := hkc
  have hot : (t.token ⟨k, hk⟩).opensGroup = true := ho
  rcases matching_isLeast hot with ⟨c, -, ⟨⟨hkc', hclt, heven⟩, -⟩, -⟩ | ⟨-, -, hnone⟩
  · -- The same index is even in the whole span, so the least one there comes no later.
    have hmem : c.val ∈ s.evens k := ⟨hkc', Nat.lt_trans hclt close.isLt, heven⟩
    rcases matching_isLeast ho with ⟨c', hmatching, hleast, -⟩ | ⟨-, hempty, -⟩
    · exact ⟨c', Nat.lt_of_le_of_lt (hleast.2 hmem) hclt, hmatching⟩
    · exact absurd hmem (hempty ▸ Set.notMem_empty _)
  · have hbehind := split?_eq_none.mp hnone (t.rest (k + 1)) List.prefix_rfl
    have hfront := hb.never (s.between i k) (prefix_between i (Nat.le_of_lt hkc))
    have htotal := hb.total
    rw [between_append hik (Nat.le_of_lt hkc) (Nat.le_of_lt (Nat.lt_trans hkc close.isLt)), surplus_append,
      between_cons hkc (Nat.le_of_lt close.isLt), surplus_open ho] at htotal
    change 0 ≤ (0 : Nat) + surplus (s.between (k + 1) close) at hbehind
    omega

/-- The scan for symbols counts through the whole list, and meets the same brace first. -/
theorem dropSubscript_of_balanced {hi : i < s.upto} (ho : (s.token ⟨i, hi⟩).opensGroup = true) (hlt : i < close)
    (hb : Balanced (s.between (i + 1) close)) (hc : (s.token close).closesGroup = true) :
    dropSubscript (s.tokens.drop i) = s.tokens.drop (close + 1) := by
  have hat (j : Nat) (hj : j < s.upto) : s.tokens.drop j = s.token ⟨j, hj⟩ :: s.tokens.drop (j + 1) :=
    List.drop_eq_getElem_cons (Nat.lt_of_lt_of_le hj s.le)
  have hlength : close.val ≤ s.tokens.length := Nat.le_trans (Nat.le_of_lt close.isLt) s.le
  have hwhole (j : Nat) : (whole s.tokens s.stop).between j s.tokens.length = s.tokens.drop j :=
    congrArg (List.drop j) List.take_length
  have hgroup : s.tokens.drop (i + 1) = s.between (i + 1) close ++ s.tokens.drop close := by
    rw [← hwhole, ← hwhole, between_append hlt hlength hlength]
    rfl
  rw [hat i hi, dropSubscript, if_pos ho, hgroup, hat close close.isLt]
  exact dropGroups_of_closesAll hc hb

/-- For a brace that opens at an index of the span, the reader finds the least index behind it at which the braces are
    even, and fails exactly when the span has none. What is between the two is balanced, so a brace that opens there is
    matched there; the readers on token lists cut the group at that index, and the scan for symbols, which counts to the
    end of the list, goes on behind it. -/
theorem matching_consistent (s : Span) (i : Fin s.upto) (ho : (s.token i).opensGroup = true) :
    (∀ close : Fin s.upto, s.matching i = .ok close ↔ IsLeast (s.evens i) close) ∧
      (s.matching i = .error ⟨.unbalancedBraces, (s.token i).start⟩ ↔ s.evens i = ∅) ∧
      Group.split? 0 (s.rest (i + 1)) = (s.matching i).toOption.map (s.groupTo (i + 1)) ∧
      ∀ close, s.matching i = .ok close →
        Balanced (s.between (i + 1) close) ∧
        (∀ k : Fin s.upto, i < k → k < close → (s.token k).opensGroup = true → ∃ c < close, s.matching k = .ok c) ∧
        dropSubscript (s.tokens.drop i) = s.tokens.drop (close + 1) := by
  rcases matching_isLeast ho with ⟨close, hmatching, hleast, hsplit, hb, hc⟩ | ⟨hmatching, hempty, hsplit⟩
  · have hlt : i.val < close := hleast.1.1
    rw [hmatching]
    refine ⟨fun c => ⟨?_, fun h => ?_⟩, ⟨?_, fun h => ?_⟩, hsplit, ?_⟩
    · rintro ⟨⟩
      exact hleast
    · exact congrArg Except.ok (Fin.ext (hleast.unique h))
    · rintro ⟨⟩
    · exact absurd hleast.1 (h ▸ Set.notMem_empty _)
    · rintro c ⟨⟩
      refine ⟨hb, fun k hik hkc hk => exists_matching_between hb hik hkc hk, ?_⟩
      exact dropSubscript_of_balanced ho hlt hb hc
  · rw [hmatching]
    refine ⟨fun c => ⟨?_, fun h => ?_⟩, ⟨fun _ => hempty, fun _ => rfl⟩, hsplit, ?_⟩
    · rintro ⟨⟩
    · exact absurd h.1 (hempty ▸ Set.notMem_empty _)
    · rintro c ⟨⟩

/-- The tokens of `x_{a{b}{c_{}}}+{`, as far as the brace that closes the subscript. -/
def nestedGroups : Span :=
  ⟨tokenize "x_\x7ba\x7bb\x7d\x7bc_\x7b\x7d\x7d\x7d+\x7b".toList, 14, 14, by decide +kernel⟩

/-- Without its last brace the span has no match for the first. -/
theorem matching_consistent_nestedGroups :
    let s := nestedGroups
    let last : Fin s.upto := ⟨13, by decide⟩
    (s.token ⟨2, by decide⟩).opensGroup = true ∧ s.matching 2 = .ok last ∧ IsLeast (s.evens 2) 13 ∧
      (∃ c < last, s.matching 7 = .ok c) ∧ dropSubscript (s.tokens.drop 2) = s.tokens.drop 14 ∧
      (s.before last).matching 2 = .error ⟨.unbalancedBraces, 2⟩ ∧ (s.before last).evens 2 = ∅ := by
  intro s last
  have hopens : (s.token ⟨2, by decide⟩).opensGroup = true := by decide +kernel
  have hmatching : s.matching 2 = .ok last := toOption_eq_some.mp (by decide +kernel)
  obtain ⟨hleast, -, -, hfound⟩ := matching_consistent s ⟨2, by decide⟩ hopens
  obtain ⟨-, hinside, hscan⟩ := hfound last hmatching
  obtain ⟨-, hfails, -⟩ := matching_consistent (s.before last) ⟨2, by decide⟩ hopens
  have hnone : (s.before last).closing? 0 2 = none := by decide +kernel
  have hstart : ((s.before last).token ⟨2, by decide⟩).start = 2 := by decide +kernel
  have hunmatched : (s.before last).matching 2 = .error ⟨.unbalancedBraces, 2⟩ := by
    rw [matching, hnone, position_of_peek? (peek?_of_lt (by decide)), hstart]
  rw [hstart] at hfails
  have hseven := hinside ⟨7, by decide⟩ (by decide) (by decide) (by decide +kernel)
  exact ⟨hopens, hmatching, (hleast last).mp hmatching, hseven, hscan, hunmatched, hfails.mp hunmatched⟩

end Matching

end UnitCheck.Markup.Span
