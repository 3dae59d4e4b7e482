import UnitCheck.Equation.Batch

/-! # Batches, equation by equation

Equations of different ids make a batch. It has an entry for each of them, in their order, with the verdict
on that equation alone, and its tally counts every one of them once. -/

namespace UnitCheck

namespace Verdicts

theorem extend_eq_ok (scope : Markup.Scope) {es : List Equation} {t : Verdicts} (hn : (es.map (·.id)).Nodup)
    (ht : ∀ e ∈ es, t.contains e.id = false) :
    ∃ u, extend scope t es = .ok u ∧
      u.entries = t.entries ++ es.map fun e => (e.id, Verdict.of scope e.text.toList) := by
  -- Each equation makes the table larger, so the induction is over all tables that have none of the ids.
  induction es generalizing t with
  | nil => exact ⟨t, rfl, (List.append_nil _).symm⟩
  | cons e es ih =>
    obtain ⟨hnotin, hn⟩ := List.nodup_cons.mp hn
    obtain ⟨he, hes⟩ := List.forall_mem_cons.mp ht
    have hfresh : ∀ e' ∈ es, (t.insert e.id (Verdict.of scope e.text.toList)).contains e'.id = false := by
      intro e' he'
      have hne : e'.id ≠ e.id := fun h => hnotin (List.mem_map.mpr ⟨e', he', h⟩)
      rw [Table.contains, Table.find?_insert, if_neg hne]
      exact hes e' he'
    obtain ⟨u, hu, hentries⟩ := ih hn hfresh
    refine ⟨u, ?_, ?_⟩
    · rw [extend, he]
      exact hu
    · rw [hentries, Table.entries_insert he, List.append_assoc, List.map_cons, List.singleton_append]

/-- Equations of different ids make a batch, in which each has its verdict. -/
theorem exists_of_nodup (scope : Markup.Scope) {es : List Equation} (hn : (es.map (·.id)).Nodup) :
    ∃ u, of scope es = .ok u ∧ u.entries = es.map fun e => (e.id, Verdict.of scope e.text.toList) :=
  extend_eq_ok scope (t := ∅) hn fun _ _ => rfl

end Verdicts

namespace Tally

theorem sum_of (vs : List Verdict) : (of vs).good + (of vs).bad + (of vs).unknown = vs.length := by
  induction vs with
  | nil => rfl
  | cons v vs ih =>
    cases v <;> simp [of, Verdict.status] at ih ⊢ <;> omega

theorem good_eq_length {vs : List Verdict} : (of vs).good = vs.length ↔ ∀ v ∈ vs, v.isGood = true :=
  List.countP_eq_length

end Tally

end UnitCheck
