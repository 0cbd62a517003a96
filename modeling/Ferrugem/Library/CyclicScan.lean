import Mathlib.Data.List.Basic
import Mathlib.Logic.Function.Iterate

/-!
# The first ready place of a cycle

A cycle is walked by a successor function, and `firstAfter` is the first ready
place among the next `size` ones. Readiness may change between two searches
that start each where the one before it ended: a place that is ready at every
search comes nearer with each of them, so it is found within `size` searches.
-/

set_option autoImplicit false

namespace CyclicScan

variable {Place : Type*} {next : Place → Place} {size : Nat}

def firstAfter (next : Place → Place) (size : Nat) (ready : Place → Bool) (start : Place) :
    Option Place :=
  ((List.range size).map fun i => next^[i + 1] start).find? ready

/-- The first ready place is `steps` after the start. -/
structure FirstReady (next : Place → Place) (size : Nat) (ready : Place → Bool) (start : Place)
    (steps : Nat) (found : Place) : Prop where
  positive : 0 < steps
  bounded : steps ≤ size
  reached : next^[steps] start = found
  isReady : ready found = true
  earlier : ∀ fewer, 0 < fewer → fewer < steps → ready (next^[fewer] start) = false

variable {ready : Place → Bool} {start found : Place}

theorem first_after_none :
    firstAfter next size ready start = none ↔
      ∀ steps, 0 < steps → steps ≤ size → ready (next^[steps] start) = false := by
  simp only [firstAfter, List.find?_eq_none, List.mem_map, List.mem_range, forall_exists_index,
    and_imp, forall_apply_eq_imp_iff₂, Bool.not_eq_true]
  constructor
  · intro absent steps positive bounded
    have last := absent (steps - 1) (by omega)
    rwa [Nat.sub_add_cancel positive] at last
  · intro absent i below
    exact absent (i + 1) (by omega) below

theorem first_after_some (chosen : firstAfter next size ready start = some found) :
    ∃ steps, FirstReady next size ready start steps found := by
  obtain ⟨isReady, i, below, atIndex, earlier⟩ := List.find?_eq_some_iff_getElem.mp chosen
  simp only [List.length_map, List.length_range] at below
  simp only [List.getElem_map, List.getElem_range] at atIndex earlier
  refine ⟨i + 1, Nat.succ_pos i, below, atIndex, isReady, ?_⟩
  intro fewer positive before
  have unready := earlier (fewer - 1) (by omega)
  rw [Nat.sub_add_cancel positive] at unready
  exact Bool.eq_false_iff.mpr (by simpa using unready)

theorem FirstReady.steps_le {steps distance : Nat}
    (first : FirstReady next size ready start steps found) (positive : 0 < distance)
    (isReady : ready (next^[distance] start) = true) : steps ≤ distance := by
  by_contra later
  have unready := first.earlier distance positive (by omega)
  rw [isReady] at unready
  cases unready

theorem exists_first_ready {distance : Nat} (positive : 0 < distance) (bounded : distance ≤ size)
    (isReady : ready (next^[distance] start) = true) :
    ∃ found steps, firstAfter next size ready start = some found ∧
      FirstReady next size ready start steps found := by
  cases chosen : firstAfter next size ready start with
  | none =>
      have unready := first_after_none.mp chosen distance positive bounded
      rw [isReady] at unready
      cases unready
  | some found =>
      obtain ⟨steps, first⟩ := first_after_some chosen
      exact ⟨found, steps, rfl, first⟩

/-- The place that stays ready is found within as many searches as it is away
from the first one's start. -/
theorem found_within {target : Place} {distance : Nat} (positive : 0 < distance)
    (bounded : distance ≤ size) {readyAt : Nat → Place → Bool} {places : Nat → Place}
    (moves : ∀ search place, firstAfter next size (readyAt search) (places search) = some place →
      places (search + 1) = place)
    (stays : ∀ search, readyAt search target = true)
    (away : next^[distance] (places 0) = target) :
    ∃ search, 0 < search ∧ search ≤ distance ∧ places search = target := by
  induction distance using Nat.strongRecOn generalizing readyAt places with
  | ind distance ih =>
      have isReady : readyAt 0 (next^[distance] (places 0)) = true := by
        rw [away]
        exact stays 0
      obtain ⟨found, steps, chosen, first⟩ := exists_first_ready positive bounded isReady
      have moved : places 1 = found := moves 0 found chosen
      have nearer := first.steps_le positive isReady
      rcases Nat.eq_or_lt_of_le nearer with arrived | short
      · refine ⟨1, Nat.one_pos, positive, ?_⟩
        rw [moved, ← first.reached, arrived, away]
      · have left : next^[distance - steps] (places 1) = target := by
          rw [moved, ← first.reached, ← Function.iterate_add_apply, Nat.sub_add_cancel nearer,
            away]
        have steps_pos := first.positive
        obtain ⟨search, later, bound, arrived⟩ :=
          @ih (distance - steps) (by omega) (by omega) (by omega) (fun search => readyAt (search + 1))
            (fun search => places (search + 1)) (fun search => moves (search + 1))
            (fun search => stays (search + 1)) left
        exact ⟨search + 1, Nat.succ_pos search, by omega, arrived⟩

end CyclicScan
