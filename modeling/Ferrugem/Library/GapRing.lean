import Mathlib.Data.List.Basic
import Mathlib.Logic.Function.Basic

/-!
# Rings that keep one cell free

A circular buffer with a write index and a read index, in which equal indices
mean empty and the cell before the read index is never filled. `contents` is
the queue it stands for: a push appends to it, a pop takes its first item, and
it never holds more than one item less than there are cells.
-/

set_option autoImplicit false

universe u

structure GapRing (Item : Type u) (size : Nat) where
  cells : Fin size → Item
  head : Fin size
  tail : Fin size

namespace GapRing

variable {Item : Type u} {size : Nat}

/-- The cell `steps` after another one. -/
def after (index : Fin size) (steps : Nat) : Fin size :=
  ⟨(index.val + steps) % size, Nat.mod_lt _ index.pos⟩

def queued (ring : GapRing Item size) : Nat :=
  (ring.head.val + (size - ring.tail.val)) % size

def contents (ring : GapRing Item size) : List Item :=
  (List.range ring.queued).map fun i => ring.cells (after ring.tail i)

def push (ring : GapRing Item size) (item : Item) : GapRing Item size :=
  { ring with
    cells := Function.update ring.cells ring.head item
    head := after ring.head 1 }

def pop (ring : GapRing Item size) : GapRing Item size :=
  { ring with tail := after ring.tail 1 }

theorem length_contents (ring : GapRing Item size) : ring.contents.length = ring.queued := by
  simp [contents]

theorem queued_lt (ring : GapRing Item size) : ring.queued < size := Nat.mod_lt _ ring.head.pos

theorem queued_cases (ring : GapRing Item size) :
    (ring.tail.val ≤ ring.head.val ∧ ring.queued = ring.head.val - ring.tail.val) ∨
      (ring.head.val < ring.tail.val ∧
        ring.queued = ring.head.val + size - ring.tail.val) := by
  have headBound := ring.head.isLt
  have tailBound := ring.tail.isLt
  unfold queued
  rcases Nat.lt_or_ge ring.head.val ring.tail.val with wrapped | straight
  · right
    refine ⟨wrapped, ?_⟩
    rw [Nat.mod_eq_of_lt (by omega)]
    omega
  · left
    refine ⟨straight, ?_⟩
    rw [Nat.mod_eq_sub_mod (by omega), Nat.mod_eq_of_lt (by omega)]
    omega

theorem after_cases (index : Fin size) {steps : Nat} (below : steps ≤ size) :
    (index.val + steps < size ∧ (after index steps).val = index.val + steps) ∨
      (size ≤ index.val + steps ∧ (after index steps).val = index.val + steps - size) := by
  have bound := index.isLt
  unfold after
  rcases Nat.lt_or_ge (index.val + steps) size with straight | wrapped
  · left
    exact ⟨straight, Nat.mod_eq_of_lt straight⟩
  · right
    refine ⟨wrapped, ?_⟩
    change (index.val + steps) % size = index.val + steps - size
    rw [Nat.mod_eq_sub_mod wrapped, Nat.mod_eq_of_lt (by omega)]

theorem empty_iff (ring : GapRing Item size) : ring.head = ring.tail ↔ ring.queued = 0 := by
  have headBound := ring.head.isLt
  have tailBound := ring.tail.isLt
  rw [Fin.ext_iff]
  have cases := ring.queued_cases
  omega

theorem full_iff (ring : GapRing Item size) :
    after ring.head 1 = ring.tail ↔ ring.queued + 1 = size := by
  have headBound := ring.head.isLt
  have tailBound := ring.tail.isLt
  rw [Fin.ext_iff]
  have cases := ring.queued_cases
  have next := after_cases ring.head (show 1 ≤ size by omega)
  omega

theorem queued_push {ring : GapRing Item size} (room : after ring.head 1 ≠ ring.tail)
    (item : Item) : (ring.push item).queued = ring.queued + 1 := by
  have space : ring.queued + 1 ≠ size := fun full => room (ring.full_iff.mpr full)
  have headBound := ring.head.isLt
  have tailBound := ring.tail.isLt
  have bound := ring.queued_lt
  have before := ring.queued_cases
  have later := (ring.push item).queued_cases
  have next := after_cases ring.head (show 1 ≤ size by omega)
  simp only [push] at later ⊢
  omega

theorem queued_pop {ring : GapRing Item size} (some : ring.head ≠ ring.tail) :
    ring.pop.queued + 1 = ring.queued := by
  have present : ring.queued ≠ 0 := fun empty => some (ring.empty_iff.mpr empty)
  have headBound := ring.head.isLt
  have tailBound := ring.tail.isLt
  have before := ring.queued_cases
  have later := ring.pop.queued_cases
  have next := after_cases ring.tail (show 1 ≤ size by omega)
  simp only [pop] at later ⊢
  omega

theorem after_tail_queued (ring : GapRing Item size) : after ring.tail ring.queued = ring.head := by
  have headBound := ring.head.isLt
  have tailBound := ring.tail.isLt
  have cases := ring.queued_cases
  have next := after_cases ring.tail (Nat.le_of_lt ring.queued_lt)
  apply Fin.ext
  omega

theorem after_tail_ne_head (ring : GapRing Item size) {i : Nat} (inside : i < ring.queued) :
    after ring.tail i ≠ ring.head := by
  have headBound := ring.head.isLt
  have tailBound := ring.tail.isLt
  have cases := ring.queued_cases
  have next := after_cases ring.tail (Nat.le_of_lt (Nat.lt_trans inside ring.queued_lt))
  intro same
  rw [Fin.ext_iff] at same
  omega

theorem after_succ (index : Fin size) (steps : Nat) :
    after index (steps + 1) = after (after index 1) steps := by
  apply Fin.ext
  simp only [after]
  rw [Nat.mod_add_mod]
  congr 1
  omega

theorem contents_push {ring : GapRing Item size} (room : after ring.head 1 ≠ ring.tail)
    (item : Item) : (ring.push item).contents = ring.contents ++ [item] := by
  unfold contents
  rw [queued_push room, List.range_succ, List.map_append]
  congr 1
  · apply List.map_congr_left
    intro i member
    simp only [push]
    exact Function.update_of_ne (ring.after_tail_ne_head (List.mem_range.mp member)) _ _
  · simp only [List.map_cons, List.map_nil, push]
    rw [after_tail_queued, Function.update_self]

theorem contents_fill (ring : GapRing Item size) (item : Item) :
    contents { ring with cells := Function.update ring.cells ring.head item } = ring.contents := by
  apply List.map_congr_left
  intro i member
  exact Function.update_of_ne (ring.after_tail_ne_head (List.mem_range.mp member)) _ _

theorem contents_advance {ring : GapRing Item size} (room : after ring.head 1 ≠ ring.tail) :
    contents { ring with head := after ring.head 1 } =
      ring.contents ++ [ring.cells ring.head] := by
  have pushed := contents_push room (ring.cells ring.head)
  rw [push, Function.update_eq_self] at pushed
  exact pushed

theorem contents_pop {ring : GapRing Item size} (some : ring.head ≠ ring.tail) :
    ring.contents = ring.cells ring.tail :: ring.pop.contents := by
  unfold contents
  rw [← queued_pop some, List.range_succ_eq_map, List.map_cons, List.map_map]
  congr 1
  · congr 1
    apply Fin.ext
    simp only [after, Nat.add_zero]
    exact Nat.mod_eq_of_lt ring.tail.isLt
  · apply List.map_congr_left
    intro i _
    simp only [Function.comp_apply, Nat.succ_eq_add_one, pop]
    rw [after_succ]

theorem contents_empty {ring : GapRing Item size} (empty : ring.head = ring.tail) :
    ring.contents = [] := by
  apply List.eq_nil_of_length_eq_zero
  rw [length_contents]
  exact ring.empty_iff.mp empty

end GapRing
