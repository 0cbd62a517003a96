import Mathlib.Data.List.Basic
import Mathlib.Logic.Function.Basic

/-!
# Rings of the most recent items

A circular buffer that never rejects an item: a push goes to the cell at the
head and overwrites the oldest item once every cell is in use. Items are read by
their age. The ring stands for the list of everything pushed, the latest first,
cut off after as many items as there are cells.
-/

set_option autoImplicit false

universe u

structure RecencyRing (Item : Type u) (size : Nat) where
  cells : Fin size → Item
  head : Fin size
  count : Nat
  bound : count ≤ size

namespace RecencyRing

variable {Item : Type u} {size : Nat}

/-- The cell of the item that is `age` pushes older than the latest one. -/
def cellOf (head : Fin size) (age : Nat) : Fin size :=
  ⟨(head.val + size - 1 - age) % size, Nat.mod_lt _ head.pos⟩

def next (head : Fin size) : Fin size :=
  ⟨(head.val + 1) % size, Nat.mod_lt _ head.pos⟩

def get (ring : RecencyRing Item size) (age : Nat) : Option Item :=
  if ring.count ≤ age then none else some (ring.cells (cellOf ring.head age))

def push (ring : RecencyRing Item size) (item : Item) : RecencyRing Item size where
  cells := Function.update ring.cells ring.head item
  head := next ring.head
  count := if ring.count < size then ring.count + 1 else ring.count
  bound := by
    have bound := ring.bound
    split_ifs <;> omega

theorem next_cases (head : Fin size) :
    (next head).val = head.val + 1 ∨ (next head).val = 0 ∧ head.val + 1 = size := by
  have bound := head.isLt
  rcases Nat.lt_or_ge (head.val + 1) size with straight | wrapped
  · exact .inl (Nat.mod_eq_of_lt straight)
  · have full : head.val + 1 = size := by omega
    refine .inr ⟨?_, full⟩
    simp [next, full]

theorem cell_of_cases (head : Fin size) {age : Nat} (young : age < size) :
    (cellOf head age).val + 1 + age = head.val ∨
      (cellOf head age).val + 1 + age = head.val + size := by
  have bound := head.isLt
  simp only [cellOf]
  rcases Nat.lt_or_ge age head.val with straight | wrapped
  · left
    rw [show head.val + size - 1 - age = head.val - 1 - age + size by omega,
      Nat.add_mod_right, Nat.mod_eq_of_lt (by omega)]
    omega
  · right
    rw [Nat.mod_eq_of_lt (by omega)]
    omega

theorem latest_cell (head : Fin size) : cellOf (next head) 0 = head := by
  apply Fin.ext
  have bound := head.isLt
  have cell := (cellOf (next head) 0).isLt
  rcases next_cases head with moved | ⟨moved, full⟩ <;>
    rcases cell_of_cases (next head) head.pos with here | here <;> omega

theorem older_cell (head : Fin size) {age : Nat} (young : age + 1 < size) :
    cellOf (next head) (age + 1) = cellOf head age := by
  apply Fin.ext
  have bound := head.isLt
  have cell := (cellOf (next head) (age + 1)).isLt
  have same := (cellOf head age).isLt
  rcases next_cases head with moved | ⟨moved, full⟩ <;>
    rcases cell_of_cases (next head) young with here | here <;>
      rcases cell_of_cases head (by omega : age < size) with there | there <;> omega

theorem older_ne_head (head : Fin size) {age : Nat} (young : age + 1 < size) :
    cellOf head age ≠ head := by
  intro same
  have value := congrArg Fin.val same
  have bound := head.isLt
  rcases cell_of_cases head (by omega : age < size) with here | here <;> omega

theorem get_push_zero (ring : RecencyRing Item size) (item : Item) :
    (ring.push item).get 0 = some item := by
  have positive := ring.head.pos
  have used : ¬(ring.push item).count ≤ 0 := by
    simp only [push]
    split_ifs <;> omega
  rw [get, if_neg used]
  simp only [push, latest_cell, Function.update_self]

theorem get_push_succ (ring : RecencyRing Item size) (item : Item) (age : Nat) :
    (ring.push item).get (age + 1) = if age + 1 < size then ring.get age else none := by
  have bound := ring.bound
  have counted : (ring.push item).count ≤ age + 1 ↔ ring.count ≤ age ∨ size ≤ age + 1 := by
    simp only [push]
    split_ifs <;> omega
  by_cases young : age + 1 < size
  · rw [if_pos young, get, get]
    by_cases unused : ring.count ≤ age
    · rw [if_pos unused, if_pos (counted.mpr (.inl unused))]
    · have used : ¬(ring.push item).count ≤ age + 1 := by
        rw [counted]
        omega
      rw [if_neg unused, if_neg used]
      simp only [push, older_cell _ young, Function.update_of_ne (older_ne_head _ young)]
  · rw [if_neg young, get, if_pos (counted.mpr (.inr (by omega)))]

/-- The ring holds the first of these items, the latest first. -/
def Holds (ring : RecencyRing Item size) (items : List Item) : Prop :=
  ∀ age, ring.get age = (items.take size)[age]?

theorem holds_empty {ring : RecencyRing Item size} (unused : ring.count = 0) :
    ring.Holds [] := by
  intro age
  rw [get, if_pos (by omega), List.take_nil, List.getElem?_nil]

theorem Holds.push {ring : RecencyRing Item size} {items : List Item} (holds : ring.Holds items)
    (item : Item) : (ring.push item).Holds (item :: items) := by
  have positive := ring.head.pos
  intro age
  cases age with
  | zero =>
      rw [get_push_zero, List.getElem?_take_of_lt positive]
      rfl
  | succ age =>
      rw [get_push_succ, List.getElem?_take]
      split_ifs with young
      · rw [holds, List.getElem?_take_of_lt (by omega), List.getElem?_cons_succ]
      · rfl

end RecencyRing
