import Mathlib.Logic.Function.Iterate

/-!
# Lists that end at a mark

A list is stored item after item, and the first item that is a mark ends it:
strings that end with a zero byte, vectors that end with a null pointer. `item`
is what lies at a position, and `next` leads from one position to the following.
Reading with a bound on the number of items finds the list exactly if it is
stored there, is shorter than the bound and is followed by a mark.
-/

set_option autoImplicit false

namespace TerminatedLists

variable {Position Item : Type*}

/-- The items lie one after another from the position on. -/
def StoredAt (item : Position → Item) (next : Position → Position) :
    Position → List Item → Prop
  | _, [] => True
  | position, first :: rest => item position = first ∧ StoredAt item next (next position) rest

instance decidableStoredAt [DecidableEq Item] (item : Position → Item)
    (next : Position → Position) :
    ∀ position items, Decidable (StoredAt item next position items)
  | _, [] => isTrue trivial
  | position, first :: rest =>
      have := decidableStoredAt item next (next position) rest
      inferInstanceAs (Decidable (item position = first ∧ StoredAt item next (next position) rest))

/-- The items before the first mark, if there is one within the bound. -/
def readUntil (item : Position → Item) (next : Position → Position) (ends : Item → Bool) :
    Nat → Position → Option (List Item)
  | 0, _ => none
  | room + 1, position =>
      if ends (item position) then some []
      else (readUntil item next ends room (next position)).map (item position :: ·)

variable {item : Position → Item} {next : Position → Position} {ends : Item → Bool}
variable {position : Position}

theorem stored_append {items rest : List Item} :
    StoredAt item next position (items ++ rest) ↔
      StoredAt item next position items ∧
        StoredAt item next (next^[items.length] position) rest := by
  induction items generalizing position with
  | nil => simp [StoredAt]
  | cons first items ih => simp only [List.cons_append, StoredAt, ih, List.length_cons,
      Function.iterate_succ_apply, and_assoc]

theorem stored_iff_get {items : List Item} :
    StoredAt item next position items ↔
      ∀ k (below : k < items.length), item (next^[k] position) = items[k] := by
  induction items generalizing position with
  | nil => simp [StoredAt]
  | cons first items ih =>
      rw [StoredAt, ih]
      constructor
      · rintro ⟨here, later⟩ k below
        cases k with
        | zero => exact here
        | succ k => exact later k (Nat.lt_of_succ_lt_succ below)
      · intro each
        exact ⟨each 0 (Nat.zero_lt_succ _), fun k below => each (k + 1) (Nat.succ_lt_succ below)⟩

theorem stored_congr {Other : Type*} {other : Other → Item} {step : Other → Other} {start : Other}
    {items : List Item}
    (same : ∀ k, k < items.length → other (step^[k] start) = item (next^[k] position))
    (stored : StoredAt item next position items) : StoredAt other step start items := by
  rw [stored_iff_get] at stored ⊢
  exact fun k below => (same k below).trans (stored k below)

theorem read_until_eq_some {room : Nat} {items : List Item} :
    readUntil item next ends room position = some items ↔
      items.length < room ∧ StoredAt item next position items ∧
        (∀ stored ∈ items, ends stored = false) ∧
        ends (item (next^[items.length] position)) = true := by
  induction room generalizing position items with
  | zero => simp [readUntil]
  | succ room ih =>
      rw [readUntil]
      cases marked : ends (item position) with
      | true =>
          rw [if_pos rfl]
          cases items with
          | nil => simp [StoredAt, marked]
          | cons first items =>
              simp only [Option.some.injEq, reduceCtorEq, false_iff]
              rintro ⟨_, ⟨rfl, _⟩, unmarked, _⟩
              rw [unmarked _ List.mem_cons_self] at marked
              cases marked
      | false =>
          rw [if_neg (by decide)]
          cases items with
          | nil => simp [StoredAt, marked]
          | cons first items =>
              simp only [Option.map_eq_some_iff, List.cons.injEq, StoredAt, List.length_cons,
                Nat.add_lt_add_iff_right, List.forall_mem_cons, Function.iterate_succ_apply]
              constructor
              · rintro ⟨_, read, rfl, rfl⟩
                obtain ⟨short, stored, unmarked, last⟩ := ih.mp read
                exact ⟨short, ⟨rfl, stored⟩, ⟨marked, unmarked⟩, last⟩
              · rintro ⟨short, ⟨rfl, stored⟩, ⟨_, unmarked⟩, last⟩
                exact ⟨items, ih.mpr ⟨short, stored, unmarked, last⟩, rfl, rfl⟩

/-- A list that is stored with its mark is read, and what follows the mark is
still there. -/
theorem read_until_stored {room : Nat} {items rest : List Item} {mark : Item}
    (stored : StoredAt item next position (items ++ mark :: rest))
    (unmarked : ∀ stored ∈ items, ends stored = false) (marked : ends mark = true)
    (short : items.length < room) :
    readUntil item next ends room position = some items ∧
      StoredAt item next (next (next^[items.length] position)) rest := by
  obtain ⟨first, last, later⟩ := stored_append.mp stored
  exact ⟨read_until_eq_some.mpr ⟨short, first, unmarked, by rw [last]; exact marked⟩, later⟩

theorem read_until_eq {room : Nat} {items : List Item} {mark : Item}
    (stored : StoredAt item next position (items ++ [mark]))
    (unmarked : ∀ stored ∈ items, ends stored = false) (marked : ends mark = true) :
    readUntil item next ends room position = if items.length < room then some items else none := by
  by_cases short : items.length < room
  · rw [if_pos short]
    exact (read_until_stored stored unmarked marked short).1
  · rw [if_neg short]
    cases read : readUntil item next ends room position with
    | none => rfl
    | some found =>
        -- Both lists are read under a larger bound.
        have wide : room ≤ items.length + 1 := by omega
        obtain ⟨fewer, first, plain, last⟩ := read_until_eq_some.mp read
        have again : readUntil item next ends (items.length + 1) position = some found :=
          read_until_eq_some.mpr ⟨Nat.lt_of_lt_of_le fewer wide, first, plain, last⟩
        have whole := (read_until_stored stored unmarked marked (Nat.lt_succ_self _)).1
        obtain rfl : found = items := Option.some.inj (again.symm.trans whole)
        exact absurd fewer short

theorem step_iterate (step count start : Nat) :
    (· + step)^[count] start = start + step * count := by
  induction count generalizing start with
  | zero => rfl
  | succ count ih =>
      rw [Function.iterate_succ_apply, ih, Nat.mul_succ]
      omega

end TerminatedLists
