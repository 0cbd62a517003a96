import Mathlib.Algebra.GroupWithZero.Nat
import Mathlib.Data.List.Nodup
import Mathlib.Data.Nat.Find

/-!
# Greedy batches

A list is handed out in batches of limited room. Each batch passes over the rest
of the list and takes every item that still fits, and the next batch starts as
many items further on as this one took. The batches together give every item
exactly once if and only if no batch takes an item after one that did not fit.
-/

set_option autoImplicit false

namespace GreedyBatches

variable {Item : Type*} (size : Item → Nat)

def pack : Nat → List Item → List Item
  | _, [] => []
  | room, item :: rest =>
      if size item ≤ room then item :: pack (room - size item) rest else pack room rest

def Ordered : Nat → List Item → Prop
  | _, [] => True
  | room, item :: rest =>
      if size item ≤ room then Ordered (room - size item) rest else ∀ later ∈ rest, room < size later

instance decidableOrdered : ∀ room items, Decidable (Ordered size room items)
  | _, [] => isTrue trivial
  | room, item :: rest =>
      if fits : size item ≤ room then
        match decidableOrdered (room - size item) rest with
        | isTrue ordered => isTrue (by rwa [Ordered, if_pos fits])
        | isFalse mixed => isFalse (by rwa [Ordered, if_pos fits])
      else
        match (inferInstance : Decidable (∀ later ∈ rest, room < size later)) with
        | isTrue ordered => isTrue (by rwa [Ordered, if_neg fits])
        | isFalse mixed => isFalse (by rwa [Ordered, if_neg fits])

section

variable {size} {room : Nat} {items : List Item}

theorem pack_sublist (room : Nat) (items : List Item) : (pack size room items).Sublist items := by
  induction items generalizing room with
  | nil => exact List.Sublist.refl []
  | cons item rest ih =>
      rw [pack]
      split_ifs
      · exact (ih _).cons_cons item
      · exact (ih _).cons item

theorem pack_room (room : Nat) (items : List Item) :
    ((pack size room items).map size).sum ≤ room := by
  induction items generalizing room with
  | nil => exact Nat.zero_le room
  | cons item rest ih =>
      rw [pack]
      split_ifs with fits
      · have later := ih (room - size item)
        rw [List.map_cons, List.sum_cons]
        omega
      · exact ih room

theorem pack_nonempty {item : Item} (member : item ∈ items) (fits : size item ≤ room) :
    pack size room items ≠ [] := by
  induction items with
  | nil => cases member
  | cons first rest ih =>
      rw [pack]
      split_ifs with firstFits
      · nofun
      · rcases List.mem_cons.mp member with rfl | later
        · exact absurd fits firstFits
        · exact ih later

theorem pack_none (small : ∀ item ∈ items, room < size item) : pack size room items = [] := by
  induction items with
  | nil => rfl
  | cons item rest ih =>
      have first := small item List.mem_cons_self
      rw [pack, if_neg (by omega)]
      exact ih fun later member => small later (List.mem_cons_of_mem item member)

theorem pack_of_ordered (ordered : Ordered size room items) :
    pack size room items <+: items := by
  induction items generalizing room with
  | nil => exact List.prefix_refl []
  | cons item rest ih =>
      rw [Ordered] at ordered
      rw [pack]
      split_ifs at ordered ⊢
      · exact List.cons_prefix_cons.mpr ⟨rfl, ih ordered⟩
      · rw [pack_none ordered]
        exact List.nil_prefix

theorem pack_of_not_ordered (mixed : ¬Ordered size room items) :
    ∃ before item after picked, items = before ++ item :: after ∧
      pack size room items = before ++ picked ∧ picked ≠ [] ∧ picked.Sublist after := by
  induction items generalizing room with
  | nil => exact absurd trivial mixed
  | cons first rest ih =>
      rw [Ordered] at mixed
      rw [pack]
      split_ifs at mixed ⊢ with fits
      · obtain ⟨before, item, after, picked, split, packed, some, within⟩ := ih mixed
        refine ⟨first :: before, item, after, picked, ?_, ?_, some, within⟩
        · rw [split, List.cons_append]
        · rw [packed, List.cons_append]
      · push Not at mixed
        obtain ⟨later, member, fitting⟩ := mixed
        exact ⟨[], first, rest, pack size room rest, rfl, rfl,
          pack_nonempty member fitting, pack_sublist room rest⟩

end

variable (rooms : Nat → Nat) (items : List Item)

def position : Nat → Nat
  | 0 => 0
  | k + 1 => position k + (pack size (rooms k) (items.drop (position k))).length

def batch (k : Nat) : List Item := pack size (rooms k) (items.drop (position size rooms items k))

def returned (n : Nat) : List Item := (List.range n).flatMap (batch size rooms items)

section

variable {size rooms items}

theorem position_succ (k : Nat) : position size rooms items (k + 1) =
    position size rooms items k + (batch size rooms items k).length := rfl

theorem position_le (k : Nat) : position size rooms items k ≤ items.length := by
  induction k with
  | zero => exact Nat.zero_le _
  | succ k ih =>
      have taken := (@pack_sublist _ size (rooms k)
        (items.drop (position size rooms items k))).length_le
      rw [List.length_drop] at taken
      rw [position_succ]
      unfold batch
      omega

theorem position_mono {j k : Nat} (order : j ≤ k) :
    position size rooms items j ≤ position size rooms items k := by
  induction order with
  | refl => exact Nat.le_refl _
  | step _ ih => exact Nat.le_trans ih (Nat.le_add_right _ _)

theorem batch_nonempty (roomy : ∀ k, ∀ item ∈ items, size item ≤ rooms k) {k : Nat}
    (left : position size rooms items k < items.length) : batch size rooms items k ≠ [] := by
  have member := List.getElem_mem (List.length_drop ▸ Nat.sub_pos_of_lt left :
    0 < (items.drop (position size rooms items k)).length)
  exact pack_nonempty member (roomy k _ (List.mem_of_mem_drop member))

theorem batch_empty_iff (roomy : ∀ k, ∀ item ∈ items, size item ≤ rooms k) {k : Nat} :
    batch size rooms items k = [] ↔ position size rooms items k = items.length := by
  constructor
  · intro empty
    by_contra left
    exact batch_nonempty roomy (Nat.lt_of_le_of_ne (position_le k) left) empty
  · intro reached
    unfold batch
    rw [reached, List.drop_length]
    rfl

theorem position_reaches (roomy : ∀ k, ∀ item ∈ items, size item ≤ rooms k) :
    ∃ n, position size rooms items n = items.length ∧
      ∀ k, k < n → position size rooms items k < items.length := by
  have grows (k : Nat) : min k items.length ≤ position size rooms items k := by
    induction k with
    | zero => exact Nat.zero_le _
    | succ k ih =>
        by_cases left : position size rooms items k < items.length
        · have some := List.length_pos_of_ne_nil (batch_nonempty roomy left)
          rw [position_succ]
          omega
        · have later := @position_mono _ size rooms items k (k + 1) (Nat.le_succ k)
          omega
  have reached : ∃ n, position size rooms items n = items.length := by
    refine ⟨items.length, Nat.le_antisymm (position_le _) ?_⟩
    have last := grows items.length
    omega
  refine ⟨Nat.find reached, Nat.find_spec reached, ?_⟩
  intro k before
  exact Nat.lt_of_le_of_ne (position_le k) (Nat.find_min reached before)

theorem batch_of_ordered {k : Nat}
    (ordered : Ordered size (rooms k) (items.drop (position size rooms items k))) :
    batch size rooms items k =
      (items.drop (position size rooms items k)).take (batch size rooms items k).length :=
  (List.prefix_iff_eq_take.mp (pack_of_ordered ordered))

theorem returned_succ (n : Nat) : returned size rooms items (n + 1) =
    returned size rooms items n ++ batch size rooms items n := by
  unfold returned
  rw [List.range_succ, List.flatMap_append]
  simp

theorem returned_of_ordered {n : Nat} (ordered : ∀ k, k < n →
      Ordered size (rooms k) (items.drop (position size rooms items k))) :
    returned size rooms items n = items.take (position size rooms items n) := by
  induction n with
  | zero => rfl
  | succ n ih =>
      rw [returned_succ, ih fun k before => ordered k (Nat.lt_succ_of_lt before), position_succ,
        List.take_add, ← batch_of_ordered (ordered n (Nat.lt_succ_self n))]

/-- The item that a batch which is not ordered leaves out is in no batch, if the
batches before it are ordered. -/
theorem item_left_out (distinct : items.Nodup) {k n : Nat}
    (ordered : ∀ j, j < k → Ordered size (rooms j) (items.drop (position size rooms items j)))
    (mixed : ¬Ordered size (rooms k) (items.drop (position size rooms items k))) :
    ∃ item ∈ items, item ∉ returned size rooms items n := by
  obtain ⟨before, item, after, picked, split, packed, some, within⟩ := pack_of_not_ordered mixed
  have whole : items = items.take (position size rooms items k) ++ (before ++ item :: after) := by
    rw [← split, List.take_append_drop]
  have member : item ∈ items := by
    rw [whole]
    simp
  have apart : item ∉ items.take (position size rooms items k) ∧ item ∉ before ∧
      item ∉ after := by
    rw [whole, List.nodup_append, List.nodup_append, List.nodup_cons] at distinct
    obtain ⟨_, ⟨_, ⟨notAfter, _⟩, apartBefore⟩, apartTaken⟩ := distinct
    exact ⟨fun earlier => apartTaken item earlier item (by simp) rfl,
      fun earlier => apartBefore item earlier item List.mem_cons_self rfl, notAfter⟩
  have beyond : position size rooms items k + before.length + 1 ≤
      position size rooms items (k + 1) := by
    have counted := congrArg List.length packed
    have positive := List.length_pos_of_ne_nil some
    rw [List.length_append] at counted
    rw [position_succ]
    unfold batch
    omega
  refine ⟨item, member, ?_⟩
  unfold returned
  rw [List.mem_flatMap]
  rintro ⟨j, _, taken⟩
  rcases Nat.lt_trichotomy j k with earlier | rfl | later
  · -- an ordered batch takes items before the position of the mixed one
    have early := @returned_of_ordered _ size rooms items k ordered
    apply apart.1
    rw [← early]
    exact List.mem_flatMap.mpr ⟨j, List.mem_range.mpr earlier, taken⟩
  · unfold batch at taken
    rw [packed, List.mem_append] at taken
    rcases taken with prior | chosen
    · exact apart.2.1 prior
    · exact apart.2.2 (within.subset chosen)
  · -- a later batch starts behind the item
    have start := @position_mono _ size rooms items (k + 1) j later
    have remaining := (pack_sublist _ _).subset taken
    have skipped : items.drop (position size rooms items k + (before.length + 1)) = after := by
      rw [← List.drop_drop, split, ← List.drop_drop, List.drop_left]
      rfl
    have tail := List.drop_subset_drop_left items
      (by omega : position size rooms items k + (before.length + 1) ≤
        position size rooms items j) remaining
    rw [skipped] at tail
    exact apart.2.2 tail

theorem batches_complete_iff (distinct : items.Nodup)
    (roomy : ∀ k, ∀ item ∈ items, size item ≤ rooms k) :
    (∃ n, position size rooms items n = items.length ∧
        (∀ k, k < n → batch size rooms items k ≠ []) ∧
        (returned size rooms items n).Perm items) ↔
      ∀ k, Ordered size (rooms k) (items.drop (position size rooms items k)) := by
  constructor
  · rintro ⟨n, _, _, complete⟩
    by_contra some
    push Not at some
    have first := Nat.find_spec some
    obtain ⟨item, member, missing⟩ := @item_left_out _ size rooms items distinct _ n
      (fun j before => not_not.mp (Nat.find_min some before)) first
    exact missing (complete.mem_iff.mpr member)
  · intro ordered
    obtain ⟨n, whole, before⟩ := position_reaches roomy
    refine ⟨n, whole, fun k earlier => batch_nonempty roomy (before k earlier), ?_⟩
    rw [returned_of_ordered fun k _ => ordered k, whole, List.take_length]

end

end GreedyBatches
