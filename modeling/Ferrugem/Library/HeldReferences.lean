import Mathlib.Algebra.BigOperators.Fin
import Mathlib.Algebra.Order.BigOperators.Group.Finset

/-!
# References held by a finite family

Every holder holds one item, and an item refers to each key some number of
times. The total number of references to a key changes by the difference of
the two items when one holder is given another item. A reference count is
exact when it equals that total.
-/

set_option autoImplicit false

namespace HeldReferences

variable {Holder Item Key : Type*} [Fintype Holder]

@[irreducible] def total (count : Item → Key → Nat) (held : Holder → Item) (key : Key) : Nat :=
  ∑ holder, count (held holder) key

variable (count : Item → Key → Nat) (held : Holder → Item)

theorem total_congr {other : Holder → Item} {key : Key}
    (same : ∀ holder, count (other holder) key = count (held holder) key) :
    total count other key = total count held key := by
  unfold total
  exact Finset.sum_congr rfl fun holder _ => same holder

theorem total_eq_zero {key : Key} (none : ∀ holder, count (held holder) key = 0) :
    total count held key = 0 := by
  unfold total
  exact Finset.sum_eq_zero fun holder _ => none holder

theorem count_le_total (holder : Holder) (key : Key) :
    count (held holder) key ≤ total count held key := by
  unfold total
  exact Finset.single_le_sum (f := fun holder => count (held holder) key)
    (fun _ _ => Nat.zero_le _) (Finset.mem_univ holder)

theorem total_le_card_mul {key : Key} {limit : Nat}
    (bound : ∀ holder, count (held holder) key ≤ limit) :
    total count held key ≤ Fintype.card Holder * limit := by
  have summed := Finset.sum_le_card_nsmul Finset.univ (fun holder => count (held holder) key)
    limit fun holder _ => bound holder
  simpa [total] using summed

theorem total_update [DecidableEq Holder] (holder : Holder) (item : Item) (key : Key) :
    total count (Function.update held holder item) key + count (held holder) key =
      total count held key + count item key := by
  have member := Finset.mem_univ holder
  have others : ∑ other ∈ Finset.univ.erase holder,
      count (Function.update held holder item other) key =
        ∑ other ∈ Finset.univ.erase holder, count (held other) key := by
    apply Finset.sum_congr rfl
    intro other different
    rw [Function.update_of_ne (Finset.ne_of_mem_erase different)]
  have before := Finset.add_sum_erase Finset.univ (fun other => count (held other) key) member
  have after := Finset.add_sum_erase Finset.univ
    (fun other => count (Function.update held holder item other) key) member
  simp only [Function.update_self] at after
  unfold total
  omega

theorem total_eq_list_sum {size : Nat} (table : Fin size → Item) (key : Key) :
    total count table key =
      ((List.finRange size).map fun index => count (table index) key).sum := by
  unfold total
  rw [Fin.sum_univ_def]

end HeldReferences
