import Mathlib.Data.List.Basic

/-!
# Writes to slices of a buffer

`put` replaces the part of a buffer from a position on. A program that fills a buffer
from its start has written, after each write, the parts so far and left the rest as
it was; a later write may replace one of the parts by another of the same length.
-/

set_option autoImplicit false

namespace SliceWrites

variable {Item : Type*} {out done rest first old second part : List Item} {position : Nat}

def put (out : List Item) (position : Nat) (part : List Item) : List Item :=
  out.take position ++ part ++ out.drop (position + part.length)

theorem put_first (out part : List Item) : put out 0 part = part ++ out.drop part.length := by
  rw [put, List.take_zero, List.nil_append, Nat.zero_add]

theorem put_next (place : done.length = position) (part : List Item) :
    put (done ++ rest) position part = done ++ part ++ rest.drop part.length := by
  subst place
  rw [put, List.take_left, ← List.drop_drop, List.drop_left]

theorem put_over (place : first.length = position) (same : part.length = old.length) :
    put (first ++ old ++ second) position part = first ++ part ++ second := by
  subst place
  rw [List.append_assoc, put_next rfl, same, List.drop_left]

end SliceWrites
