import Mathlib.Algebra.Group.Nat.Defs
import Mathlib.Data.List.Basic
import Mathlib.Data.Nat.Basic

/-!
# Positional numerals

The value of a list of digits, read from its most significant digit on, the
digits of a number, and the reader that sticks at a limit.
-/

set_option autoImplicit false

namespace Numerals

variable (base : Nat)

/-- The value of digits that follow others of value `v`. -/
def valueFrom (v : Nat) (digits : List Nat) : Nat :=
  digits.foldl (fun val digit => val * base + digit) v

/-- The digits of `v` in front of others; zero has none. -/
def digitsLoop (wide : 1 < base) (v : Nat) (written : List Nat) : List Nat :=
  if v = 0 then written else digitsLoop wide (v / base) (v % base :: written)
decreasing_by exact Nat.div_lt_self (Nat.pos_of_ne_zero (by assumption)) wide

/-- At most so many digits of `v`, the least significant ones. -/
def digitsWithin : Nat → Nat → List Nat → List Nat
  | 0, _, written => written
  | room + 1, v, written =>
      if v = 0 then written else digitsWithin room (v / base) (v % base :: written)

def readStuck (limit : Nat) (val : Nat) (digits : List Nat) : Nat :=
  digits.foldl (fun val digit => min (min (val * base) limit + digit) limit) val

variable {base}

theorem value_from_append (v : Nat) (first second : List Nat) :
    valueFrom base v (first ++ second) = valueFrom base (valueFrom base v first) second :=
  List.foldl_append

theorem digits_loop_append (wide : 1 < base) (v : Nat) (written : List Nat) :
    digitsLoop base wide v written = digitsLoop base wide v [] ++ written := by
  induction v using Nat.strong_induction_on generalizing written with
  | _ v ih =>
      rw [digitsLoop]
      conv_rhs => rw [digitsLoop]
      split_ifs with zero
      · rfl
      · have smaller := Nat.div_lt_self (Nat.pos_of_ne_zero zero) wide
        rw [ih _ smaller (v % base :: written), ih _ smaller [v % base], List.append_assoc]
        rfl

theorem value_digits_loop (wide : 1 < base) (v : Nat) :
    valueFrom base 0 (digitsLoop base wide v []) = v := by
  induction v using Nat.strong_induction_on with
  | _ v ih =>
      rw [digitsLoop]
      split_ifs with zero
      · exact zero.symm
      · rw [digits_loop_append, value_from_append,
          ih _ (Nat.div_lt_self (Nat.pos_of_ne_zero zero) wide)]
        change v / base * base + v % base = v
        exact Nat.div_add_mod' v base

theorem digits_loop_lt (wide : 1 < base) (v : Nat) {written : List Nat}
    (small : ∀ digit ∈ written, digit < base) :
    ∀ digit ∈ digitsLoop base wide v written, digit < base := by
  induction v using Nat.strong_induction_on generalizing written with
  | _ v ih =>
      rw [digitsLoop]
      split_ifs with zero
      · exact small
      · apply ih _ (Nat.div_lt_self (Nat.pos_of_ne_zero zero) wide)
        intro digit member
        rcases List.mem_cons.mp member with rfl | later
        · exact Nat.mod_lt v (Nat.zero_lt_of_lt wide)
        · exact small digit later

/-- A number below `base ^ room` fits into the room. -/
theorem digits_within_eq (wide : 1 < base) {room v : Nat} (fits : v < base ^ room)
    (written : List Nat) : digitsWithin base room v written = digitsLoop base wide v written := by
  induction room generalizing v written with
  | zero =>
      obtain rfl : v = 0 := by simpa using fits
      rw [digitsLoop]
      rfl
  | succ room ih =>
      rw [digitsWithin, digitsLoop]
      split_ifs
      · rfl
      · apply ih
        exact Nat.div_lt_of_lt_mul (by rwa [pow_succ, Nat.mul_comm] at fits)

theorem digits_within_lt (positive : 0 < base) {room v : Nat} {written : List Nat}
    (small : ∀ digit ∈ written, digit < base) :
    ∀ digit ∈ digitsWithin base room v written, digit < base := by
  induction room generalizing v written with
  | zero => exact small
  | succ room ih =>
      rw [digitsWithin]
      split_ifs
      · exact small
      · apply ih
        intro digit member
        rcases List.mem_cons.mp member with rfl | later
        · exact Nat.mod_lt v positive
        · exact small digit later

theorem digits_within_nonempty {room v : Nat} {written : List Nat}
    (left : written ≠ [] ∨ 0 < room ∧ v ≠ 0) : digitsWithin base room v written ≠ [] := by
  induction room generalizing v written with
  | zero => exact left.resolve_right fun both => absurd both.1 (lt_irrefl 0)
  | succ room ih =>
      rw [digitsWithin]
      split_ifs with zero
      · exact left.resolve_right fun both => both.2 zero
      · exact ih (.inl (List.cons_ne_nil _ _))

theorem value_digits_within (room v : Nat) (written : List Nat) :
    valueFrom base 0 (digitsWithin base room v written) =
      valueFrom base (v % base ^ room) written := by
  induction room generalizing v written with
  | zero => simp [digitsWithin, Nat.mod_one]
  | succ room ih =>
      rw [digitsWithin]
      split_ifs with zero
      · rw [zero, Nat.zero_mod]
      · rw [ih]
        change valueFrom base (v / base % base ^ room * base + v % base) written = _
        congr 1
        rw [pow_succ', Nat.mod_mul, Nat.mul_comm, Nat.add_comm]

theorem read_stuck_eq (positive : 0 < base) (limit v : Nat) (digits : List Nat) :
    readStuck base limit (min v limit) digits = min (valueFrom base v digits) limit := by
  induction digits generalizing v with
  | nil => rfl
  | cons digit rest ih =>
      have step : min (min (min v limit * base) limit + digit) limit =
          min (v * base + digit) limit := by
        by_cases below : v ≤ limit
        · rw [min_eq_left below]
          omega
        · have scaled : limit ≤ limit * base := Nat.le_mul_of_pos_right limit positive
          have larger : v ≤ v * base := Nat.le_mul_of_pos_right v positive
          rw [min_eq_right (Nat.le_of_not_le below), min_eq_right scaled]
          omega
      change readStuck base limit (min (min (min v limit * base) limit + digit) limit) rest = _
      rw [step, ih]
      rfl

end Numerals
