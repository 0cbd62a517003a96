import Mathlib.Algebra.GroupWithZero.Nat
import Mathlib.Data.Nat.Count
import Mathlib.Logic.Function.Basic

/-!
# Sets of naturals packed into words

A family of `w`-bit words represents the set of the naturals whose bit is one:
the number `n` is bit `n % w` of word `n / w`. Setting and clearing a bit are
the mask operations a program performs on the word, and the number of clear
bits below a limit follows each of them.
-/

set_option autoImplicit false

namespace PackedBits

variable {w : Nat}

def test (words : Nat → BitVec w) (n : Nat) : Bool := (words (n / w)).getLsbD (n % w)

def mask (w n : Nat) : BitVec w := 1#w <<< (n % w)

def set (words : Nat → BitVec w) (n : Nat) : Nat → BitVec w :=
  Function.update words (n / w) (words (n / w) ||| mask w n)

def clear (words : Nat → BitVec w) (n : Nat) : Nat → BitVec w :=
  Function.update words (n / w) (words (n / w) &&& ~~~mask w n)

def clearBelow (words : Nat → BitVec w) (limit : Nat) : Nat :=
  Nat.count (fun n => test words n = false) limit

theorem same_position {n m : Nat} (sameWord : n / w = m / w) : n % w = m % w ↔ n = m := by
  constructor
  · intro sameBit
    rw [← Nat.div_add_mod n w, ← Nat.div_add_mod m w, sameWord, sameBit]
  · rintro rfl
    rfl

theorem clear_below_congr {words other : Nat → BitVec w} {limit : Nat}
    (same : ∀ n, n < limit → test other n = test words n) :
    clearBelow other limit = clearBelow words limit := by
  unfold clearBelow
  induction limit with
  | zero => rfl
  | succ limit ih =>
      rw [Nat.count_succ, Nat.count_succ, ih fun n below => same n (by omega),
        same limit (by omega)]

theorem clear_below_zero (limit : Nat) : clearBelow (fun _ => 0#w) limit = limit := by
  unfold clearBelow
  simp [test]

/-- Bits that differ only at `n`, set in one family and clear in the other. -/
theorem clear_below_differ {words other : Nat → BitVec w} {n limit : Nat} (inside : n < limit)
    (unset : test words n = false) (isSet : test other n = true)
    (same : ∀ m, m ≠ n → test other m = test words m) :
    clearBelow other limit + 1 = clearBelow words limit := by
  induction limit with
  | zero => cases inside
  | succ limit ih =>
      simp only [clearBelow, Nat.count_succ] at ih ⊢
      by_cases last : n = limit
      · subst last
        have before := @clear_below_congr w words other n fun m below => same m (by omega)
        simp only [clearBelow] at before
        simp [before, unset, isSet]
      · have before := ih (by omega)
        rw [same limit (fun equal => last equal.symm)]
        omega

variable [NeZero w]

theorem position_lt (n : Nat) : n % w < w := Nat.mod_lt n (Nat.pos_of_neZero w)

theorem mask_bit (n position : Nat) :
    (mask w n).getLsbD position = decide (position = n % w) := by
  unfold mask
  rw [← BitVec.twoPow_eq, BitVec.getLsbD_twoPow]
  have bound := @position_lt w _ n
  simp [bound, eq_comm]

theorem masked_eq_zero_iff (words : Nat → BitVec w) (n : Nat) :
    words (n / w) &&& mask w n = 0#w ↔ test words n = false := by
  have bound := @position_lt w _ n
  constructor
  · intro zero
    have bit := congrArg (fun word => word.getLsbD (n % w)) zero
    unfold test
    simpa only [BitVec.getLsbD_and, mask_bit n, decide_true, Bool.and_true,
      BitVec.getLsbD_zero] using bit
  · intro unset
    apply BitVec.eq_of_getLsbD_eq
    intro position inside
    rw [BitVec.getLsbD_and, mask_bit n position, BitVec.getLsbD_zero]
    by_cases here : position = n % w
    · subst here
      unfold test at unset
      simp [unset]
    · simp [here]

theorem test_of_full {words : Nat → BitVec w} {n : Nat}
    (full : words (n / w) = BitVec.allOnes w) : test words n = true := by
  unfold test
  rw [full, BitVec.getLsbD_allOnes]
  simpa using @position_lt w _ n

/-- What an update of the word of `n` does to every bit. -/
theorem test_update {words : Nat → BitVec w} {n : Nat} {word : BitVec w} {bit : Bool}
    (others : ∀ position, position < w → position ≠ n % w →
      word.getLsbD position = (words (n / w)).getLsbD position)
    (here : word.getLsbD (n % w) = bit) (m : Nat) :
    test (Function.update words (n / w) word) m = if m = n then bit else test words m := by
  have bound := @position_lt w _ m
  unfold test
  by_cases sameWord : m / w = n / w
  · rw [sameWord, Function.update_self]
    by_cases same : m = n
    · rw [if_pos same, same]
      exact here
    · rw [if_neg same]
      apply others _ bound
      intro sameBit
      exact same ((same_position sameWord).mp sameBit)
  · rw [Function.update_of_ne sameWord, if_neg]
    rintro rfl
    exact sameWord rfl

theorem test_set (words : Nat → BitVec w) (n m : Nat) :
    test (set words n) m = if m = n then true else test words m := by
  have bound := @position_lt w _ n
  apply test_update
  · intro position inside different
    rw [BitVec.getLsbD_or, mask_bit n position]
    simp [different]
  · rw [BitVec.getLsbD_or, mask_bit n]
    simp

theorem test_clear (words : Nat → BitVec w) (n m : Nat) :
    test (clear words n) m = if m = n then false else test words m := by
  have bound := @position_lt w _ n
  apply test_update
  · intro position inside different
    rw [BitVec.getLsbD_and, BitVec.getLsbD_not, mask_bit n position]
    simp [different, inside]
  · rw [BitVec.getLsbD_and, BitVec.getLsbD_not, mask_bit n]
    simp

theorem clear_below_set {words : Nat → BitVec w} {n limit : Nat} (inside : n < limit)
    (unset : test words n = false) :
    clearBelow (set words n) limit + 1 = clearBelow words limit := by
  apply clear_below_differ inside unset
  · simp [test_set]
  · intro m different
    simp [test_set, different]

theorem clear_below_clear {words : Nat → BitVec w} {n limit : Nat} (inside : n < limit)
    (isSet : test words n = true) :
    clearBelow (clear words n) limit = clearBelow words limit + 1 := by
  symm
  apply clear_below_differ inside _ isSet
  · intro m different
    simp [test_clear, different]
  · simp [test_clear]

end PackedBits
