import Mathlib.Data.List.Basic

/-!
# One's complement sums of bytes

A text of bytes taken as words of 16 bits, the last one filled up with zeros, and the
sum of the words with the carries added back in. Folding the carries keeps the sum
modulo 65535 and makes it zero only if it was. So a word that is the complement of
the folded sum of the others makes the whole sum fold to 65535.
-/

set_option autoImplicit false

namespace OnesComplement

def wordSum : List UInt8 → Nat
  | [] => 0
  | [last] => last.toNat * 256
  | high :: low :: rest => high.toNat * 256 + low.toNat + wordSum rest

def foldCarries (sum : Nat) : Nat :=
  if sum / 65536 = 0 then sum else foldCarries (sum % 65536 + sum / 65536)
termination_by sum
decreasing_by omega

theorem word_sum_append {first second : List UInt8} (even : first.length % 2 = 0) :
    wordSum (first ++ second) = wordSum first + wordSum second := by
  induction first using wordSum.induct with
  | case1 => rw [List.nil_append, wordSum, Nat.zero_add]
  | case2 last => cases even
  | case3 high low rest ih =>
      rw [List.cons_append, List.cons_append, wordSum, wordSum,
        ih (by simp only [List.length_cons] at even; omega)]
      omega

theorem word_sum_le (bytes : List UInt8) : wordSum bytes ≤ (bytes.length + 1) / 2 * 65535 := by
  induction bytes using wordSum.induct with
  | case1 => exact Nat.le_refl 0
  | case2 last =>
      have below := last.toNat_lt
      rw [wordSum, List.length_singleton]
      omega
  | case3 high low rest ih =>
      have belowHigh := high.toNat_lt
      have belowLow := low.toNat_lt
      rw [wordSum, List.length_cons, List.length_cons]
      omega

theorem fold_carries_lt (sum : Nat) : foldCarries sum < 65536 := by
  induction sum using foldCarries.induct with
  | case1 sum small =>
      rw [foldCarries, if_pos small]
      omega
  | case2 sum large ih =>
      rw [foldCarries, if_neg large]
      exact ih

theorem fold_carries_mod (sum : Nat) : foldCarries sum % 65535 = sum % 65535 := by
  induction sum using foldCarries.induct with
  | case1 sum small => rw [foldCarries, if_pos small]
  | case2 sum large ih =>
      rw [foldCarries, if_neg large, ih]
      omega

theorem fold_carries_pos {sum : Nat} (positive : 0 < sum) : 0 < foldCarries sum := by
  induction sum using foldCarries.induct with
  | case1 sum small => rwa [foldCarries, if_pos small]
  | case2 sum large ih =>
      rw [foldCarries, if_neg large]
      exact ih (by omega)

theorem fold_carries_complement (sum : Nat) :
    foldCarries (sum + (65535 - foldCarries sum)) = 65535 := by
  have below := fold_carries_lt sum
  have same := fold_carries_mod sum
  have rest : (sum + (65535 - foldCarries sum)) % 65535 = 0 := by omega
  have positive : 0 < sum + (65535 - foldCarries sum) := by
    by_cases zero : sum = 0
    · subst zero
      have foldZero : foldCarries 0 = 0 := by
        rw [foldCarries, if_pos (Nat.zero_div _)]
      omega
    · omega
  have folded := fold_carries_mod (sum + (65535 - foldCarries sum))
  have bound := fold_carries_lt (sum + (65535 - foldCarries sum))
  have foldPositive := fold_carries_pos positive
  omega

end OnesComplement
