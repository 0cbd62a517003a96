import Ferrugem.Library.Numerals
import Ferrugem.ShellCommands

/-!
# Numbers at the shell

`parse_decimal` and `parse_octal` read what the user types, `print_u64` and
`print_u64_padded` write what the user sees. A number too large for its type is
read as the largest one, and one too wide for its field loses its first digits.
-/

namespace Ferrugem.ShellNumbers

open Ferrugem.RamFsModel Ferrugem.ShellCommands Numerals

set_option autoImplicit false

def digitByte (digit : Nat) : UInt8 := UInt8.ofNat (0x30 + digit)

def IsNumeral (base : Nat) (digits : Bytes) : Prop :=
  ∀ byte ∈ digits, 0x30 ≤ byte.toNat ∧ byte.toNat < 0x30 + base

instance decidableIsNumeral (base : Nat) (digits : Bytes) : Decidable (IsNumeral base digits) :=
  List.decidableBAll _ digits

def valueOf (base : Nat) (digits : Bytes) : Nat :=
  valueFrom base 0 (digits.map fun byte => byte.toNat - 0x30)

theorem digit_of_some {base : Nat} {byte : UInt8}
    (valid : 0x30 ≤ byte.toNat ∧ byte.toNat < 0x30 + base) :
    digitOf base byte = some (byte.toNat - 0x30) := if_pos valid

theorem parse_loop_eq (base limit val : Nat) (digits : Bytes) :
    parseLoop base limit val digits =
      if IsNumeral base digits then
        some (readStuck base limit val (digits.map fun byte => byte.toNat - 0x30))
      else none := by
  induction digits generalizing val with
  | nil => exact (if_pos nofun).symm
  | cons byte rest ih =>
      by_cases valid : 0x30 ≤ byte.toNat ∧ byte.toNat < 0x30 + base
      · have numeral : IsNumeral base (byte :: rest) ↔ IsNumeral base rest := by
          simp [IsNumeral, valid]
        rw [parseLoop, digit_of_some valid, Option.bind_some, ih]
        simp only [numeral]
        rfl
      · have other : ¬IsNumeral base (byte :: rest) :=
          fun numeral => valid (numeral byte List.mem_cons_self)
        rw [parseLoop, digitOf, if_neg valid, if_neg other]
        rfl

theorem parse_loop_saturates {base : Nat} (positive : 0 < base) (limit : Nat) (digits : Bytes) :
    parseLoop base limit 0 digits =
      if IsNumeral base digits then some (min (valueOf base digits) limit) else none := by
  have read := read_stuck_eq positive limit 0 (digits.map fun byte => byte.toNat - 0x30)
  rw [Nat.zero_min] at read
  rw [parse_loop_eq, read]
  rfl

/-- What is typed is read as the number it spells, or the largest one. -/
theorem typed_numbers_saturate (digits : Bytes) :
    parseDecimal digits =
        (if digits ≠ [] ∧ IsNumeral 10 digits then
          some (min (valueOf 10 digits) (2 ^ 64 - 1))
        else none) ∧
      parseOctal digits =
        if IsNumeral 8 digits then some (BitVec.ofNat 16 (min (valueOf 8 digits) 0xFFFF))
        else none := by
  constructor
  · unfold parseDecimal
    by_cases empty : digits = []
    · rw [if_pos empty, if_neg fun both => both.1 empty]
    · rw [if_neg empty, parse_loop_saturates (by decide)]
      simp only [empty, ne_eq, not_false_eq_true, true_and]
  · unfold parseOctal
    rw [parse_loop_saturates (by decide)]
    split_ifs <;> rfl

theorem digit_byte_value {digit : Nat} (small : digit < 10) :
    (digitByte digit).toNat = 0x30 + digit := by
  unfold digitByte
  rw [UInt8.toNat_ofNat']
  omega

theorem decimal_loop_eq (v : Nat) (digits : List Nat) :
    decimalLoop v (digits.map digitByte) =
      (digitsLoop 10 (by decide) v digits).map digitByte := by
  induction v using Nat.strong_induction_on generalizing digits with
  | _ v ih =>
      rw [decimalLoop, digitsLoop]
      split_ifs with zero
      · rfl
      · exact ih _ (Nat.div_lt_self (Nat.pos_of_ne_zero zero) (by decide)) (v % 10 :: digits)

theorem padded_loop_eq (room v : Nat) (digits : List Nat) :
    ∃ blanks, paddedLoop room v (digits.map digitByte) =
        List.replicate blanks space ++ (digitsWithin 10 room v digits).map digitByte ∧
      blanks + (digitsWithin 10 room v digits).length = room + digits.length := by
  induction room generalizing v digits with
  | zero => exact ⟨0, rfl, by simp [digitsWithin]⟩
  | succ room ih =>
      rw [paddedLoop, digitsWithin]
      split_ifs
      · exact ⟨room + 1, rfl, rfl⟩
      · obtain ⟨blanks, printed, size⟩ := ih (v / 10) (v % 10 :: digits)
        refine ⟨blanks, printed, ?_⟩
        rw [List.length_cons] at size
        omega

theorem value_digit_bytes {digits : List Nat} (small : ∀ digit ∈ digits, digit < 10) :
    valueOf 10 (digits.map digitByte) = valueFrom 10 0 digits ∧
      IsNumeral 10 (digits.map digitByte) := by
  constructor
  · unfold valueOf
    rw [List.map_map]
    congr 1
    refine (List.map_congr_left ?_).trans (List.map_id digits)
    intro digit member
    simp [digit_byte_value (small digit member)]
  · intro byte member
    obtain ⟨digit, listed, rfl⟩ := List.mem_map.mp member
    have bound := small digit listed
    rw [digit_byte_value bound]
    omega

theorem print_u64_numeral (n : Nat) :
    valueOf 10 (printU64 n) = n ∧ IsNumeral 10 (printU64 n) ∧ printU64 n ≠ [] := by
  unfold printU64
  split_ifs with zero
  · subst zero
    decide
  · have digits := decimal_loop_eq n []
    rw [List.map_nil] at digits
    obtain ⟨value, numeral⟩ := value_digit_bytes (@digits_loop_lt 10 (by decide) n [] nofun)
    rw [value_digits_loop] at value
    rw [digits]
    refine ⟨value, numeral, ?_⟩
    intro empty
    rw [empty] at value
    exact zero value.symm

/-- The field of twenty bytes is wide enough for every `u64`. -/
theorem print_u64_length {n : Nat} (fits : n < 2 ^ 64) : (printU64 n).length ≤ 20 := by
  unfold printU64
  split_ifs
  · decide
  · have digits := decimal_loop_eq n []
    rw [List.map_nil] at digits
    rw [digits, List.length_map,
      ← @digits_within_eq 10 (by decide) 20 n (fits.trans (by decide)) []]
    obtain ⟨blanks, -, size⟩ := padded_loop_eq 20 n []
    rw [List.length_nil] at size
    omega

theorem drop_spaces {digits : Bytes} (numeral : IsNumeral 10 digits) (blanks : Nat) :
    (List.replicate blanks space ++ digits).dropWhile (· == space) = digits := by
  rw [List.dropWhile_append_of_pos (by simp)]
  cases digits with
  | nil => rfl
  | cons byte rest =>
      apply List.dropWhile_cons_of_neg
      intro isSpace
      have digit := numeral byte List.mem_cons_self
      rw [beq_iff_eq.mp isSpace] at digit
      exact absurd digit (by decide)

theorem print_padded_numeral (n : Nat) {width : Nat} (wide : 0 < width) :
    ∃ blanks digits, printU64Padded n width = List.replicate blanks space ++ digits ∧
      blanks + digits.length = width ∧ IsNumeral 10 digits ∧ digits ≠ [] ∧
      valueOf 10 digits = n % 10 ^ width := by
  unfold printU64Padded
  split_ifs with zero
  · refine ⟨width - 1, [0x30], rfl, Nat.sub_add_cancel wide, by decide, by simp, ?_⟩
    rw [zero, Nat.zero_mod]
    rfl
  · obtain ⟨blanks, printed, size⟩ := padded_loop_eq width n []
    obtain ⟨value, numeral⟩ := value_digit_bytes (@digits_within_lt 10 (by decide) width n [] nofun)
    refine ⟨blanks, _, printed, ?_, numeral, ?_, ?_⟩
    · rw [List.length_map]
      exact size
    · simpa using digits_within_nonempty (.inr ⟨wide, zero⟩)
    · rw [value, value_digits_within]
      rfl

/-- A printed number is read back, and a padded one up to the digits that its
field has room for. -/
theorem printed_numbers_read_back {n width : Nat} (fits : n < 2 ^ 64)
    (room : 0 < width ∧ width ≤ 20) :
    parseDecimal (printU64 n) = some n ∧ (printU64 n).length ≤ 20 ∧
      parseDecimal ((printU64Padded n width).dropWhile (· == space)) = some (n % 10 ^ width) ∧
      (printU64Padded n width).length = width := by
  have small : n % 10 ^ width ≤ n := Nat.mod_le _ _
  have parse {digits : Bytes} (numeral : IsNumeral 10 digits) (nonempty : digits ≠ []) :
      parseDecimal digits = some (min (valueOf 10 digits) (2 ^ 64 - 1)) := by
    unfold parseDecimal
    rw [if_neg nonempty, parse_loop_saturates (by decide), if_pos numeral]
  obtain ⟨value, numeral, nonempty⟩ := print_u64_numeral n
  obtain ⟨blanks, digits, printed, size, paddedNumeral, paddedSome, paddedValue⟩ :=
    print_padded_numeral n room.1
  refine ⟨?_, print_u64_length fits, ?_, ?_⟩
  · rw [parse numeral nonempty, value, min_eq_left (by omega)]
  · rw [printed, drop_spaces paddedNumeral, parse paddedNumeral paddedSome, paddedValue,
      min_eq_left (by omega)]
  · rw [printed, List.length_append, List.length_replicate, size]

/-- A pid of seven digits in the five columns of `ps`. -/
theorem wide_pid_cut :
    parseDecimal (printU64 1234567) = some 1234567 ∧
      parseDecimal ((printU64Padded 1234567 5).dropWhile (· == space)) = some 34567 := by
  have read := @printed_numbers_read_back 1234567 5 (by decide) (by decide)
  exact ⟨read.1, read.2.2.1⟩

end Ferrugem.ShellNumbers
