import Mathlib.Data.List.Basic

/-!
# ASCII text as UTF-8

A byte below 128 is the whole encoding of its character, so any bytes below 128
are valid UTF-8.
-/

set_option autoImplicit false

namespace AsciiText

theorem encode_ascii {b : UInt8} (small : b.toNat < 128) :
    String.utf8EncodeChar (Char.ofNat b.toNat) = [b] := by
  have valid : b.toNat.isValidChar := .inl (by omega)
  have value : (Char.ofNat b.toNat).val = b.toUInt32 := by
    rw [Char.ofNat, dif_pos valid]
    rfl
  have low : b.toUInt32 ≤ 0x7F := by
    rw [UInt32.le_iff_toNat_le]
    simp
    omega
  have size : (Char.ofNat b.toNat).utf8Size = 1 := by
    rw [Char.utf8Size, value]
    exact if_pos low
  rw [String.utf8EncodeChar_eq_singleton size, value]
  simp

theorem encode_all {bytes : List UInt8} (small : ∀ b ∈ bytes, b.toNat < 128) :
    (bytes.map fun b => Char.ofNat b.toNat).flatMap String.utf8EncodeChar = bytes := by
  induction bytes with
  | nil => rfl
  | cons b rest ih =>
      rw [List.map_cons, List.flatMap_cons, encode_ascii (small b List.mem_cons_self),
        ih fun c member => small c (List.mem_cons_of_mem _ member)]
      rfl

theorem valid_utf8 {bytes : List UInt8} (small : ∀ b ∈ bytes, b.toNat < 128) :
    (ByteArray.mk bytes.toArray).validateUTF8 = true := by
  rw [ByteArray.validateUTF8_eq_true_iff]
  refine .intro (bytes.map fun b => Char.ofNat b.toNat) ?_
  rw [List.utf8Encode, encode_all small]
  apply ByteArray.ext
  simp

end AsciiText
