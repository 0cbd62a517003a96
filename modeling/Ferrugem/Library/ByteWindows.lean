import Mathlib.Algebra.Group.Nat.Defs
import Mathlib.Data.List.Induction
import Mathlib.Tactic.SplitIfs

/-!
# Byte windows

Tables that a firmware leaves in memory: a run of bytes from a base address. A read
gives the bytes at an address if all of them lie inside the window, and nothing
otherwise, so a program that reads through a window and returns has read nothing
else. `Has` says that given bytes stand at an address; it splits at every append,
which is how a reader is followed over what a writer has put together.

Numbers are stored in bytes with the most significant byte first (`toBe`) or last
(`toLe`).
-/

set_option autoImplicit false

namespace ByteWindows

def fromBe (bytes : List UInt8) : Nat := bytes.foldl (fun value byte => value * 256 + byte.toNat) 0

def toBe : Nat → Nat → List UInt8
  | 0, _ => []
  | width + 1, value => toBe width (value / 256) ++ [UInt8.ofNat value]

def fromLe (bytes : List UInt8) : Nat := fromBe bytes.reverse

def toLe (width value : Nat) : List UInt8 := (toBe width value).reverse

@[simp] theorem length_to_be (width value : Nat) : (toBe width value).length = width := by
  induction width generalizing value with
  | zero => rfl
  | succ width ih => rw [toBe, List.length_append, ih, List.length_singleton]

@[simp] theorem length_to_le (width value : Nat) : (toLe width value).length = width := by
  rw [toLe, List.length_reverse, length_to_be]

theorem from_be_append_byte (bytes : List UInt8) (byte : UInt8) :
    fromBe (bytes ++ [byte]) = fromBe bytes * 256 + byte.toNat := by
  rw [fromBe, List.foldl_append]
  rfl

theorem from_be_to_be (width value : Nat) : fromBe (toBe width value) = value % 256 ^ width := by
  induction width generalizing value with
  | zero => rw [Nat.pow_zero, Nat.mod_one]; rfl
  | succ width ih =>
      have low : (UInt8.ofNat value).toNat = value % 256 := rfl
      rw [toBe, from_be_append_byte, ih, low, Nat.pow_succ', Nat.mod_mul]
      omega

theorem from_be_small {width value : Nat} (small : value < 256 ^ width) :
    fromBe (toBe width value) = value := by
  rw [from_be_to_be, Nat.mod_eq_of_lt small]

theorem from_le_to_le (width value : Nat) : fromLe (toLe width value) = value % 256 ^ width := by
  rw [fromLe, toLe, List.reverse_reverse, from_be_to_be]

theorem from_le_small {width value : Nat} (small : value < 256 ^ width) :
    fromLe (toLe width value) = value := by
  rw [from_le_to_le, Nat.mod_eq_of_lt small]

theorem to_be_from_be (bytes : List UInt8) : toBe bytes.length (fromBe bytes) = bytes := by
  induction bytes using List.reverseRecOn with
  | nil => rfl
  | append_singleton bytes byte ih =>
      have below := byte.toNat_lt
      have upper : (fromBe bytes * 256 + byte.toNat) / 256 = fromBe bytes := by omega
      have low : UInt8.ofNat (fromBe bytes * 256 + byte.toNat) = byte := by
        apply UInt8.toNat_inj.mp
        change (fromBe bytes * 256 + byte.toNat) % 256 = byte.toNat
        omega
      rw [from_be_append_byte, List.length_append, List.length_singleton, toBe, upper, ih, low]

theorem from_be_lt (bytes : List UInt8) : fromBe bytes < 256 ^ bytes.length := by
  induction bytes using List.reverseRecOn with
  | nil => exact Nat.one_pos
  | append_singleton bytes byte ih =>
      have below := byte.toNat_lt
      rw [from_be_append_byte, List.length_append, List.length_singleton, Nat.pow_succ]
      omega

theorem from_le_lt (bytes : List UInt8) : fromLe bytes < 256 ^ bytes.length := by
  have below := from_be_lt bytes.reverse
  rwa [List.length_reverse] at below

theorem to_le_from_le (bytes : List UInt8) : toLe bytes.length (fromLe bytes) = bytes := by
  have same := to_be_from_be bytes.reverse
  rw [List.length_reverse] at same
  rw [toLe, fromLe, same, List.reverse_reverse]

structure Window where
  base : Nat
  bytes : List UInt8

namespace Window

variable {window : Window} {address count : Nat} {first second : List UInt8}

def stop (window : Window) : Nat := window.base + window.bytes.length

def Inside (window : Window) (address count : Nat) : Prop :=
  window.base ≤ address ∧ address + count ≤ window.stop

instance decidableInside (window : Window) (address count : Nat) :
    Decidable (window.Inside address count) :=
  inferInstanceAs (Decidable (_ ∧ _))

def read (window : Window) (address count : Nat) : Option (List UInt8) :=
  if window.Inside address count then
    some ((window.bytes.drop (address - window.base)).take count)
  else none

def readBe (window : Window) (address count : Nat) : Option Nat :=
  (window.read address count).map fromBe

def readLe (window : Window) (address count : Nat) : Option Nat :=
  (window.read address count).map fromLe

/-- The bytes before the first zero, if there is one inside the window. -/
def readCstr (window : Window) (address : Nat) : Option (List UInt8) :=
  let rest := window.bytes.drop (address - window.base)
  if window.base ≤ address ∧ 0 ∈ rest then some (rest.takeWhile (· ≠ 0)) else none

def Has (window : Window) (address : Nat) (part : List UInt8) : Prop :=
  window.read address part.length = some part

theorem read_inside (inside : window.Inside address count) :
    window.read address count = some ((window.bytes.drop (address - window.base)).take count) :=
  if_pos inside

theorem has_iff {part : List UInt8} : window.Has address part ↔
    window.Inside address part.length ∧
      (window.bytes.drop (address - window.base)).take part.length = part := by
  unfold Has read
  split_ifs with inside
  · rw [Option.some_inj, and_iff_right inside]
  · exact iff_of_false nofun fun both => inside both.1

theorem Has.inside {part : List UInt8} (has : window.Has address part) :
    window.Inside address part.length := (has_iff.mp has).1

theorem has_append : window.Has address (first ++ second) ↔
    window.Has address first ∧ window.Has (address + first.length) second := by
  simp only [has_iff, Inside, List.length_append]
  constructor
  · rintro ⟨⟨low, high⟩, same⟩
    have start : address + first.length - window.base = address - window.base + first.length := by
      omega
    rw [List.take_add] at same
    obtain ⟨left, right⟩ := List.append_inj same (by
      unfold stop at high
      rw [List.length_take, List.length_drop]
      omega)
    rw [List.drop_drop, ← start] at right
    exact ⟨⟨⟨low, by omega⟩, left⟩, ⟨by omega, by omega⟩, right⟩
  · rintro ⟨⟨⟨low, _⟩, left⟩, ⟨_, high⟩, right⟩
    have start : address + first.length - window.base = address - window.base + first.length := by
      omega
    rw [List.take_add, left, List.drop_drop, ← start, right]
    exact ⟨⟨low, by omega⟩, rfl⟩

theorem has_self (window : Window) : window.Has window.base window.bytes := by
  rw [has_iff, Nat.sub_self, List.drop_zero, List.take_length]
  exact ⟨⟨Nat.le_refl _, Nat.le_refl _⟩, rfl⟩

theorem Has.readBe {part : List UInt8} (has : window.Has address part)
    (size : part.length = count) : window.readBe address count = some (fromBe part) := by
  subst size
  rw [Window.readBe, has]
  rfl

theorem Has.readLe {part : List UInt8} (has : window.Has address part)
    (size : part.length = count) : window.readLe address count = some (fromLe part) := by
  subst size
  rw [Window.readLe, has]
  rfl

theorem Has.read_part {part : List UInt8} (has : window.Has address part) (offset count : Nat)
    (inside : offset + count ≤ part.length) :
    window.readBe (address + offset) count = some (fromBe ((part.drop offset).take count)) := by
  have parts : part = part.take offset ++ ((part.drop offset).take count ++
      (part.drop offset).drop count) := by
    rw [List.take_append_drop, List.take_append_drop]
  rw [parts, has_append, has_append, List.length_take, Nat.min_eq_left (by omega)] at has
  exact has.2.1.readBe (by
    rw [List.length_take, List.length_drop]
    omega)

theorem Has.read_be_to_be {width value : Nat} (has : window.Has address (toBe width value))
    (small : value < 256 ^ width) : window.readBe address width = some value := by
  rw [has.readBe (length_to_be width value), from_be_small small]

theorem Has.read_le_to_le {width value : Nat} (has : window.Has address (toLe width value))
    (small : value < 256 ^ width) : window.readLe address width = some value := by
  rw [has.readLe (length_to_le width value), from_le_small small]

theorem Has.readCstr {name : List UInt8} (has : window.Has address (name ++ [0]))
    (text : 0 ∉ name) : window.readCstr address = some name := by
  obtain ⟨inside, same⟩ := has_iff.mp has
  have split := List.take_append_drop (name ++ [0]).length
    (window.bytes.drop (address - window.base))
  rw [same] at split
  rw [Window.readCstr, ← split]
  simp only [List.append_assoc, List.singleton_append]
  rw [if_pos ⟨inside.1, by simp⟩, List.takeWhile_append_of_pos (by
    intro byte member
    simpa using fun zero : byte = 0 => text (zero ▸ member)), List.takeWhile_cons_of_neg (by simp),
    List.append_nil]

end Window

end ByteWindows
