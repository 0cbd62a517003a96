import Mathlib.Logic.Function.Basic

/-!
# Memory of 64-bit words

Byte addresses over a memory of 64-bit words, for programs whose word accesses
are aligned. A byte write replaces one byte of its word, the lowest address in
the lowest bits. `ChangesOnly` says where an operation writes; it is all that an
invariant about other words needs to know, and `ChangesBytes` says the same of
bytes. `Pointwise` says that an operation carries nothing from one word to
another.
-/

set_option autoImplicit false

abbrev WordMemory := Nat → BitVec 64

namespace WordMemory

def load (memory : WordMemory) (address : Nat) : BitVec 64 := memory (address / 8)

def store (memory : WordMemory) (address : Nat) (value : BitVec 64) : WordMemory :=
  Function.update memory (address / 8) value

/-- The word with its byte number `position` replaced. -/
def insertByte (word : BitVec 64) (position : Nat) (byte : BitVec 8) : BitVec 64 :=
  (word &&& ~~~(0xFF#64 <<< (8 * position))) ||| (byte.setWidth 64 <<< (8 * position))

def storeByte (memory : WordMemory) (address : Nat) (byte : BitVec 8) : WordMemory :=
  Function.update memory (address / 8) (insertByte (memory (address / 8)) (address % 8) byte)

def storeBytes : WordMemory → Nat → List (BitVec 8) → WordMemory
  | memory, _, [] => memory
  | memory, address, byte :: rest => storeBytes (storeByte memory address byte) (address + 1) rest

def loadByte (memory : WordMemory) (address : Nat) : BitVec 8 :=
  (memory (address / 8) >>> (8 * (address % 8))).setWidth 8

/-- The aligned block of `size` bytes at `address`. -/
def inBlock (address size word : Nat) : Prop := address / 8 ≤ word ∧ word < (address + size) / 8

instance decidableInBlock (address size word : Nat) : Decidable (inBlock address size word) :=
  inferInstanceAs (Decidable (_ ∧ _))

def zeroBlock (memory : WordMemory) (address size : Nat) : WordMemory := fun word =>
  if inBlock address size word then 0#64 else memory word

def copyBlock (memory : WordMemory) (source target size : Nat) : WordMemory := fun word =>
  if inBlock target size word then memory (source / 8 + (word - target / 8)) else memory word

def ChangesOnly (Allowed : Nat → Prop) (before after : WordMemory) : Prop :=
  ∀ word, ¬Allowed word → after word = before word

theorem store_changes (memory : WordMemory) (address : Nat) (value : BitVec 64) :
    ChangesOnly (fun word => word = address / 8) memory (store memory address value) :=
  fun _ elsewhere => Function.update_of_ne elsewhere _ _

theorem zero_block_changes (memory : WordMemory) (address size : Nat) :
    ChangesOnly (inBlock address size) memory (zeroBlock memory address size) :=
  fun _ elsewhere => if_neg elsewhere

theorem copy_block_changes (memory : WordMemory) (source target size : Nat) :
    ChangesOnly (inBlock target size) memory (copyBlock memory source target size) :=
  fun _ elsewhere => if_neg elsewhere

theorem store_bytes_changes (memory : WordMemory) (address : Nat) (bytes : List (BitVec 8)) :
    ChangesOnly (fun word => address / 8 ≤ word ∧ word * 8 < address + bytes.length) memory
      (storeBytes memory address bytes) := by
  induction bytes generalizing memory address with
  | nil => exact fun _ _ => rfl
  | cons byte rest ih =>
      intro word elsewhere
      simp only [List.length_cons] at elsewhere
      have later := ih (storeByte memory address byte) (address + 1) word (by omega)
      have here : word ≠ address / 8 := by omega
      rw [storeBytes, later]
      exact Function.update_of_ne here _ _

def Pointwise (change : WordMemory → WordMemory) : Prop :=
  ∀ first second word, second word = first word → change second word = change first word

theorem store_pointwise (address : Nat) (value : BitVec 64) :
    Pointwise fun memory => memory.store address value := by
  intro first second word same
  dsimp only [store]
  by_cases here : word = address / 8
  · rw [here, Function.update_self, Function.update_self]
  · rw [Function.update_of_ne here, Function.update_of_ne here, same]

theorem zero_block_pointwise (address size : Nat) :
    Pointwise fun memory => memory.zeroBlock address size := by
  intro first second word same
  dsimp only [zeroBlock]
  rw [same]

theorem store_byte_pointwise (address : Nat) (byte : BitVec 8) :
    Pointwise fun memory => memory.storeByte address byte := by
  intro first second word same
  dsimp only [storeByte]
  by_cases here : word = address / 8
  · subst here
    rw [Function.update_self, Function.update_self, same]
  · rw [Function.update_of_ne here, Function.update_of_ne here, same]

theorem store_bytes_pointwise (address : Nat) (bytes : List (BitVec 8)) :
    Pointwise fun memory => memory.storeBytes address bytes := by
  induction bytes generalizing address with
  | nil => exact fun _ _ _ same => same
  | cons byte rest ih =>
      intro first second word same
      exact ih (address + 1) _ _ word (store_byte_pointwise address byte first second word same)

theorem byte_mask_bit (bit : Nat) : (0xFF#64).getLsbD bit = decide (bit < 8) := by
  change (BitVec.ofNat 64 (2 ^ 8 - 1)).getLsbD bit = decide (bit < 8)
  rw [BitVec.getLsbD_ofNat, Nat.testBit_two_pow_sub_one]
  by_cases low : bit < 8
  · simp [low, show bit < 64 by omega]
  · simp [low]

theorem insert_byte_bit (word : BitVec 64) (byte : BitVec 8) {position bit : Nat}
    (inside : bit < 64) :
    (insertByte word position byte).getLsbD bit =
      if 8 * position ≤ bit ∧ bit < 8 * position + 8 then byte.getLsbD (bit - 8 * position)
      else word.getLsbD bit := by
  unfold insertByte
  rw [BitVec.getLsbD_or, BitVec.getLsbD_and, BitVec.getLsbD_not, BitVec.getLsbD_shiftLeft,
    BitVec.getLsbD_shiftLeft, BitVec.getLsbD_setWidth, byte_mask_bit]
  by_cases before : bit < 8 * position
  · simp [before, inside, show ¬8 * position ≤ bit by omega]
  · by_cases here : bit - 8 * position < 8
    · simp [before, here, inside, show 8 * position ≤ bit ∧ bit < 8 * position + 8 by omega,
        show bit - 8 * position < 64 by omega]
    · simp [before, here, inside, show ¬(8 * position ≤ bit ∧ bit < 8 * position + 8) by omega,
        BitVec.getLsbD_of_ge byte (bit - 8 * position) (by omega)]

theorem load_byte_bit (memory : WordMemory) (address : Nat) {bit : Nat} (inside : bit < 8) :
    (loadByte memory address).getLsbD bit =
      (memory (address / 8)).getLsbD (8 * (address % 8) + bit) := by
  unfold loadByte
  rw [BitVec.getLsbD_setWidth, BitVec.getLsbD_ushiftRight]
  simp [inside]

theorem load_byte_store_byte (memory : WordMemory) (address other : Nat) (byte : BitVec 8) :
    loadByte (storeByte memory address byte) other =
      if other = address then byte else loadByte memory other := by
  apply BitVec.eq_of_getLsbD_eq
  intro bit inside
  rw [load_byte_bit _ _ inside]
  unfold storeByte
  by_cases sameWord : other / 8 = address / 8
  · rw [sameWord, Function.update_self, insert_byte_bit _ _ (by omega)]
    by_cases same : other = address
    · subst same
      rw [if_pos (by omega), if_pos rfl]
      congr 1
      omega
    · rw [if_neg (by omega), if_neg same, load_byte_bit _ _ inside, sameWord]
  · have different : other ≠ address := fun same => sameWord (congrArg (· / 8) same)
    rw [Function.update_of_ne sameWord, if_neg different, load_byte_bit _ _ inside]

theorem load_byte_store_bytes (memory : WordMemory) (address other : Nat)
    (bytes : List (BitVec 8)) :
    loadByte (storeBytes memory address bytes) other =
      if address ≤ other ∧ other < address + bytes.length then bytes.getD (other - address) 0
      else loadByte memory other := by
  induction bytes generalizing memory address with
  | nil =>
      rw [if_neg (by simp)]
      rfl
  | cons byte rest ih =>
      rw [storeBytes, ih, load_byte_store_byte, List.length_cons]
      by_cases here : other = address
      · subst here
        rw [if_neg (by omega), if_pos rfl, if_pos (by omega), Nat.sub_self]
        rfl
      · by_cases later : address + 1 ≤ other ∧ other < address + 1 + rest.length
        · have next : other - address = other - (address + 1) + 1 := by omega
          rw [if_pos later, if_pos (by omega), next, List.getD_cons_succ]
        · rw [if_neg later, if_neg here, if_neg (by omega)]

theorem load_byte_congr {first second : WordMemory} {address : Nat}
    (same : second (address / 8) = first (address / 8)) :
    loadByte second address = loadByte first address := by
  unfold loadByte
  rw [same]

theorem load_byte_store_other (memory : WordMemory) {address other : Nat} (value : BitVec 64)
    (apart : other / 8 ≠ address / 8) :
    loadByte (store memory address value) other = loadByte memory other :=
  load_byte_congr (Function.update_of_ne apart _ _)

theorem load_eq_of_bytes {first second : WordMemory} {address : Nat} (aligned : address % 8 = 0)
    (same : ∀ i, i < 8 → loadByte second (address + i) = loadByte first (address + i)) :
    load second address = load first address := by
  apply BitVec.eq_of_getLsbD_eq
  intro bit inside
  have byte := congrArg (fun byte : BitVec 8 => byte.getLsbD (bit % 8)) (same (bit / 8) (by omega))
  rw [load_byte_bit _ _ (Nat.mod_lt _ (by decide)), load_byte_bit _ _ (Nat.mod_lt _ (by decide)),
    show (address + bit / 8) / 8 = address / 8 by omega,
    show 8 * ((address + bit / 8) % 8) + bit % 8 = bit by omega] at byte
  exact byte

def ChangesBytes (Allowed : Nat → Prop) (before after : WordMemory) : Prop :=
  ∀ address, ¬Allowed address → after.loadByte address = before.loadByte address

section

variable {Allowed Others : Nat → Prop} {before middle after : WordMemory}

theorem ChangesBytes.mono (changes : ChangesBytes Allowed before after)
    (wider : ∀ address, Allowed address → Others address) : ChangesBytes Others before after :=
  fun address outside => changes address fun allowed => outside (wider address allowed)

theorem ChangesBytes.trans (first : ChangesBytes Allowed before middle)
    (second : ChangesBytes Others middle after) :
    ChangesBytes (fun address => Allowed address ∨ Others address) before after := by
  intro address outside
  rw [not_or] at outside
  exact (second address outside.2).trans (first address outside.1)

theorem ChangesBytes.load (changes : ChangesBytes Allowed before after) {address : Nat}
    (aligned : address % 8 = 0) (outside : ∀ i, i < 8 → ¬Allowed (address + i)) :
    after.load address = before.load address :=
  load_eq_of_bytes aligned fun i below => changes (address + i) (outside i below)

theorem store_changes_bytes (memory : WordMemory) {address : Nat} (aligned : address % 8 = 0)
    (value : BitVec 64) :
    ChangesBytes (fun other => address ≤ other ∧ other < address + 8) memory
      (memory.store address value) := by
  intro other outside
  exact load_byte_store_other memory value (by omega)

theorem store_bytes_changes_bytes (memory : WordMemory) (address : Nat) (bytes : List (BitVec 8)) :
    ChangesBytes (fun other => address ≤ other ∧ other < address + bytes.length) memory
      (memory.storeBytes address bytes) := by
  intro other outside
  rw [load_byte_store_bytes, if_neg outside]

end

theorem load_byte_zero_block (memory : WordMemory) {address size other : Nat}
    (aligned : address % 8 = 0) (whole : size % 8 = 0) (inside : address ≤ other)
    (below : other < address + size) : loadByte (zeroBlock memory address size) other = 0 := by
  have block : inBlock address size (other / 8) := by
    unfold inBlock
    omega
  unfold loadByte zeroBlock
  rw [if_pos block]
  simp

end WordMemory
