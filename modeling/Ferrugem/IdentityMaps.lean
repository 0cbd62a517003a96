import Ferrugem.KernelTablesBoot
import Ferrugem.PageMapping

/-!
# The kernel maps of aarch64 and RISC-V

`arch/aarch64/paging.rs` maps the memory of a board to itself by 2 MiB blocks, as
device memory where the board says so. `arch/riscv64/paging.rs` maps 4 GiB by
four leaves, which every process root shares. What the processors make of an
address is the walk of `RadixTables`, here over tables of these two formats.
-/

namespace Ferrugem.IdentityMaps

open Ferrugem.PagingModel Ferrugem.KernelTablesBoot Ferrugem.PageMapping
open Ferrugem.PageOwnership Ferrugem.HeapRegions Ferrugem.BitmapPages RadixTables

set_option autoImplicit false

inductive ArmBoard where
  | qemuVirt | raspberryPi3
  deriving DecidableEq

namespace ArmBoard

def peripheralBase : Nat := 0x3F000000

def mmioRanges : ArmBoard → List (Nat × Nat)
  | .qemuVirt => [(0x00000000, 0x40000000)]
  | .raspberryPi3 => [(peripheralBase, 0x01000000), (0x40000000, 0x00001000)]

def mappedEnd : ArmBoard → Nat
  | .qemuVirt => 0x100000000
  | .raspberryPi3 => 0x80000000

/-- The region of `parse_memory_map`. -/
def ramBase : ArmBoard → Nat
  | .qemuVirt => 0x40000000
  | .raspberryPi3 => 0x0

def ramSize : ArmBoard → Nat
  | .qemuVirt | .raspberryPi3 => 128 * 1024 * 1024

def numL1 (board : ArmBoard) : Nat := board.mappedEnd / 2 ^ 30

end ArmBoard

def attrDevice : Entry := 0
def attrNormal : Entry := 1

def blockAf : Entry := 1 <<< 10
def blockShInner : Entry := 0b11 <<< 8
def blockValid : Entry := 0b01
def tableValid : Entry := 0b11

def isDevice (board : ArmBoard) (addr : Nat) : Bool :=
  board.mmioRanges.any fun range => range.1 ≤ addr && addr < range.1 + range.2

def l2BlockEntry (board : ArmBoard) (addr : Nat) : Entry :=
  let attrIdx := if isDevice board addr then attrDevice else attrNormal
  BitVec.ofNat 64 addr ||| blockAf ||| blockShInner ||| (attrIdx <<< 2) ||| blockValid

/-- The statics `L1_TABLE` and `L2_TABLES`. -/
structure ArmTables (board : ArmBoard) where
  l1 : Nat
  l2 : Nat
  aligned : l1 % pageSize = 0 ∧ l2 % pageSize = 0
  apart : l1 + pageSize ≤ l2 ∨ l2 + board.numL1 * pageSize ≤ l1
  below : l2 + board.numL1 * pageSize ≤ 2 ^ 32

variable {Store : Type}

/-- The loops of `paging::init`. -/
def armInit (board : ArmBoard) (tables : ArmTables board) : Paging Store Unit :=
  Fallible.forRange board.numL1 fun l1 => do
    Fallible.forRange 512 fun l2i =>
      writeEntry (tables.l2 + l1 * pageSize) l2i (l2BlockEntry board (l1 <<< 30 ||| l2i <<< 21))
    writeEntry tables.l1 l1 (BitVec.ofNat 64 (tables.l2 + l1 * pageSize) ||| tableValid)

/-- The address field of a descriptor. Bits 48 to 51 are reserved. -/
def armAddressBits : Entry := 0xFFFFFFFFFF000

/-- Level 2 is the L1 table of the source, level 1 an L2 table. -/
def armDecode (level : Nat) (entry : Entry) : Decoded :=
  if entry.getLsbD 0 then
    if level = 0 then
      if entry.getLsbD 1 then
        .leaf (entry &&& armAddressBits).toNat (entry &&& ~~~armAddressBits)
      else .absent
    else if entry.getLsbD 1 then .table (entry &&& armAddressBits).toNat
    else .leaf (entry &&& armAddressBits).toNat (entry &&& ~~~armAddressBits)
  else .absent

theorem arm_address_bit {i : Nat} (inside : i < 64) :
    armAddressBits.getLsbD i = decide (12 ≤ i ∧ i < 52) := by
  revert i
  decide

theorem arm_fields {address : Nat} (aligned : address % 4096 = 0) (bounded : address < 2 ^ 52)
    {flags : Entry} (small : flags.toNat < 2 ^ 12) :
    (BitVec.ofNat 64 address ||| flags) &&& armAddressBits = BitVec.ofNat 64 address ∧
      (BitVec.ofNat 64 address ||| flags) &&& ~~~armAddressBits = flags := by
  have value : (BitVec.ofNat 64 address).toNat = address :=
    Nat.mod_eq_of_lt (lt_of_lt_of_le bounded (by decide))
  have low : ∀ i, i < 12 → (BitVec.ofNat 64 address).getLsbD i = false := fun i below =>
    low_bit_of_aligned (by rw [value]; exact aligned) below
  have high : ∀ i, 52 ≤ i → (BitVec.ofNat 64 address).getLsbD i = false := by
    intro i above
    rw [BitVec.getLsbD, value]
    exact Nat.testBit_lt_two_pow (lt_of_lt_of_le bounded (Nat.pow_le_pow_right (by decide) above))
  have flagsHigh : ∀ i, 12 ≤ i → flags.getLsbD i = false := fun i above =>
    high_bit_of_small small above
  constructor
  · apply BitVec.eq_of_getLsbD_eq
    intro i inside
    rw [BitVec.getLsbD_and, BitVec.getLsbD_or, arm_address_bit inside]
    by_cases below : i < 12
    · simp [low i below, below]
    · by_cases above : 52 ≤ i
      · simp [high i above, above]
      · simp [flagsHigh i (by omega), show 12 ≤ i ∧ i < 52 by omega]
  · apply BitVec.eq_of_getLsbD_eq
    intro i inside
    rw [BitVec.getLsbD_and, BitVec.getLsbD_or, BitVec.getLsbD_not, arm_address_bit inside,
      decide_eq_true inside, Bool.true_and]
    by_cases below : i < 12
    · rw [low i below, Bool.false_or, decide_eq_false (by omega), Bool.not_false, Bool.and_true]
    · rw [flagsHigh i (by omega), Bool.or_false]
      by_cases above : 52 ≤ i
      · rw [high i above, Bool.false_and]
      · rw [decide_eq_true (by omega), Bool.not_true, Bool.and_false]

def blockFlags (attrIdx : Entry) : Entry :=
  blockAf ||| blockShInner ||| (attrIdx <<< 2) ||| blockValid

theorem block_entry_eq (board : ArmBoard) (addr : Nat) :
    l2BlockEntry board addr =
      BitVec.ofNat 64 addr ||| blockFlags (if isDevice board addr then attrDevice else attrNormal) := by
  unfold l2BlockEntry blockFlags
  dsimp only
  rw [BitVec.or_assoc, BitVec.or_assoc, BitVec.or_assoc, BitVec.or_assoc, BitVec.or_assoc]

theorem block_flags_small (device : Bool) :
    (blockFlags (if device then attrDevice else attrNormal)).toNat < 2 ^ 12 := by
  cases device <;> decide

theorem arm_flag {address : Nat} (aligned : address % 4096 = 0) (bounded : address < 2 ^ 52)
    (flags : Entry) {i : Nat} (below : i < 12) :
    (BitVec.ofNat 64 address ||| flags).getLsbD i = flags.getLsbD i := by
  have value : (BitVec.ofNat 64 address).toNat = address :=
    Nat.mod_eq_of_lt (lt_of_lt_of_le bounded (by decide))
  rw [BitVec.getLsbD_or, low_bit_of_aligned (by rw [value]; exact aligned) below, Bool.false_or]

theorem block_decoded (board : ArmBoard) {addr : Nat} (aligned : addr % 4096 = 0)
    (bounded : addr < 2 ^ 52) :
    armDecode 1 (l2BlockEntry board addr) =
      .leaf addr (blockFlags (if isDevice board addr then attrDevice else attrNormal)) := by
  obtain ⟨address, flags⟩ := arm_fields aligned bounded (block_flags_small (isDevice board addr))
  have value : (BitVec.ofNat 64 addr).toNat = addr :=
    Nat.mod_eq_of_lt (lt_of_lt_of_le bounded (by decide))
  have valid : (blockFlags (if isDevice board addr then attrDevice else attrNormal)).getLsbD 0 =
      true := by
    cases isDevice board addr <;> decide
  have block : (blockFlags (if isDevice board addr then attrDevice else attrNormal)).getLsbD 1 =
      false := by
    cases isDevice board addr <;> decide
  rw [block_entry_eq, armDecode, arm_flag aligned bounded _ (by decide), valid, if_pos rfl,
    if_neg (by decide), arm_flag aligned bounded _ (by decide), block, if_neg (by decide), address,
    flags, value]

theorem table_decoded {level address : Nat} (aligned : address % 4096 = 0)
    (bounded : address < 2 ^ 52) :
    armDecode (level + 1) (BitVec.ofNat 64 address ||| tableValid) = .table address := by
  obtain ⟨field, -⟩ := arm_fields aligned bounded (show tableValid.toNat < 2 ^ 12 by decide)
  have value : (BitVec.ofNat 64 address).toNat = address :=
    Nat.mod_eq_of_lt (lt_of_lt_of_le bounded (by decide))
  have valid : tableValid.getLsbD 0 = true := by decide
  have table : tableValid.getLsbD 1 = true := by decide
  rw [armDecode, arm_flag aligned bounded _ (by decide), valid, if_pos rfl,
    if_neg (Nat.succ_ne_zero level), arm_flag aligned bounded _ (by decide), table, if_pos rfl,
    field, value]

theorem arm_address_aligned (entry : Entry) : (entry &&& armAddressBits).toNat % 4096 = 0 := by
  have apart : armAddressBits &&& 0xFFF = 0#64 := by decide
  have low : ((entry &&& armAddressBits) &&& 0xFFF).toNat =
      (entry &&& armAddressBits).toNat % 2 ^ 12 := by
    rw [BitVec.toNat_and]
    exact Nat.and_two_pow_sub_one_eq_mod _ 12
  change (entry &&& armAddressBits).toNat % 2 ^ 12 = 0
  rw [← low, BitVec.and_assoc, apart, BitVec.and_zero]
  rfl

def armFormat : TableFormat where
  decode := armDecode
  tableFlags := fun entry => entry &&& 0xF800000000000000#64
  link := fun address => BitVec.ofNat 64 address ||| tableValid
  absent := fun _ => rfl
  last := by
    intro entry address
    unfold armDecode
    split_ifs <;> simp_all
  aligned := by
    intro level entry address decoded
    unfold armDecode at decoded
    split_ifs at decoded
    cases decoded
    exact arm_address_aligned entry
  linked := fun level => table_decoded

def armTranslate (memory : WordMemory) (root va : Nat) : Option Translation :=
  walk armFormat memory (va / pageSize) 2 root

def armRounds (board : ArmBoard) (tables : ArmTables board) : Nat → WordMemory → WordMemory
  | 0, memory => memory
  | n + 1, memory =>
      (fillTable (tables.l2 + n * pageSize) 512
        (fun l2i => l2BlockEntry board (n <<< 30 ||| l2i <<< 21))
        (armRounds board tables n memory)).store (tables.l1 + n * 8)
          (BitVec.ofNat 64 (tables.l2 + n * pageSize) ||| tableValid)

theorem l2_aligned {board : ArmBoard} (tables : ArmTables board) (n : Nat) :
    (tables.l2 + n * pageSize) % pageSize = 0 := by
  have aligned := tables.aligned.2
  simp only [pageSize] at aligned ⊢
  omega

theorem arm_init_memory (board : ArmBoard) (tables : ArmTables board)
    (space : PhysicalSpace Store) :
    (armInit board tables space).2.memory = armRounds board tables board.numL1 space.memory := by
  have rounds : ∀ n, (Fallible.forRange n (fun l1 => do
      Fallible.forRange 512 fun l2i =>
        writeEntry (tables.l2 + l1 * pageSize) l2i (l2BlockEntry board (l1 <<< 30 ||| l2i <<< 21))
      writeEntry tables.l1 l1 (BitVec.ofNat 64 (tables.l2 + l1 * pageSize) ||| tableValid)) :
        Paging Store Unit) = changeMemory (armRounds board tables n) := by
    intro n
    induction n with
    | zero =>
        rw [Fallible.for_range_zero]
        rfl
    | succ n ih =>
        rw [Fallible.for_range_succ, ih, for_range_write_entries (l2_aligned tables n)]
        rfl
  rw [armInit, rounds]
  rfl

section

variable {board : ArmBoard} (tables : ArmTables board) (memory : WordMemory)

theorem entry_word_eq (table position : Nat) :
    entryAt memory table position = memory (table / 8 + position) := by
  have word : (table + position * 8) / 8 = table / 8 + position := by omega
  rw [entryAt, WordMemory.load, word]

theorem rounds_entries (n : Nat) (few : n ≤ board.numL1) (fits : board.numL1 ≤ 512) :
    (∀ g, g < 512 → entryAt (armRounds board tables n memory) tables.l1 g =
      if g < n then BitVec.ofNat 64 (tables.l2 + g * pageSize) ||| tableValid
      else entryAt memory tables.l1 g) ∧
      ∀ g i, g < n → i < 512 →
        entryAt (armRounds board tables n memory) (tables.l2 + g * pageSize) i =
          l2BlockEntry board (g <<< 30 ||| i <<< 21) := by
  have aligned := tables.aligned
  have apart := tables.apart
  induction n with
  | zero => exact ⟨fun g _ => (if_neg (Nat.not_lt_zero g)).symm, fun g _ none => nomatch none⟩
  | succ n ih =>
      obtain ⟨upper, lower⟩ := ih (by omega)
      have here : (tables.l1 + n * 8) / 8 = tables.l1 / 8 + n := by omega
      constructor
      · intro g inside
        have before := upper g inside
        rw [entry_word_eq] at before ⊢
        rw [armRounds, WordMemory.store, here]
        by_cases same : g = n
        · rw [same, Function.update_self, if_pos (Nat.lt_succ_self n)]
        · rw [Function.update_of_ne (by omega), fill_table_other _ (by
            simp only [pageSize] at aligned apart ⊢
            omega), before]
          by_cases less : g < n
          · rw [if_pos less, if_pos (by omega)]
          · rw [if_neg less, if_neg (by omega)]
      · intro g i less inside
        rw [entry_word_eq, armRounds, WordMemory.store, here,
          Function.update_of_ne (by
            simp only [pageSize] at aligned apart ⊢
            omega)]
        by_cases same : g = n
        · rw [same]
          exact fill_table_inside _ inside
        · rw [fill_table_other _ (by
            simp only [pageSize] at aligned ⊢
            omega)]
          exact (entry_word_eq _ _ _).symm.trans (lower g i (by omega) inside)

end

def armMapped (board : ArmBoard) (va : Nat) : Option Translation :=
  if va < board.mappedEnd then
    some ⟨va / pageSize,
      blockFlags (if isDevice board (va / 2 ^ 21 * 2 ^ 21) then attrDevice else attrNormal)⟩
  else none

/-- The static `L1_TABLE` before `init`. -/
def ZeroedL1 {board : ArmBoard} (tables : ArmTables board) (memory : WordMemory) : Prop :=
  ∀ g, g < 512 → entryAt memory tables.l1 g = 0#64

theorem arm_boot_map (board : ArmBoard) (tables : ArmTables board) (space : PhysicalSpace Store)
    (zeroed : ZeroedL1 tables space.memory) (va : Nat) (low : va < 2 ^ 39) :
    armTranslate (armInit board tables space).2.memory tables.l1 va = armMapped board va := by
  have few : board.numL1 ≤ 512 := by cases board <;> decide
  have whole : board.mappedEnd = board.numL1 * 2 ^ 30 := by cases board <;> rfl
  obtain ⟨upper, lower⟩ := rounds_entries tables space.memory board.numL1 (Nat.le_refl _) few
  rw [arm_init_memory, armTranslate, armMapped]
  have top : index (va / pageSize) 2 = va / 2 ^ 30 := by
    simp only [index, pageSize]
    omega
  have middle : index (va / pageSize) 1 = va / 2 ^ 21 % 512 := by
    simp only [index, pageSize]
    omega
  have entry := upper (va / 2 ^ 30) (by omega)
  by_cases mapped : va < board.mappedEnd
  · have inside : va / 2 ^ 30 < board.numL1 := by omega
    rw [if_pos inside] at entry
    have below := tables.below
    have l2Aligned := l2_aligned tables (va / 2 ^ 30)
    have link : armFormat.decode 2 (entryAt (armRounds board tables board.numL1 space.memory)
        tables.l1 (index (va / pageSize) 2)) =
          .table (tables.l2 + va / 2 ^ 30 * pageSize) := by
      rw [top, entry]
      apply table_decoded l2Aligned
      simp only [pageSize] at below ⊢
      omega
    have offset : (va / 2 ^ 21 % 512) <<< 21 < 2 ^ 30 := by
      rw [Nat.shiftLeft_eq]
      omega
    have block : (va / 2 ^ 30) <<< 30 ||| (va / 2 ^ 21 % 512) <<< 21 = va / 2 ^ 21 * 2 ^ 21 := by
      rw [← Nat.shiftLeft_add_eq_or_of_lt offset, Nat.shiftLeft_eq, Nat.shiftLeft_eq]
      omega
    have leaf : armFormat.decode 1 (entryAt (armRounds board tables board.numL1 space.memory)
        (tables.l2 + va / 2 ^ 30 * pageSize) (index (va / pageSize) 1)) =
          .leaf (va / 2 ^ 21 * 2 ^ 21)
            (blockFlags (if isDevice board (va / 2 ^ 21 * 2 ^ 21) then attrDevice
              else attrNormal)) := by
      rw [middle, lower _ _ inside (Nat.mod_lt _ (by decide)), block]
      exact block_decoded board (by omega) (by omega)
    rw [if_pos mapped, walk_table link, walk_leaf leaf]
    have frame : leafFrame (va / 2 ^ 21 * 2 ^ 21) (va / pageSize) 1 = va / pageSize := by
      simp only [leafFrame, pageSize]
      omega
    rw [frame]
  · have outside : ¬va / 2 ^ 30 < board.numL1 := by omega
    rw [if_neg outside, zeroed _ (by omega)] at entry
    rw [if_neg mapped]
    apply walk_absent
    rw [top, entry]
    rfl

def InMmio (board : ArmBoard) (va : Nat) : Prop :=
  ∃ range ∈ board.mmioRanges, range.1 ≤ va ∧ va < range.1 + range.2

def InRam (board : ArmBoard) (va : Nat) : Prop :=
  board.ramBase ≤ va ∧ va < board.ramBase + board.ramSize

theorem is_device_iff {board : ArmBoard} {addr : Nat} :
    isDevice board addr = true ↔ InMmio board addr := by
  unfold isDevice InMmio
  simp only [List.any_eq_true, Bool.and_eq_true, decide_eq_true_iff]

theorem mmio_is_device {board : ArmBoard} {va : Nat} (mmio : InMmio board va) :
    va < board.mappedEnd ∧ isDevice board (va / 2 ^ 21 * 2 ^ 21) = true := by
  rw [is_device_iff]
  unfold InMmio at mmio ⊢
  cases board with
  | qemuVirt =>
      simp only [ArmBoard.mmioRanges, ArmBoard.mappedEnd, List.mem_singleton, exists_eq_left]
        at mmio ⊢
      omega
  | raspberryPi3 =>
      simp only [ArmBoard.mmioRanges, ArmBoard.mappedEnd, ArmBoard.peripheralBase, List.mem_cons,
        List.not_mem_nil, or_false, exists_eq_or_imp, exists_eq_left] at mmio ⊢
      omega

theorem ram_is_normal {board : ArmBoard} {va : Nat} (ram : InRam board va) :
    va < board.mappedEnd ∧ isDevice board (va / 2 ^ 21 * 2 ^ 21) = false := by
  rw [← Bool.not_eq_true, is_device_iff]
  unfold InMmio
  unfold InRam at ram
  cases board with
  | qemuVirt =>
      simp only [ArmBoard.ramBase, ArmBoard.ramSize] at ram
      simp only [ArmBoard.mmioRanges, ArmBoard.mappedEnd, List.mem_singleton, exists_eq_left]
      omega
  | raspberryPi3 =>
      simp only [ArmBoard.ramBase, ArmBoard.ramSize] at ram
      simp only [ArmBoard.mmioRanges, ArmBoard.mappedEnd, ArmBoard.peripheralBase, List.mem_cons,
        List.not_mem_nil, or_false, exists_eq_or_imp, exists_eq_left]
      omega

structure IdentityMapped (board : ArmBoard) (va : Nat) (translation : Option Translation) :
    Prop where
  mapped : translation.isSome ↔ va < board.mappedEnd
  same : ∀ found, translation = some found → found.frame = va / pageSize ∧
    (found.flags = blockFlags attrDevice ∨ found.flags = blockFlags attrNormal)
  device : InMmio board va → translation = some ⟨va / pageSize, blockFlags attrDevice⟩
  normal : InRam board va → translation = some ⟨va / pageSize, blockFlags attrNormal⟩

/-- After `init` every address of the board is mapped to itself, the registers of
devices as device memory and the usable memory as normal memory, and nothing else
is mapped. -/
theorem arm_identity_map (board : ArmBoard) (tables : ArmTables board)
    (space : PhysicalSpace Store) (zeroed : ZeroedL1 tables space.memory) (va : Nat)
    (low : va < 2 ^ 39) :
    IdentityMapped board va
      (armTranslate (armInit board tables space).2.memory tables.l1 va) := by
  rw [arm_boot_map board tables space zeroed va low, armMapped]
  constructor
  · by_cases mapped : va < board.mappedEnd
    · rw [if_pos mapped]
      exact iff_of_true rfl mapped
    · rw [if_neg mapped]
      exact iff_of_false nofun mapped
  · intro found some
    split_ifs at some with mapped device
    · cases some
      exact ⟨rfl, .inl rfl⟩
    · cases some
      exact ⟨rfl, .inr rfl⟩
  · intro mmio
    obtain ⟨mapped, device⟩ := mmio_is_device mmio
    rw [if_pos mapped, device, if_pos rfl]
  · intro ram
    obtain ⟨mapped, normal⟩ := ram_is_normal ram
    rw [if_pos mapped, normal, if_neg (by decide)]

def lowTables : ArmTables .raspberryPi3 where
  l1 := 0x100000
  l2 := 0x101000
  aligned := by decide
  apart := by decide
  below := by decide

/-- The UART of the Raspberry Pi 3. -/
theorem uart_identity_mapped :
    IdentityMapped .raspberryPi3 0x3F201000
      (armTranslate (armInit .raspberryPi3 lowTables ⟨fun _ => 0#64, ()⟩).2.memory 0x100000
        0x3F201000) :=
  arm_identity_map .raspberryPi3 lowTables ⟨fun _ => 0#64, ()⟩ (fun _ _ => rfl) 0x3F201000
    (by decide)

section

variable {kernelRoot : Nat}

def gibFlags : Entry :=
  Sv39Model.pageV ||| Sv39Model.pageR ||| Sv39Model.pageW ||| Sv39Model.pageX ||| Sv39Model.pageA |||
    Sv39Model.pageD

def sv39Mapped (va : Nat) : Option Translation :=
  if va < 4 * 2 ^ 30 then some ⟨va / pageSize, gibFlags⟩ else none

def sv39Translate (memory : WordMemory) (root va : Nat) : Option Translation :=
  walk sv39Format memory (va / pageSize) 2 root

def HoldsKernelMap (memory : WordMemory) (root : Nat) : Prop :=
  ∀ i, i < 512 → entryAt memory root i =
    if i < 4 then BitVec.ofNat 64 i <<< 18 <<< 10 ||| gibFlags else 0#64

theorem kernel_map_translates {memory : WordMemory} {root : Nat}
    (holds : HoldsKernelMap memory root) {va : Nat} (low : va < 2 ^ 39) :
    sv39Translate memory root va = sv39Mapped va := by
  have top : index (va / pageSize) 2 = va / 2 ^ 30 := by
    simp only [index, pageSize]
    omega
  have entry := holds (va / 2 ^ 30) (by omega)
  rw [sv39Translate, sv39Mapped]
  by_cases mapped : va < 4 * 2 ^ 30
  · rw [if_pos (by omega)] at entry
    rw [if_pos mapped]
    have leaf : sv39Format.decode 2 (entryAt memory root (index (va / pageSize) 2)) =
        .leaf (va / 2 ^ 30 * 2 ^ 30) gibFlags := by
      rw [top, entry]
      have few : va / 2 ^ 30 < 4 := by omega
      generalize va / 2 ^ 30 = gib at few
      revert gib
      decide
    rw [walk_leaf leaf]
    have frame : leafFrame (va / 2 ^ 30 * 2 ^ 30) (va / pageSize) 2 = va / pageSize := by
      simp only [leafFrame, pageSize]
      omega
    rw [frame]
  · rw [if_neg (by omega)] at entry
    rw [if_neg mapped]
    apply walk_absent
    rw [top, entry]
    rfl

theorem sv39_init_holds (aligned : kernelRoot % pageSize = 0) (space : PhysicalSpace Store)
    (zeroed : ∀ i, i < 512 → entryAt space.memory kernelRoot i = 0#64) :
    HoldsKernelMap (Sv39Model.init kernelRoot space).2.memory kernelRoot := by
  intro i inside
  have filled : (Sv39Model.init kernelRoot space).2.memory =
      fillTable kernelRoot 4 (fun i => BitVec.ofNat 64 i <<< 18 <<< 10 ||| gibFlags)
        space.memory := by
    rw [Sv39Model.init]
    exact congrArg (fun prog : Paging Store Unit => (prog space).2.memory)
      (for_range_write_entries aligned 4 fun i => BitVec.ofNat 64 i <<< 18 <<< 10 ||| gibFlags)
  rw [filled, entry_word_eq]
  by_cases few : i < 4
  · rw [if_pos few]
    exact fill_table_inside _ few
  · rw [if_neg few, fill_table_other _ (by omega)]
    exact (entry_word_eq _ _ _).symm.trans (zeroed i inside)

/-- The copies in `create_empty_process_page_table`. -/
theorem share_kernel_entries {source root : Nat} (sourceAligned : source % 4096 = 0)
    (rootAligned : root % 4096 = 0) (apart : source ≠ root) (space : PhysicalSpace Store) (n : Nat)
    (few : n ≤ 512) :
    ∃ memory,
      (Fallible.forRange n fun i => do
        let entry ← readEntry source i
        writeEntry root i entry : Paging Store Unit) space =
          (some (), { space with memory := memory }) ∧
      (∀ i, i < 512 → entryAt memory source i = entryAt space.memory source i) ∧
      ∀ i, i < 512 → entryAt memory root i =
        if i < n then entryAt space.memory source i else entryAt space.memory root i := by
  induction n with
  | zero =>
      rw [Fallible.for_range_zero]
      exact ⟨space.memory, rfl, fun _ _ => rfl, fun i _ => (if_neg (Nat.not_lt_zero i)).symm⟩
  | succ n ih =>
      obtain ⟨memory, ran, same, copied⟩ := ih (by omega)
      refine ⟨memory.store (root + n * 8) (entryAt memory source n), ?_, ?_, ?_⟩
      · rw [Fallible.for_range_succ, Fallible.bind_some ran]
        rfl
      · intro i inside
        rw [entry_at_store_other rootAligned sourceAligned (by omega) inside (.inl apart)]
        exact same i inside
      · intro i inside
        by_cases last : i = n
        · rw [last, entry_at_store_same, same n (by omega), if_pos (Nat.lt_succ_self n)]
        · rw [entry_at_store_other rootAligned rootAligned (by omega) inside (.inr last),
            copied i inside]
          by_cases less : i < n
          · rw [if_pos less, if_pos (by omega)]
          · rw [if_neg less, if_neg (by omega)]

theorem process_root_holds (allocator : Sv39Model.FrameAllocator Store)
    (aligned : kernelRoot % pageSize = 0) {space after : PhysicalSpace Store} {root : Nat}
    (holds : HoldsKernelMap space.memory kernelRoot)
    (used : allocator.InUse space.store (kernelRoot / pageSize))
    (created : Sv39Model.createEmptyProcessPageTable allocator kernelRoot space =
      (some root, after)) : HoldsKernelMap after.memory root := by
  cases allocated : allocator.alloc space.store 1 with
  | none =>
      have failed : Sv39Model.allocZeroedPage allocator space = (none, space) := by
        simp only [Sv39Model.allocZeroedPage, Sv39Model.allocPages, bind, allocated]
      rw [Sv39Model.createEmptyProcessPageTable, Fallible.bind_none failed] at created
      cases created
  | some pair =>
      obtain ⟨address, later⟩ := pair
      have rootAligned := allocator.aligned allocated
      have fresh := allocator.unused allocated 0 Nat.one_pos
      have apart : kernelRoot ≠ address := by
        intro same
        rw [same] at used
        exact fresh used
      have returned : Sv39Model.allocZeroedPage allocator space =
          (some address, { space with
            memory := space.memory.zeroBlock address 4096, store := later }) := by
        simp only [Sv39Model.allocZeroedPage, Sv39Model.allocPages, bind, allocated]
        rfl
      obtain ⟨memory, ran, -, copied⟩ := share_kernel_entries aligned rootAligned apart
        { space with memory := space.memory.zeroBlock address 4096, store := later } 4 (by decide)
      rw [Sv39Model.createEmptyProcessPageTable, Fallible.bind_some returned,
        Sv39Model.shareKernel, Fallible.bind_some ran] at created
      cases created
      intro i inside
      rw [copied i inside]
      by_cases few : i < 4
      · rw [if_pos few, if_pos few]
        rw [entry_at_zero_other rootAligned aligned apart inside, holds i inside, if_pos few]
      · rw [if_neg few, if_neg few]
        exact entry_at_zero_same rootAligned inside

/-- After `init` the kernel's root maps the first 4 GiB to themselves for the
supervisor and nothing else, and so does every root of a new address space. -/
theorem sv39_identity_maps (allocator : Sv39Model.FrameAllocator Store)
    (aligned : kernelRoot % pageSize = 0) (space : PhysicalSpace Store)
    (zeroed : ∀ i, i < 512 → entryAt space.memory kernelRoot i = 0#64)
    (used : allocator.InUse space.store (kernelRoot / pageSize)) (va : Nat) (low : va < 2 ^ 39) :
    sv39Translate (Sv39Model.init kernelRoot space).2.memory kernelRoot va = sv39Mapped va ∧
      ∀ root after, Sv39Model.createEmptyProcessPageTable allocator kernelRoot
          (Sv39Model.init kernelRoot space).2 = (some root, after) →
        sv39Translate after.memory root va = sv39Mapped va := by
  have holds := sv39_init_holds aligned space zeroed
  have store : (Sv39Model.init kernelRoot space).2.store = space.store := by
    rw [Sv39Model.init]
    exact congrArg (fun prog : Paging Store Unit => (prog space).2.store)
      (for_range_write_entries aligned 4 fun i => BitVec.ofNat 64 i <<< 18 <<< 10 ||| gibFlags)
  refine ⟨kernel_map_translates holds low, ?_⟩
  intro root after created
  exact kernel_map_translates
    (process_root_holds allocator aligned holds (by rw [store]; exact used) created) low

end

/-- The address the kernel is linked at. -/
theorem kernel_identity_mapped :
    let allocator := frames (PageSupply.pageAllocator smallImage)
    let booted := (Sv39Model.init 0x100000 ⟨fun _ => 0#64, smallSupply⟩).2
    sv39Translate booted.memory 0x100000 0x80200000 = sv39Mapped 0x80200000 ∧
      ∀ root after, Sv39Model.createEmptyProcessPageTable allocator 0x100000 booted =
          (some root, after) →
        sv39Translate after.memory root 0x80200000 = sv39Mapped 0x80200000 :=
  sv39_identity_maps (frames (PageSupply.pageAllocator smallImage)) (by decide)
    ⟨fun _ => 0#64, smallSupply⟩ (fun _ _ => rfl) (.inr (by decide)) 0x80200000 (by decide)

end Ferrugem.IdentityMaps
