import Ferrugem.Library.FramePrograms
import Ferrugem.HeapRegions
import Ferrugem.Sv39Model

/-!
# `map_user_page` maps one page

Both architectures' `map_user_page` is the program `mapPage` of the library on
their own entry format: four levels with the flags below the address on x86_64,
three levels with the page number shifted on RISC-V. The walk here is the one
the tables describe; it reads entries and does not check permissions.
-/

namespace Ferrugem.PageMapping

open Ferrugem.PagingModel Ferrugem.PageOwnership Ferrugem.Sv39Model Ferrugem.BitmapPages
open Ferrugem.HeapRegions RadixTables

set_option autoImplicit false

variable {Store : Type}

/-- On x86_64 the frames of the kernel image count as used. -/
def frames {image : KernelImage} (allocator : PageAllocator image Store) :
    FrameAllocator Store where
  alloc := allocator.alloc
  InUse := fun store frame => allocator.InUse store frame ∨ image.Has frame
  aligned := allocator.aligned
  representable := allocator.representable
  unused := fun outcome i below => not_or.mpr (allocator.unused outcome i below)
  taken := fun outcome i below => .inl (allocator.taken outcome i below)
  kept := fun outcome frame inUse => inUse.imp_left (allocator.kept outcome frame)

def takeFrame (allocator : FrameAllocator Store) (space : PhysicalSpace Store) :
    Option (Nat × PhysicalSpace Store) :=
  (allocator.alloc space.store 1).map fun pair => (pair.1, { space with store := pair.2 })

theorem take_frame_eq {allocator : FrameAllocator Store} {space later : PhysicalSpace Store}
    {address : Nat} (outcome : takeFrame allocator space = some (address, later)) :
    allocator.alloc space.store 1 = some (address, later.store) ∧
      later.memory = space.memory := by
  unfold takeFrame at outcome
  rw [Option.map_eq_some_iff] at outcome
  obtain ⟨⟨taken, store⟩, allocated, same⟩ := outcome
  cases same
  exact ⟨allocated, rfl⟩

def frameMachine (allocator : FrameAllocator Store) : FrameMachine (PhysicalSpace Store) where
  memory := PhysicalSpace.memory
  change := fun change space => { space with memory := change space.memory }
  alloc := takeFrame allocator
  InUse := fun space => allocator.InUse space.store
  memory_change := fun _ _ => rfl
  in_use_change := fun _ _ => rfl
  memory_alloc := fun outcome => (take_frame_eq outcome).2
  aligned := fun outcome => allocator.aligned (take_frame_eq outcome).1
  bounded := by
    intro state address later outcome
    have fits := allocator.representable (take_frame_eq outcome).1
    simp only [pageSize] at fits
    omega
  unused := fun outcome => allocator.unused (take_frame_eq outcome).1 0 Nat.one_pos
  taken := fun outcome => allocator.taken (take_frame_eq outcome).1 0 Nat.one_pos
  kept := fun outcome => allocator.kept (take_frame_eq outcome).1

theorem alloc_pages_eq (allocator : FrameAllocator Store) :
    Sv39Model.allocPages allocator 1 = allocFrame (frameMachine allocator) := by
  funext space
  simp only [Sv39Model.allocPages, allocFrame, frameMachine, takeFrame]
  cases allocator.alloc space.store 1 <;> rfl

theorem alloc_zeroed_page_eq (allocator : FrameAllocator Store) :
    Sv39Model.allocZeroedPage allocator = allocTable (frameMachine allocator) := by
  unfold Sv39Model.allocZeroedPage allocTable
  rw [alloc_pages_eq]
  rfl

theorem x86_alloc_zeroed_page_eq {image : KernelImage} (allocator : PageAllocator image Store) :
    PagingModel.allocZeroedPage allocator = allocTable (frameMachine (frames allocator)) :=
  alloc_zeroed_page_eq (frames allocator)

/-- Level 0 is the page table, level 3 the PML4, whose entries the source takes
without a look at `PAGE_HUGE`. -/
def x86Decode (level : Nat) (entry : Entry) : Decoded :=
  if hasFlag entry pagePresent then
    if level = 0 ∨ level < 3 ∧ hasFlag entry pageHuge = true then
      .leaf (entryAddr entry) (entry &&& flagBits)
    else .table (entryAddr entry)
  else .absent

theorem masked_address {address : Nat} (bounded : address < 2 ^ 64) :
    (BitVec.ofNat 64 address &&& ~~~flagBits).toNat = address / 4096 * 4096 := by
  have shifted : BitVec.ofNat 64 address &&& ~~~flagBits =
      BitVec.ofNat 64 address >>> 12 <<< 12 := by
    apply BitVec.eq_of_getLsbD_eq
    intro i inside
    rw [BitVec.getLsbD_and, BitVec.getLsbD_not, flag_bits_bit, BitVec.getLsbD_shiftLeft,
      BitVec.getLsbD_ushiftRight]
    by_cases low : i < 12
    · simp [low]
    · simp [low, inside, show 12 + (i - 12) = i by omega]
  rw [shifted, BitVec.toNat_shiftLeft, BitVec.toNat_ushiftRight, BitVec.toNat_ofNat,
    Nat.mod_eq_of_lt bounded, Nat.shiftRight_eq_div_pow, Nat.shiftLeft_eq]
  omega

theorem low_bits_or {base flags : Entry} (aligned : base.toNat % 2 ^ 12 = 0)
    (small : flags.toNat < 2 ^ 12) : (base ||| flags) &&& flagBits = flags := by
  apply BitVec.eq_of_getLsbD_eq
  intro i inside
  rw [BitVec.getLsbD_and, BitVec.getLsbD_or, flag_bits_bit]
  by_cases low : i < 12
  · rw [low_bit_of_aligned aligned low]
    simp [low]
  · rw [@high_bit_of_small flags small i (by omega)]
    simp [low]

def x86Format : TableFormat where
  decode := x86Decode
  tableFlags := fun entry => entry &&& flagBits
  link := tableEntry
  absent := fun _ => rfl
  last := by
    intro entry address
    unfold x86Decode
    split_ifs <;> simp_all
  aligned := by
    intro level entry address decoded
    unfold x86Decode at decoded
    split_ifs at decoded
    cases decoded
    exact entry_addr_aligned entry
  linked := by
    intro level address aligned bounded
    have page : PageAddress address := ⟨aligned, bounded⟩
    have present : hasFlag (tableEntry address) pagePresent = true := page.flag (by decide)
    have small : hasFlag (tableEntry address) pageHuge = false := page.flag (by decide)
    have target : entryAddr (tableEntry address) = address := page.entry_addr (by decide)
    simp [x86Decode, present, small, target]

def x86Layout : TreeLayout where
  format := x86Format
  top := 3
  firstUser := 1

theorem x86_next_table_eq {image : KernelImage} (allocator : PageAllocator image Store)
    (level table position : Nat) (upper : level ≠ 0) :
    PagingModel.nextTable allocator table position (decide (3 ≤ level)) =
      RadixTables.nextTable (frameMachine (frames allocator)) x86Format level table position := by
  unfold PagingModel.nextTable RadixTables.nextTable
  rw [x86_alloc_zeroed_page_eq]
  apply bind_congr
  intro entry
  cases present : hasFlag entry pagePresent with
  | false =>
      simp only [x86Format, x86Decode, present, Bool.false_eq_true, if_false]
      rfl
  | true =>
      by_cases low : level < 3
      · have notTop : decide (3 ≤ level) = false := decide_eq_false (by omega)
        cases huge : hasFlag entry pageHuge <;>
          simp only [x86Format, x86Decode, present, huge, upper, low, notTop, false_or, true_and,
            Bool.not_false, Bool.true_and, Bool.false_eq_true, if_true, if_false]
      · have isTop : decide (3 ≤ level) = true := decide_eq_true (by omega)
        simp only [x86Format, x86Decode, present, upper, low, isTop, false_or, false_and,
          Bool.not_true, Bool.false_and, Bool.false_eq_true, if_true, if_false]

theorem ppn_bits_or_nat {address : Nat} (bounded : address < 2 ^ 64) {flags : Entry}
    (small : flags.toNat < 2 ^ 10) :
    (ppnBits address ||| flags).toNat = 2 ^ 10 * (address / 4096) + flags.toNat := by
  have shifted : (ppnBits address).toNat = 2 ^ 10 * (address / 4096) := by
    unfold ppnBits
    rw [BitVec.toNat_shiftLeft, BitVec.toNat_ushiftRight, BitVec.toNat_ofNat,
      Nat.mod_eq_of_lt bounded, Nat.shiftRight_eq_div_pow, Nat.shiftLeft_eq]
    omega
  rw [BitVec.toNat_or, shifted]
  exact (Nat.two_pow_add_eq_or_of_lt small _).symm

theorem entry_flags_and (entry : Entry) : (entry &&& entryFlags).toNat = entry.toNat % 2 ^ 10 := by
  rw [BitVec.toNat_and]
  exact Nat.and_two_pow_sub_one_eq_mod _ 10

theorem ppn_bits_flags {address : Nat} (bounded : address < 2 ^ 64) {flags : Entry}
    (small : flags.toNat < 2 ^ 10) : (ppnBits address ||| flags) &&& entryFlags = flags := by
  apply BitVec.eq_of_toNat_eq
  rw [entry_flags_and, ppn_bits_or_nat bounded small, Nat.mul_add_mod, Nat.mod_eq_of_lt small]

theorem has_low_flag {entry flag : Entry} (small : flag.toNat < 2 ^ 10) :
    hasFlag entry flag = hasFlag (entry &&& entryFlags) flag := by
  have low : entryFlags &&& flag = flag := by
    apply BitVec.eq_of_toNat_eq
    rw [BitVec.and_comm, entry_flags_and, Nat.mod_eq_of_lt small]
  unfold hasFlag
  rw [BitVec.and_assoc, low]

theorem ppn_bits_target {address : Nat} (bounded : address < 2 ^ 64) {flags : Entry}
    (small : flags.toNat < 2 ^ 10) :
    entryTarget (ppnBits address ||| flags) = address / 4096 * 4096 := by
  unfold entryTarget
  rw [BitVec.toNat_shiftLeft, BitVec.toNat_ushiftRight, ppn_bits_or_nat bounded small,
    Nat.shiftRight_eq_div_pow, Nat.shiftLeft_eq]
  omega

theorem entry_target_aligned (entry : Entry) : entryTarget entry % 4096 = 0 := by
  unfold entryTarget
  rw [BitVec.toNat_shiftLeft, Nat.shiftLeft_eq]
  omega

/-- `map_user_page` and `clone_user_page_table` take every valid entry of the last level
for a leaf; a processor faults on one that has neither R nor X. -/
def sv39Decode (level : Nat) (entry : Entry) : Decoded :=
  if hasFlag entry pageV then
    if level = 0 ∨ hasFlag entry pageRwx = true then
      .leaf (entryTarget entry) (entry &&& entryFlags)
    else .table (entryTarget entry)
  else .absent

/-- An entry that leads to a table has no permissions of its own in Sv39. -/
def sv39Format : TableFormat where
  decode := sv39Decode
  tableFlags := fun _ => 0#64
  link := fun address => ppnBits address ||| pageV
  absent := fun _ => rfl
  last := by
    intro entry address
    unfold sv39Decode
    split_ifs <;> simp_all
  aligned := by
    intro level entry address decoded
    unfold sv39Decode at decoded
    split_ifs at decoded
    cases decoded
    exact entry_target_aligned entry
  linked := by
    intro level address aligned bounded
    have wide : address < 2 ^ 64 := lt_of_lt_of_le bounded (by decide)
    have flags := @ppn_bits_flags address wide pageV (by decide)
    have present : hasFlag (ppnBits address ||| pageV) pageV = true := by
      rw [has_low_flag (by decide), flags]
      decide
    have pointer : hasFlag (ppnBits address ||| pageV) pageRwx = false := by
      rw [has_low_flag (by decide), flags]
      decide
    have target : entryTarget (ppnBits address ||| pageV) = address := by
      rw [ppn_bits_target wide (by decide)]
      omega
    simp [sv39Decode, present, pointer, target]

def sv39Layout : TreeLayout where
  format := sv39Format
  top := 2
  firstUser := 4

theorem sv39_next_table_eq (allocator : FrameAllocator Store) (level table position : Nat)
    (upper : level ≠ 0) :
    Sv39Model.nextTable allocator table position =
      RadixTables.nextTable (frameMachine allocator) sv39Format level table position := by
  unfold Sv39Model.nextTable RadixTables.nextTable
  rw [alloc_zeroed_page_eq]
  apply bind_congr
  intro entry
  cases present : hasFlag entry pageV <;> cases leaf : hasFlag entry pageRwx <;>
    simp only [sv39Format, sv39Decode, present, leaf, upper, false_or, Bool.false_eq_true, if_true,
      if_false] <;> rfl

def x86LeafEntry (pa : Nat) (prot : BitVec 32) : Entry :=
  (BitVec.ofNat 64 pa &&& ~~~flagBits) ||| PagingModel.leafFlags prot

theorem x86_leaf_flags_small (prot : BitVec 32) : (PagingModel.leafFlags prot).toNat < 2 ^ 12 := by
  unfold PagingModel.leafFlags
  split_ifs <;> decide

theorem sv39_leaf_flags_small (prot : BitVec 32) : (Sv39Model.leafFlags prot).toNat < 2 ^ 10 := by
  unfold Sv39Model.leafFlags
  split_ifs <;> decide

theorem x86_leaf_decoded {pa : Nat} (bounded : pa < 2 ^ 64) (prot : BitVec 32) :
    x86Format.decode 0 (x86LeafEntry pa prot) =
      .leaf (pa / 4096 * 4096) (PagingModel.leafFlags prot) := by
  have address := masked_address bounded
  have aligned : (BitVec.ofNat 64 pa &&& ~~~flagBits).toNat % 2 ^ 12 = 0 := by
    rw [address]
    omega
  have small := x86_leaf_flags_small prot
  have present : hasFlag (x86LeafEntry pa prot) pagePresent = true := by
    unfold x86LeafEntry
    rw [has_flag_or aligned (by decide)]
    unfold PagingModel.leafFlags
    split_ifs <;> decide
  have target : entryAddr (x86LeafEntry pa prot) = pa / 4096 * 4096 := by
    unfold entryAddr x86LeafEntry
    rw [masked_or aligned small, address]
  have flags : x86LeafEntry pa prot &&& flagBits = PagingModel.leafFlags prot :=
    low_bits_or aligned small
  simp [x86Format, x86Decode, present, target, flags]

theorem sv39_leaf_decoded {pa : Nat} (bounded : pa < 2 ^ 64) (prot : BitVec 32) :
    sv39Format.decode 0 (ppnBits pa ||| Sv39Model.leafFlags prot) =
      .leaf (pa / 4096 * 4096) (Sv39Model.leafFlags prot) := by
  have small := sv39_leaf_flags_small prot
  have flags := ppn_bits_flags bounded small
  have present : hasFlag (ppnBits pa ||| Sv39Model.leafFlags prot) pageV = true := by
    rw [has_low_flag (by decide), flags]
    unfold Sv39Model.leafFlags
    split_ifs <;> decide
  have target := ppn_bits_target bounded small
  simp [sv39Format, sv39Decode, present, target, flags]

theorem leaf_frame_page (pa page : Nat) : leafFrame (pa / 4096 * 4096) page 0 = pa / 4096 := by
  unfold leafFrame
  omega

theorem index_va (va level : Nat) : index (va / 4096) level = va / 2 ^ (12 + 9 * level) % 512 := by
  have size : 4096 * 512 ^ level = 2 ^ (12 + 9 * level) := by
    rw [pow_add, pow_mul]
    rfl
  unfold index
  rw [Nat.div_div_eq_div_mul, size]

theorem x86_map_user_page_eq {image : KernelImage} (allocator : PageAllocator image Store)
    (pml4 va pa : Nat) (prot : BitVec 32) (user : va / 2 ^ 39 % 512 ≠ 0) :
    PagingModel.mapUserPage allocator pml4 va pa prot =
      mapPage (frameMachine (frames allocator)) x86Format (va / 4096) (x86LeafEntry pa prot) 3
        pml4 := by
  have three : index (va / 4096) 3 = va / 2 ^ 39 % 512 := index_va va 3
  have two : index (va / 4096) 2 = va / 2 ^ 30 % 512 := index_va va 2
  have one : index (va / 4096) 1 = va / 2 ^ 21 % 512 := index_va va 1
  have zero : index (va / 4096) 0 = va / 2 ^ 12 % 512 := index_va va 0
  unfold PagingModel.mapUserPage
  rw [if_neg user]
  simp only [mapPage, three, two, one, zero]
  rw [← x86_next_table_eq allocator 3 _ _ (by decide)]
  apply bind_congr
  intro pdpt
  rw [← x86_next_table_eq allocator 2 _ _ (by decide)]
  apply bind_congr
  intro pd
  rw [← x86_next_table_eq allocator 1 _ _ (by decide)]
  rfl

theorem sv39_map_user_page_eq (allocator : FrameAllocator Store) (root va pa : Nat)
    (prot : BitVec 32) (user : ¬va / 2 ^ 30 % 512 < 4) :
    Sv39Model.mapUserPage allocator root va pa prot =
      mapPage (frameMachine allocator) sv39Format (va / 4096)
        (ppnBits pa ||| Sv39Model.leafFlags prot) 2 root := by
  have two : index (va / 4096) 2 = va / 2 ^ 30 % 512 := index_va va 2
  have one : index (va / 4096) 1 = va / 2 ^ 21 % 512 := index_va va 1
  have zero : index (va / 4096) 0 = va / 2 ^ 12 % 512 := index_va va 0
  unfold Sv39Model.mapUserPage
  rw [if_neg user]
  simp only [mapPage, two, one, zero]
  rw [← sv39_next_table_eq allocator 2 _ _ (by decide)]
  apply bind_congr
  intro l1
  rw [← sv39_next_table_eq allocator 1 _ _ (by decide)]
  rfl

/-- What a call of `map_user_page` in the state does: on success one page is
mapped, on failure at most tables were added. -/
def RealisesOnePage (allocator : FrameAllocator Store) (layout : TreeLayout) (root va pa : Nat)
    (flags : Entry) (call : Paging Store Unit) (space : PhysicalSpace Store) : Prop :=
  Fallible.Ends call space
    (fun _ after => Maps (frameMachine allocator) layout root (va / 4096) (pa / 4096) flags space
      after)
    (Grows (frameMachine allocator) layout root space)

theorem x86_realises_one_page {image : KernelImage} (allocator : PageAllocator image Store)
    {space : PhysicalSpace Store} {pml4 va pa : Nat} (prot : BitVec 32) (low : va < 2 ^ 48)
    (bounded : pa < 2 ^ 64)
    (formed : FormedIn (frameMachine (frames allocator)) x86Layout pml4 space) :
    RealisesOnePage (frames allocator) x86Layout pml4 va pa (PagingModel.leafFlags prot)
      (PagingModel.mapUserPage allocator pml4 va pa prot) space := by
  unfold RealisesOnePage
  by_cases kernel : va / 2 ^ 39 % 512 = 0
  · unfold PagingModel.mapUserPage
    rw [if_pos kernel]
    exact Fallible.ends_fail (Grows.refl formed)
  · rw [x86_map_user_page_eq allocator pml4 va pa prot kernel, ← leaf_frame_page pa (va / 4096)]
    apply map_page_ends (by decide) formed _ (x86_leaf_decoded bounded prot) .here
    constructor
    · change va / 4096 < 512 ^ 4
      omega
    · unfold x86Layout index
      dsimp only
      omega

theorem sv39_realises_one_page (allocator : FrameAllocator Store) {space : PhysicalSpace Store}
    {root va pa : Nat} (prot : BitVec 32) (low : va < 2 ^ 39) (bounded : pa < 2 ^ 64)
    (formed : FormedIn (frameMachine allocator) sv39Layout root space) :
    RealisesOnePage allocator sv39Layout root va pa (Sv39Model.leafFlags prot)
      (Sv39Model.mapUserPage allocator root va pa prot) space := by
  unfold RealisesOnePage
  by_cases kernel : va / 2 ^ 30 % 512 < 4
  · unfold Sv39Model.mapUserPage
    rw [if_pos kernel]
    exact Fallible.ends_fail (Grows.refl formed)
  · rw [sv39_map_user_page_eq allocator root va pa prot kernel, ← leaf_frame_page pa (va / 4096)]
    apply map_page_ends (by decide) formed _ (sv39_leaf_decoded bounded prot) .here
    constructor
    · change va / 4096 < 512 ^ 3
      omega
    · unfold sv39Layout index
      dsimp only
      omega

/-- On both architectures, for every well-formed tree: a call that returns true
has mapped its page with the flags of `prot` and changed no other walk and no
entry of the kernel, and a call that returns false has changed no walk. -/
theorem map_user_page_realises_one_page :
    (∀ (Store : Type) (image : KernelImage) (allocator : PageAllocator image Store)
        (space : PhysicalSpace Store) (pml4 va pa : Nat) (prot : BitVec 32),
      va < 2 ^ 48 → pa < 2 ^ 64 →
      FormedIn (frameMachine (frames allocator)) x86Layout pml4 space →
      RealisesOnePage (frames allocator) x86Layout pml4 va pa (PagingModel.leafFlags prot)
        (PagingModel.mapUserPage allocator pml4 va pa prot) space) ∧
    (∀ (Store : Type) (allocator : FrameAllocator Store) (space : PhysicalSpace Store)
        (root va pa : Nat) (prot : BitVec 32),
      va < 2 ^ 39 → pa < 2 ^ 64 → FormedIn (frameMachine allocator) sv39Layout root space →
      RealisesOnePage allocator sv39Layout root va pa (Sv39Model.leafFlags prot)
        (Sv39Model.mapUserPage allocator root va pa prot) space) :=
  ⟨fun _ _ allocator _ _ _ _ prot low bounded formed =>
      x86_realises_one_page allocator prot low bounded formed,
    fun _ allocator _ _ _ _ prot low bounded formed =>
      sv39_realises_one_page allocator prot low bounded formed⟩

/-- The state after `create_empty_process_page_table`, at address `0x106000`. -/
def emptyX86 : PhysicalSpace (PageSupply smallImage) :=
  (PagingModel.createEmptyProcessPageTable (PageSupply.pageAllocator smallImage)
    ⟨fun _ => 0#64, smallSupply⟩).2

def emptySv39 : PhysicalSpace (PageSupply smallImage) :=
  (Sv39Model.createEmptyProcessPageTable (frames (PageSupply.pageAllocator smallImage)) 0x100000
    ⟨fun _ => 0#64, smallSupply⟩).2

theorem empty_x86_absent : ∀ position, position < 512 →
    x86Layout.format.decode x86Layout.top (entryAt emptyX86.memory 0x106000 position) = .absent := by
  decide +kernel

theorem empty_sv39_absent : ∀ position, position < 512 →
    sv39Layout.format.decode sv39Layout.top (entryAt emptySv39.memory 0x106000 position) =
      .absent := by
  decide +kernel

theorem empty_x86_formed :
    FormedIn (frameMachine (frames (PageSupply.pageAllocator smallImage))) x86Layout 0x106000
      emptyX86 :=
  TreeLayout.formed_empty_root (by decide) (.inl ⟨6, by decide +kernel⟩) empty_x86_absent

theorem empty_sv39_formed :
    FormedIn (frameMachine (frames (PageSupply.pageAllocator smallImage))) sv39Layout 0x106000
      emptySv39 :=
  TreeLayout.formed_empty_root (by decide) (.inl ⟨6, by decide +kernel⟩) empty_sv39_absent

/-- In an empty tree the page at `userBaseVa`, and the one at 4 GiB on RISC-V,
are mapped to the frame at `0x120000`. -/
theorem empty_trees_map_one_page :
    x86Layout.translate
        (PagingModel.mapUserPage (PageSupply.pageAllocator smallImage) 0x106000 userBaseVa 0x120000
          protUser emptyX86).2.memory 0x106000 (userBaseVa / 4096) =
        some ⟨0x120, PagingModel.leafFlags protUser⟩ ∧
      sv39Layout.translate
        (Sv39Model.mapUserPage (frames (PageSupply.pageAllocator smallImage)) 0x106000 0x100000000
          0x120000 protRead emptySv39).2.memory 0x106000 (0x100000000 / 4096) =
        some ⟨0x120, Sv39Model.leafFlags protRead⟩ := by
  obtain ⟨x86, sv39⟩ := map_user_page_realises_one_page
  constructor
  · have ends := x86 _ _ (PageSupply.pageAllocator smallImage) emptyX86 0x106000 userBaseVa 0x120000
      protUser (by decide) (by decide) empty_x86_formed
    have returned : (PagingModel.mapUserPage (PageSupply.pageAllocator smallImage) 0x106000
        userBaseVa 0x120000 protUser emptyX86).1 = some () := by decide +kernel
    exact (ends.1 () _ (Prod.ext returned rfl)).mapped
  · have ends := sv39 _ (frames (PageSupply.pageAllocator smallImage)) emptySv39 0x106000 0x100000000
      0x120000 protRead (by decide) (by decide) empty_sv39_formed
    have returned : (Sv39Model.mapUserPage (frames (PageSupply.pageAllocator smallImage)) 0x106000
        0x100000000 0x120000 protRead emptySv39).1 = some () := by decide +kernel
    exact (ends.1 () _ (Prod.ext returned rfl)).mapped

end Ferrugem.PageMapping
