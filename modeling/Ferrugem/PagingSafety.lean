import Ferrugem.PageOwnership

/-!
# The paging functions keep the owners

One rule for each access and for each function of `paging.rs`: run in a state
whose frames are owned consistently, it ends in such a state, whether it
succeeds or gives up half way, and new frames get the owner the caller asked
for. The rules are about two runs at once, from states that differ in frames
which are no pages and no tables: they do the same and end in such states.
-/

namespace Ferrugem.PagingSafety

open Ferrugem.PagingModel Ferrugem.PageOwnership

set_option autoImplicit false

variable {image : KernelImage} {Store : Type} {allocator : PageAllocator image Store}
variable {owners : Owners}

structure IsTable (owners : Owners) (tree : Tree) (level table : Nat) : Prop where
  aligned : table % pageSize = 0
  owned : owners (table / pageSize) = .table tree level

theorem IsTable.mono {later : Owners} {tree : Tree} {level table : Nat}
    (isTable : IsTable owners tree level table) (grown : owners ≤ later) :
    IsTable later tree level table where
  aligned := isTable.aligned
  owned := owner_kept grown isTable.owned (by simp)

/-- `pages` frames at an address, none of them a table. -/
structure IsPlain (owners : Owners) (address pages : Nat) : Prop where
  aligned : address % pageSize = 0
  plain : ∀ i, i < pages → ∀ tree level, owners (address / pageSize + i) ≠ .table tree level

/-- `pages` frames that were free and now belong to one owner. -/
structure Allocated (before later : Owners) (pages : Nat) (owner : Owner) (address : Nat) :
    Prop where
  aligned : address % pageSize = 0
  representable : address + pages * pageSize ≤ 2 ^ 52
  fresh : ∀ i, i < pages → before (address / pageSize + i) = .unowned
  owned : ∀ i, i < pages → later (address / pageSize + i) = owner

theorem Allocated.mono {before later last : Owners} {pages address : Nat} {owner : Owner}
    (allocated : Allocated before later pages owner address) (known : owner ≠ .unowned)
    (grown : later ≤ last) : Allocated before last pages owner address where
  aligned := allocated.aligned
  representable := allocated.representable
  fresh := allocated.fresh
  owned := fun i inside => owner_kept grown (allocated.owned i inside) known

theorem Allocated.page {before later : Owners} {address : Nat} {owner : Owner}
    (allocated : Allocated before later 1 owner address) : PageAddress address where
  aligned := allocated.aligned
  representable := by
    have bound := allocated.representable
    simp only [pageSize] at bound
    omega

theorem Allocated.table {before later : Owners} {address level : Nat} {tree : Tree}
    (allocated : Allocated before later 1 (.table tree level) address) :
    IsTable later tree level address where
  aligned := allocated.aligned
  owned := by simpa using allocated.owned 0 (by decide)

theorem Allocated.is_plain {before later : Owners} {pages address : Nat} {owner : Owner}
    (allocated : Allocated before later pages owner address)
    (plain : ∀ tree level, owner ≠ .table tree level) : IsPlain later address pages where
  aligned := allocated.aligned
  plain := by
    intro i inside
    rw [allocated.owned i inside]
    exact plain

theorem safe_of_twins {Value : Type} {prog : Paging Store Value} {Post : Owners → Value → Prop}
    (twins : Fallible.Twin (TwinsOwned allocator) owners prog Post) :
    Fallible.Safe (SpaceOwned allocator) owners prog Post :=
  twins.safe (fun _ owned => twins_alike owned) fun _ _ _ related => related.owned

theorem twin_read_entry {tree : Tree} {level table index : Nat}
    (isTable : IsTable owners tree level table) (shared : (Owner.table tree level).shared = true)
    (inside : index < 512) :
    Fallible.Twin (TwinsOwned allocator) owners (readEntry table index) fun later entry =>
      EntryOk image later tree level index entry := by
  apply Fallible.twin_read
  · intro first second twins
    unfold WordMemory.load
    rw [entry_word isTable.aligned]
    apply twins.agree
    rw [show (table / pageSize * 512 + index) / 512 = table / pageSize by omega, isTable.owned]
    exact shared
  · intro first second twins
    unfold WordMemory.load
    rw [entry_word isTable.aligned]
    exact twins.owned.entries _ tree level isTable.owned index inside

theorem twin_write_entry {tree : Tree} {level table index : Nat} {entry : Entry}
    (isTable : IsTable owners tree level table) (inside : index < 512)
    (ok : EntryOk image owners tree level index entry) :
    Fallible.Twin (TwinsOwned allocator) owners (writeEntry table index entry) fun _ _ => True := by
  apply Fallible.twin_modify
  · intro first second twins
    exact twins_memory twins (WordMemory.store_pointwise _ entry)
      (owned_write twins.owned isTable.aligned isTable.owned inside ok)
  · trivial

theorem safe_write_entry {tree : Tree} {level table index : Nat} {entry : Entry}
    (isTable : IsTable owners tree level table) (inside : index < 512)
    (ok : EntryOk image owners tree level index entry) :
    Fallible.Safe (SpaceOwned allocator) owners (writeEntry table index entry) fun _ _ => True :=
  safe_of_twins (twin_write_entry isTable inside ok)

theorem twin_change_memory {change : WordMemory → WordMemory}
    (pointwise : WordMemory.Pointwise change)
    (outside : ∀ memory, WordMemory.ChangesOnly (OutsideTables owners) memory (change memory)) :
    Fallible.Twin (TwinsOwned allocator) owners (changeMemory change) fun _ _ => True := by
  apply Fallible.twin_modify
  · intro first second twins
    exact twins_memory twins pointwise (owned_memory twins.owned (outside first.memory))
  · trivial

theorem safe_change_memory {change : WordMemory → WordMemory}
    (outside : ∀ memory, WordMemory.ChangesOnly (OutsideTables owners) memory (change memory)) :
    Fallible.Safe (SpaceOwned allocator) owners (changeMemory change) fun _ _ => True :=
  Fallible.safe_modify (fun space owned => owned_memory owned (outside space.memory)) trivial

theorem block_outside {address pages offset size word : Nat}
    (plain : IsPlain owners address pages) (within : offset + size ≤ pages * pageSize)
    (low : (address + offset) / 8 ≤ word) (high : word * 8 < address + offset + size) :
    OutsideTables owners word := by
  have aligned := plain.aligned
  have bounded := plain.plain (word / 512 - address / pageSize)
  simp only [pageSize] at aligned bounded within
  have first : address / 4096 ≤ word / 512 := by omega
  rw [Nat.add_sub_cancel' first] at bounded
  exact bounded (by omega)

theorem zero_block_outside {address pages : Nat} (plain : IsPlain owners address pages)
    (memory : WordMemory) :
    WordMemory.ChangesOnly (OutsideTables owners) memory
      (memory.zeroBlock address (pages * pageSize)) := by
  intro word elsewhere
  apply WordMemory.zero_block_changes
  rintro ⟨low, high⟩
  exact elsewhere (@block_outside owners address pages 0 (pages * pageSize) word plain (by omega)
    low (by omega))

theorem store_bytes_outside {address pages offset : Nat} {bytes : List (BitVec 8)}
    (plain : IsPlain owners address pages)
    (within : offset + bytes.length ≤ pages * pageSize) (memory : WordMemory) :
    WordMemory.ChangesOnly (OutsideTables owners) memory
      (memory.storeBytes (address + offset) bytes) := by
  intro word elsewhere
  apply WordMemory.store_bytes_changes
  rintro ⟨low, high⟩
  exact elsewhere (block_outside plain within low high)

theorem store_outside {address pages offset : Nat} {value : BitVec 64}
    (plain : IsPlain owners address pages) (within : offset + 8 ≤ pages * pageSize)
    (aligned : offset % 8 = 0) (memory : WordMemory) :
    WordMemory.ChangesOnly (OutsideTables owners) memory
      (memory.store (address + offset) value) := by
  intro word elsewhere
  apply WordMemory.store_changes
  rintro rfl
  apply elsewhere
  have whole := plain.aligned
  simp only [pageSize] at whole
  exact block_outside plain within (le_refl _) (by omega)

theorem safe_zero_pages {address pages : Nat} (plain : IsPlain owners address pages) :
    Fallible.Safe (SpaceOwned allocator) owners (zeroPages address pages) fun _ _ => True :=
  safe_change_memory (zero_block_outside plain)

theorem safe_write_bytes {address pages offset : Nat} {bytes : List (BitVec 8)}
    (plain : IsPlain owners address pages)
    (within : offset + bytes.length ≤ pages * pageSize) :
    Fallible.Safe (SpaceOwned allocator) owners (writeBytes (address + offset) bytes)
      fun _ _ => True :=
  safe_change_memory (store_bytes_outside plain within)

theorem twin_write_word {address pages offset : Nat} {value : BitVec 64}
    (plain : IsPlain owners address pages) (within : offset + 8 ≤ pages * pageSize)
    (aligned : offset % 8 = 0) :
    Fallible.Twin (TwinsOwned allocator) owners (writeWord (address + offset) value)
      fun _ _ => True :=
  twin_change_memory (WordMemory.store_pointwise _ value) (store_outside plain within aligned)

/-- Frames that `alloc_pages` returned, before they get an owner. -/
theorem alloc_fresh {space : PhysicalSpace Store} (owned : SpaceOwned allocator owners space)
    {pages address : Nat} {after : Store}
    (allocated : allocator.alloc space.store pages = some (address, after)) (i : Nat)
    (inside : i < pages) : owners (address / pageSize + i) = .unowned := by
  obtain ⟨unused, outside⟩ := allocator.unused allocated i inside
  exact unowned_of_unused owned unused outside

theorem alloc_owned {space : PhysicalSpace Store} (owned : SpaceOwned allocator owners space)
    {pages address : Nat} {after : Store}
    (allocated : allocator.alloc space.store pages = some (address, after)) :
    SpaceOwned allocator owners { space with store := after } :=
  owned_store owned (allocator.kept allocated)

theorem safe_alloc_pages (pages : Nat) {owner : Owner}
    (plain : ∀ tree level, owner ≠ .table tree level) :
    Fallible.Safe (SpaceOwned allocator) owners (allocPages allocator pages) fun later address =>
      Allocated owners later pages owner address := by
  intro space owned
  unfold allocPages
  cases allocated : allocator.alloc space.store pages with
  | none =>
      refine ⟨owners, le_refl owners, owned, ?_⟩
      intro address same
      cases same
  | some pair =>
      obtain ⟨address, after⟩ := pair
      have fresh := alloc_fresh owned allocated
      refine ⟨adopt owners (address / pageSize) pages owner, le_adopt fresh, ?_, ?_⟩
      · apply owned_adopt (alloc_owned owned allocated) fresh (allocator.taken allocated)
        intro tree level same
        exact absurd same (plain tree level)
      · intro returned same
        cases same
        exact ⟨allocator.aligned allocated, allocator.representable allocated, fresh,
          fun i inside => adopt_inside inside⟩

theorem zero_block_entry (memory : WordMemory) {address index : Nat}
    (aligned : address % pageSize = 0) (inside : index < 512) :
    memory.zeroBlock address (1 * pageSize) (address / pageSize * 512 + index) = 0#64 := by
  have member : WordMemory.inBlock address (1 * pageSize) (address / pageSize * 512 + index) := by
    unfold WordMemory.inBlock
    simp only [pageSize] at aligned ⊢
    omega
  exact if_pos member

theorem zero_block_owned {space : PhysicalSpace Store} (owned : SpaceOwned allocator owners space)
    {address : Nat} (aligned : address % pageSize = 0)
    (fresh : owners (address / pageSize) = .unowned) :
    SpaceOwned allocator owners
      { space with memory := space.memory.zeroBlock address (1 * pageSize) } := by
  have plain : IsPlain owners address 1 := by
    refine ⟨aligned, ?_⟩
    intro i inside tree level
    rw [show i = 0 by omega, Nat.add_zero, fresh]
    simp
  exact owned_memory owned (zero_block_outside plain space.memory)

/-- What `change` makes of frames that a new owner gets. -/
structure Fills (image : KernelImage) (owner : Owner) (address pages : Nat)
    (change : WordMemory → WordMemory) : Prop where
  inside : ∀ memory, WordMemory.ChangesOnly
    (WordMemory.inBlock address (pages * pageSize)) memory (change memory)
  entries : ∀ tree level, owner = .table tree level → ∀ memory later i index, i < pages →
    index < 512 → EntryOk image later tree level index
      (change memory ((address / pageSize + i) * 512 + index))

theorem block_frames {address pages word : Nat} (aligned : address % pageSize = 0) :
    WordMemory.inBlock address (pages * pageSize) word ↔
      address / pageSize ≤ word / 512 ∧ word / 512 < address / pageSize + pages := by
  unfold WordMemory.inBlock
  simp only [pageSize] at aligned ⊢
  omega

theorem twins_adopt {first second : PhysicalSpace Store}
    (twins : TwinsOwned allocator owners first second) {pages address : Nat} {after : Store}
    (allocated : allocator.alloc first.store pages = some (address, after)) {owner : Owner}
    {change : WordMemory → WordMemory} (fills : Fills image owner address pages change)
    (same : owner.shared = true → ∀ word, WordMemory.inBlock address (pages * pageSize) word →
      change second.memory word = change first.memory word) :
    ∃ later, owners ≤ later ∧
      TwinsOwned allocator later { memory := change first.memory, store := after }
        { memory := change second.memory, store := after } ∧
      Allocated owners later pages owner address := by
  have aligned := allocator.aligned allocated
  have fresh := alloc_fresh twins.owned allocated
  have plain : IsPlain owners address pages := by
    refine ⟨aligned, ?_⟩
    intro i inside tree level
    rw [fresh i inside]
    simp
  have changed : SpaceOwned allocator owners { memory := change first.memory, store := after } := by
    apply owned_memory (alloc_owned twins.owned allocated)
    intro word elsewhere
    apply fills.inside
    rintro ⟨low, high⟩
    exact elsewhere (@block_outside owners address pages 0 (pages * pageSize) word plain (by omega)
      low (by omega))
  refine ⟨adopt owners (address / pageSize) pages owner, le_adopt fresh, ⟨?_, rfl, ?_⟩,
    aligned, allocator.representable allocated, fresh, fun i inside => adopt_inside inside⟩
  · apply owned_adopt changed fresh (allocator.taken allocated)
    intro tree level isTable i inside index within
    exact fills.entries tree level isTable first.memory _ i index inside within
  · intro word shared
    unfold adopt at shared
    split_ifs at shared with within
    · exact same shared word ((block_frames aligned).mpr within)
    · have outside := mt (block_frames aligned).mp within
      dsimp only
      rw [fills.inside first.memory word outside, fills.inside second.memory word outside]
      exact twins.agree word shared

theorem twin_alloc_filled {pages : Nat} {owner : Owner} {fill : Nat → WordMemory → WordMemory}
    (fills : ∀ address, address % pageSize = 0 → Fills image owner address pages (fill address))
    (same : owner.shared = true → ∀ first second, TwinsOwned allocator owners first second →
      ∀ address word, address % pageSize = 0 →
        WordMemory.inBlock address (pages * pageSize) word →
        fill address second.memory word = fill address first.memory word) :
    Fallible.Twin (TwinsOwned allocator) owners
      (allocPages allocator pages >>= fun address => changeMemory (fill address) >>= fun _ =>
        pure address)
      fun later address => Allocated owners later pages owner address := by
  intro first second twins
  simp only [bind, pure, allocPages, changeMemory, Fallible.modify, twins.store]
  cases allocated : allocator.alloc first.store pages with
  | none =>
      refine ⟨rfl, owners, le_refl owners, twins, ?_⟩
      intro address failed
      cases failed
  | some pair =>
      obtain ⟨address, after⟩ := pair
      have aligned := allocator.aligned allocated
      obtain ⟨later, grown, kept, taken⟩ := twins_adopt twins allocated (fills address aligned)
        fun shared word within => same shared first second twins address word aligned within
      refine ⟨rfl, later, grown, kept, ?_⟩
      intro returned equal
      cases equal
      exact taken

theorem zero_fills {owner : Owner} {address : Nat}
    (blank : ∀ tree level, owner = .table tree level → ∀ later index,
      EntryOk image later tree level index 0#64)
    (pages : Nat) (aligned : address % pageSize = 0) :
    Fills image owner address pages fun memory =>
      memory.zeroBlock address (pages * pageSize) where
  inside := fun memory => WordMemory.zero_block_changes memory _ _
  entries := by
    intro tree level isTable memory later i index inside within
    have member : WordMemory.inBlock address (pages * pageSize)
        ((address / pageSize + i) * 512 + index) := by
      rw [block_frames aligned]
      omega
    dsimp only [WordMemory.zeroBlock]
    rw [if_pos member]
    exact blank tree level isTable later index

/-- Zeroed frames for any owner that may hold zeros: pages of a space or tables
below the root. -/
theorem twin_alloc_zeroed_pages (pages : Nat) {owner : Owner}
    (blank : ∀ tree level, owner = .table tree level → ∀ later index,
      EntryOk image later tree level index 0#64) :
    Fallible.Twin (TwinsOwned allocator) owners
      (allocPages allocator pages >>= fun address => zeroPages address pages >>= fun _ =>
        pure address)
      fun later address => Allocated owners later pages owner address := by
  apply twin_alloc_filled (fun address => zero_fills blank pages)
  intro _ first second _ address word _ within
  dsimp only [WordMemory.zeroBlock]
  rw [if_pos within, if_pos within]

theorem twin_alloc_zeroed {owner : Owner}
    (blank : ∀ tree level, owner = .table tree level → ∀ later index,
      EntryOk image later tree level index 0#64) :
    Fallible.Twin (TwinsOwned allocator) owners (allocZeroedPage allocator)
      fun later address => Allocated owners later 1 owner address :=
  twin_alloc_zeroed_pages 1 blank

theorem plain_fills {owner : Owner} (plain : ∀ tree level, owner ≠ .table tree level)
    (address pages : Nat) : Fills image owner address pages id where
  inside := fun _ _ _ => rfl
  entries := fun tree level isTable => absurd isTable (plain tree level)

theorem twin_alloc_stack (pages : Nat) :
    Fallible.Twin (TwinsOwned allocator) owners (allocPages allocator pages) fun later address =>
      Allocated owners later pages .stack address := by
  intro first second twins
  unfold allocPages
  rw [twins.store]
  cases allocated : allocator.alloc first.store pages with
  | none =>
      refine ⟨rfl, owners, le_refl owners, twins, ?_⟩
      intro address failed
      cases failed
  | some pair =>
      obtain ⟨address, after⟩ := pair
      obtain ⟨later, grown, kept, taken⟩ := @twins_adopt _ _ _ _ _ _ twins _ _ _ allocated .stack _
        (plain_fills (by simp) address pages) nofun
      refine ⟨rfl, later, grown, kept, ?_⟩
      intro returned equal
      cases equal
      exact taken

theorem table_blank (space : Nat) {level : Nat} (below : level ≠ 4) (tree : Tree)
    (other : Nat) (same : Owner.table (.process space) level = .table tree other)
    (later : Owners) (index : Nat) : EntryOk image later tree other index 0#64 := by
  cases same
  exact entry_ok_zero later space below index

theorem leaf_plain (space : Nat) (tree : Tree) (level : Nat) :
    Owner.leaf space ≠ .table tree level := by
  simp

theorem leaf_blank (space : Nat) (tree : Tree) (level : Nat)
    (same : Owner.leaf space = .table tree level) (later : Owners) (index : Nat) :
    EntryOk image later tree level index 0#64 := by
  cases same

theorem pdpt_page (image : KernelImage) : PageAddress image.pdpt where
  aligned := image.aligned.2.1
  representable := by
    have inside := image.inside
    have bound := image.representable
    simp only [pageSize] at inside
    omega

theorem clear_absent_flag {entry flag : Entry} (absent : hasFlag entry flag = false) :
    entry &&& ~~~flag = entry := by
  have zero : entry &&& flag = 0#64 := by simpa [hasFlag] using absent
  apply BitVec.eq_of_getLsbD_eq
  intro i inside
  have bit := congrArg (fun word => word.getLsbD i) zero
  simp only [BitVec.getLsbD_and, BitVec.getLsbD_zero] at bit
  rw [BitVec.getLsbD_and, BitVec.getLsbD_not]
  cases one : entry.getLsbD i with
  | false => rfl
  | true =>
      rw [one, Bool.true_and] at bit
      rw [bit, decide_eq_true inside]
      rfl

theorem kernel_entry_user (image : KernelImage) :
    kernelTableEntry image.pdpt &&& ~~~pageUser = kernelTableEntry image.pdpt := by
  apply clear_absent_flag
  unfold kernelTableEntry
  rw [(pdpt_page image).flag (by decide)]
  decide

theorem root_entry {tree : Tree} {later : Owners} {entry : Entry}
    (ok : EntryOk image later tree 4 0 entry) : entry = kernelTableEntry image.pdpt := by
  cases tree with
  | kernel => exact ok
  | process space => exact ok

theorem root_entry_ok (owners : Owners) {memory : WordMemory} {address index : Nat} (name : Nat)
    (aligned : address % pageSize = 0)
    (zero : memory (address / pageSize * 512 + index) = 0#64) :
    EntryOk image owners (.process name) 4 index
      (memory.store (address + 0 * 8) (kernelTableEntry image.pdpt)
        (address / pageSize * 512 + index)) := by
  dsimp only [WordMemory.store]
  rw [entry_word aligned, Nat.add_zero]
  by_cases first : index = 0
  · subst first
    rw [Nat.add_zero, Function.update_self]
    rfl
  · rw [Function.update_of_ne (by omega), zero]
    simp only [EntryOk, if_neg first]
    exact leads_to_zero _ _

theorem owned_adopt_root {space : PhysicalSpace Store} (owned : SpaceOwned allocator owners space)
    {address name : Nat} (aligned : address % pageSize = 0)
    (fresh : owners (address / pageSize) = .unowned)
    (used : allocator.InUse space.store (address / pageSize))
    (zero : ∀ index, index < 512 → space.memory (address / pageSize * 512 + index) = 0#64) :
    SpaceOwned allocator (adopt owners (address / pageSize) 1 (.table (.process name) 4))
      { space with
        memory := space.memory.store (address + 0 * 8) (kernelTableEntry image.pdpt) } := by
  have alone (i : Nat) (inside : i < 1) : owners (address / pageSize + i) = .unowned := by
    rw [show i = 0 by omega]
    exact fresh
  have written : SpaceOwned allocator owners
      { space with
        memory := space.memory.store (address + 0 * 8) (kernelTableEntry image.pdpt) } := by
    apply owned_memory owned
    intro word elsewhere
    apply WordMemory.store_changes
    rintro rfl
    apply elsewhere
    intro tree level
    rw [entry_word aligned, show (address / pageSize * 512 + 0) / 512 = address / pageSize by
      omega, fresh]
    simp
  apply owned_adopt written alone
  · intro i inside
    rw [show i = 0 by omega]
    exact used
  · intro tree level same i inside index within
    cases same
    obtain rfl : i = 0 := by omega
    exact root_entry_ok _ name aligned (zero index within)

theorem root_fills (name : Nat) {address : Nat} (aligned : address % pageSize = 0) :
    Fills image (.table (.process name) 4) address 1 fun memory =>
      (memory.zeroBlock address (1 * pageSize)).store (address + 0 * 8)
        (kernelTableEntry image.pdpt) where
  inside := by
    intro memory word elsewhere
    rw [WordMemory.store_changes _ _ _ word, WordMemory.zero_block_changes _ _ _ word elsewhere]
    rintro rfl
    apply elsewhere
    rw [block_frames aligned, entry_word aligned]
    omega
  entries := by
    intro tree level isTable memory later i index inside within
    cases isTable
    obtain rfl : i = 0 := by omega
    exact root_entry_ok _ name aligned (zero_block_entry memory aligned within)

theorem root_shared (tree : Tree) : (Owner.table tree 4).shared = true := by
  cases tree <;> rfl

theorem twin_alloc_root {tree : Tree} {source : Nat} {change : Entry → Entry}
    (name : Nat → Nat) (root : IsTable owners tree 4 source)
    (keeps : change (kernelTableEntry image.pdpt) = kernelTableEntry image.pdpt) :
    Fallible.Twin (TwinsOwned allocator) owners (allocRoot allocator source change)
      fun later address =>
        Allocated owners later 1 (.table (.process (name address)) 4) address := by
  intro first second twins
  unfold allocRoot allocZeroedPage
  simp only [bind, pure, allocPages, zeroPages, changeMemory, Fallible.modify, readEntry, writeEntry,
    Fallible.read, WordMemory.load, twins.store]
  cases allocated : allocator.alloc first.store 1 with
  | none =>
      refine ⟨rfl, owners, le_refl owners, twins, ?_⟩
      intro address failed
      cases failed
  | some pair =>
      obtain ⟨address, after⟩ := pair
      have aligned := allocator.aligned allocated
      have fresh : owners (address / pageSize) = .unowned := by
        simpa using alloc_fresh twins.owned allocated 0 (by decide)
      have taken := alloc_owned twins.owned allocated
      have moved : TwinsOwned allocator owners { first with store := after }
          { second with store := after } := ⟨taken, rfl, twins.agree⟩
      have zeroed := twins_memory moved (WordMemory.zero_block_pointwise address (1 * pageSize))
        (zero_block_owned taken aligned fresh)
      have entry := root_entry (zeroed.owned.entries _ tree 4 root.owned 0 (by decide))
      have twinEntry := zeroed.agree (source / pageSize * 512 + 0) (by
        rw [show (source / pageSize * 512 + 0) / 512 = source / pageSize by omega, root.owned]
        exact root_shared tree)
      rw [entry] at twinEntry
      rw [← entry_word root.aligned] at entry twinEntry
      obtain ⟨later, grown, kept, adopted⟩ := twins_adopt twins allocated
        (root_fills (name address) aligned) fun _ word within => by
          apply WordMemory.store_pointwise
          dsimp only [WordMemory.zeroBlock]
          rw [if_pos within, if_pos within]
      dsimp only at entry twinEntry ⊢
      rw [entry, twinEntry, keeps]
      refine ⟨rfl, later, grown, kept, ?_⟩
      intro returned equal
      cases equal
      exact adopted

theorem twin_create_empty (tables : KernelTables image owners) :
    Fallible.Twin (TwinsOwned allocator) owners (createEmptyProcessPageTable allocator)
      fun later address =>
        Allocated owners later 1 (.table (.process (address / pageSize)) 4) address :=
  twin_alloc_root (fun address => address / pageSize) ⟨image.aligned.1, tables.pml4⟩
    (kernel_entry_user image)

def isUpper (level : Nat) : Prop := level = 1 ∨ level = 2 ∨ level = 3

theorem entry_ok_upper {owners : Owners} {name level index : Nat} {entry : Entry}
    (upper : isUpper level) (user : level = 3 → index ≠ 0) :
    EntryOk image owners (.process name) (level + 1) index entry ↔
      LeadsTo owners entry (.table (.process name) level) := by
  rcases upper with rfl | rfl | rfl
  · rfl
  · rfl
  · simp only [EntryOk, if_neg (user rfl)]

theorem LeadsTo.table {tree : Tree} {level : Nat} {entry : Entry}
    (leads : LeadsTo owners entry (.table tree level))
    (present : hasFlag entry pagePresent = true) : IsTable owners tree level (entryAddr entry) where
  aligned := entry_addr_aligned entry
  owned := (leads present).2

theorem table_entry_leads {owner : Owner} {address : Nat} (page : PageAddress address)
    (owned : owners (address / pageSize) = owner) : LeadsTo owners (tableEntry address) owner := by
  intro _
  unfold tableEntry frameOf
  rw [page.flag (by decide), page.entry_addr (by decide)]
  exact ⟨by decide, owned⟩

theorem cloned_leads {before : Owners} {owner : Owner} {address : Nat} {entry : Entry}
    (allocated : Allocated before owners 1 owner address)
    (table : hasFlag entry pageHuge = false) :
    LeadsTo owners (clonedEntry address entry) owner := by
  intro _
  constructor
  · rw [allocated.page.cloned_flag entry (by decide)]
    have same : (entry &&& flagBits) &&& pageHuge = entry &&& pageHuge := by
      rw [BitVec.and_assoc]
      congr 1
    unfold hasFlag at table ⊢
    rw [same]
    exact table
  · unfold frameOf
    rw [allocated.page.cloned_addr]
    simpa using allocated.owned 0 (by decide)

theorem twin_next_table {name level table index : Nat} {top : Bool}
    (isTable : IsTable owners (.process name) (level + 1) table) (upper : isUpper level)
    (inside : index < 512) (user : level = 3 → index ≠ 0) :
    Fallible.Twin (TwinsOwned allocator) owners (nextTable allocator table index top)
      fun later next => IsTable later (.process name) level next := by
  have below : level ≠ 4 := by
    rcases upper with rfl | rfl | rfl <;> decide
  apply Fallible.twin_bind (twin_read_entry isTable rfl inside)
  intro later entry grown ok
  rw [entry_ok_upper upper user] at ok
  split_ifs with present huge
  · exact Fallible.twin_fail
  · exact Fallible.twin_pure (LeadsTo.table ok present)
  · apply Fallible.twin_bind (twin_alloc_zeroed (table_blank name below))
    intro afterAlloc new grownAlloc allocated
    have same := (isTable.mono grown).mono grownAlloc
    apply Fallible.twin_bind (twin_write_entry same inside ?_)
    · intro last _ grownLast _
      exact Fallible.twin_pure (allocated.table.mono grownLast)
    · rw [entry_ok_upper upper user]
      exact table_entry_leads allocated.page allocated.table.owned

theorem leaf_flags_small (prot : BitVec 32) : (leafFlags prot).toNat < 2 ^ 12 := by
  unfold leafFlags
  split_ifs <;> decide

/-- `map_user_page` keeps the owners when the page belongs to the space. -/
theorem twin_map_user_page {name pml4 va pa : Nat} {prot : BitVec 32}
    (root : IsTable owners (.process name) 4 pml4) (page : PageAddress pa)
    (leaf : owners (pa / pageSize) = .leaf name) :
    Fallible.Twin (TwinsOwned allocator) owners (mapUserPage allocator pml4 va pa prot)
      fun _ _ => True := by
  have small (n : Nat) : n % 512 < 512 := Nat.mod_lt n (by decide)
  unfold mapUserPage
  split_ifs with kernelHalf
  · exact Fallible.twin_fail
  · apply Fallible.twin_bind
      (@twin_next_table _ _ _ _ name 3 _ _ true root (by simp [isUpper]) (small _)
        fun _ => kernelHalf)
    intro world3 pdpt grown3 isPdpt
    apply Fallible.twin_bind
      (@twin_next_table _ _ _ _ name 2 _ _ false isPdpt (by simp [isUpper]) (small _) (by simp))
    intro world2 pd grown2 isPd
    apply Fallible.twin_bind
      (@twin_next_table _ _ _ _ name 1 _ _ false isPd (by simp [isUpper]) (small _) (by simp))
    intro world1 pt grown1 isPt
    apply twin_write_entry isPt (small _)
    intro _
    unfold frameOf
    rw [page.masked, page.entry_addr (leaf_flags_small prot)]
    exact owner_kept (le_trans grown3 (le_trans grown2 grown1)) leaf (by simp)

theorem twin_copy_page {source name copy : Nat} (aligned : source % pageSize = 0)
    (leaf : owners (source / pageSize) = .leaf name) :
    Fallible.Twin (TwinsOwned allocator) owners
      (allocPages allocator 1 >>= fun address => copyPage source address >>= fun _ => pure address)
      fun later address => Allocated owners later 1 (.leaf copy) address := by
  apply twin_alloc_filled
  · intro address _
    constructor
    · intro memory
      rw [Nat.one_mul]
      exact WordMemory.copy_block_changes memory _ _ _
    · intro tree level isTable
      cases isTable
  · intro _ first second twins address word whole within
    rw [Nat.one_mul] at within
    dsimp only [WordMemory.copyBlock]
    rw [if_pos within, if_pos within]
    apply twins.agree
    simp only [WordMemory.inBlock, pageSize] at within aligned whole leaf
    rw [show (source / 8 + (word - address / 8)) / 512 = source / 4096 by omega, leaf]
    rfl

theorem twin_clone_leaf {name copy srcPt newPt l : Nat}
    (source : IsTable owners (.process name) 1 srcPt)
    (target : IsTable owners (.process copy) 1 newPt) (inside : l < 512) :
    Fallible.Twin (TwinsOwned allocator) owners (cloneLeaf allocator srcPt newPt l)
      fun _ _ => True := by
  apply Fallible.twin_bind (twin_read_entry source rfl inside)
  intro later e1 grown leads
  split_ifs with present
  · rw [Fallible.bind_return]
    apply Fallible.twin_bind (@twin_copy_page _ _ _ _ _ _ copy (entry_addr_aligned e1)
      (leads present))
    intro last newData grownLast allocated
    apply twin_write_entry ((target.mono grown).mono grownLast) inside
    intro _
    unfold frameOf
    rw [allocated.page.cloned_addr]
    simpa using allocated.owned 0 (by decide)
  · exact Fallible.twin_pure trivial

/-- One level of the copy: a present entry gets a new table, which the inner
loop fills. -/
theorem twin_clone_table {name copy level source target index : Nat} {entry : Entry}
    (inner : Nat → Nat → Paging Store Unit) (upper : isUpper level)
    (isTarget : IsTable owners (.process copy) (level + 1) target) (inside : index < 512)
    (user : level = 3 → index ≠ 0) (small : hasFlag entry pageHuge = false)
    (isSource : IsTable owners (.process name) level source)
    (fills : ∀ later new i, IsTable later (.process name) level source →
      IsTable later (.process copy) level new → i < 512 →
      Fallible.Twin (TwinsOwned allocator) later (inner new i) fun _ _ => True) :
    Fallible.Twin (TwinsOwned allocator) owners
      (do
        let new ← allocZeroedPage allocator
        Fallible.forRange 512 (inner new)
        writeEntry target index (clonedEntry new entry)) fun _ _ => True := by
  have below : level ≠ 4 := by
    rcases upper with rfl | rfl | rfl <;> decide
  apply Fallible.twin_bind (twin_alloc_zeroed (table_blank copy below))
  intro later new grown allocated
  apply Fallible.twin_bind (Fallible.twin_for_range ?_)
  · intro last _ grownLast _
    apply twin_write_entry ((isTarget.mono grown).mono grownLast) inside
    rw [entry_ok_upper upper user]
    exact cloned_leads (allocated.mono (by simp) grownLast) small
  · intro last i grownLast below
    exact fills last new i ((isSource.mono grown).mono grownLast) (allocated.table.mono grownLast)
      below

theorem twin_clone_pd {name copy srcPd newPd k : Nat}
    (source : IsTable owners (.process name) 2 srcPd)
    (target : IsTable owners (.process copy) 2 newPd) (inside : k < 512) :
    Fallible.Twin (TwinsOwned allocator) owners (clonePd allocator srcPd newPd k)
      fun _ _ => True := by
  apply Fallible.twin_bind (twin_read_entry source rfl inside)
  intro later e2 grown leads
  split_ifs with present huge
  · rw [(leads present).1] at huge
    cases huge
  · exact twin_clone_table (cloneLeaf allocator (entryAddr e2)) (by simp [isUpper])
      (target.mono grown) inside (by simp) (leads present).1 (LeadsTo.table leads present)
      fun _ _ _ isSource isTarget below => twin_clone_leaf isSource isTarget below
  · exact Fallible.twin_pure trivial

theorem twin_clone_pdpt {name copy srcPdpt newPdpt j : Nat}
    (source : IsTable owners (.process name) 3 srcPdpt)
    (target : IsTable owners (.process copy) 3 newPdpt) (inside : j < 512) :
    Fallible.Twin (TwinsOwned allocator) owners (clonePdpt allocator srcPdpt newPdpt j)
      fun _ _ => True := by
  apply Fallible.twin_bind (twin_read_entry source rfl inside)
  intro later e3 grown leads
  split_ifs with present huge
  · rw [(leads present).1] at huge
    cases huge
  · exact twin_clone_table (clonePd allocator (entryAddr e3)) (by simp [isUpper])
      (target.mono grown) inside (by simp) (leads present).1 (LeadsTo.table leads present)
      fun _ _ _ isSource isTarget below => twin_clone_pd isSource isTarget below
  · exact Fallible.twin_pure trivial

theorem twin_clone_pml4 {name copy srcPml4 newPml4 i : Nat}
    (source : IsTable owners (.process name) 4 srcPml4)
    (target : IsTable owners (.process copy) 4 newPml4) (inside : i < 512) (user : i ≠ 0) :
    Fallible.Twin (TwinsOwned allocator) owners (clonePml4 allocator srcPml4 newPml4 i)
      fun _ _ => True := by
  apply Fallible.twin_bind (twin_read_entry source rfl inside)
  intro later e4 grown ok
  have leads := (@entry_ok_upper image later name 3 i e4 (by simp [isUpper]) fun _ => user).mp ok
  split_ifs with present
  · exact twin_clone_table (clonePdpt allocator (entryAddr e4)) (by simp [isUpper])
      (target.mono grown) inside (fun _ => user) (leads present).1 (LeadsTo.table leads present)
      fun _ _ _ isSource isTarget below => twin_clone_pdpt isSource isTarget below
  · exact Fallible.twin_pure trivial

theorem twin_clone_user_page_table {name srcPml4 : Nat}
    (source : IsTable owners (.process name) 4 srcPml4) :
    Fallible.Twin (TwinsOwned allocator) owners (cloneUserPageTable allocator srcPml4)
      fun later address =>
        Allocated owners later 1 (.table (.process (address / pageSize)) 4) address := by
  apply Fallible.twin_bind (twin_alloc_root (fun address => address / pageSize) source rfl)
  intro later newPml4 grown allocated
  apply Fallible.twin_bind (Fallible.twin_for_range ?_)
  · intro last _ grownLast _
    exact Fallible.twin_pure (allocated.mono (by simp) grownLast)
  · intro last i grownLast below
    exact twin_clone_pml4 ((source.mono grown).mono grownLast) (allocated.table.mono grownLast)
      (by omega) (by omega)

theorem kernel_table_leads {before : Owners} {address : Nat}
    (allocated : Allocated before owners 1 (.table .kernel 1) address) (index : Nat) :
    EntryOk image owners .kernel 2 index (kernelTableEntry address) := by
  constructor
  · unfold kernelTableEntry
    rw [allocated.page.flag (by decide)]
    decide
  · intro _
    unfold frameOf kernelTableEntry
    rw [allocated.page.entry_addr (by decide)]
    exact allocated.table.owned

theorem twin_clear_guard_entry {entry : Entry} {phys : Nat}
    (isTable : IsTable owners .kernel 1 (entryAddr entry)) :
    Fallible.Twin (TwinsOwned allocator) owners
      (clearGuardEntry entry phys : Paging Store Bool) fun _ _ => True := by
  apply Fallible.twin_bind (twin_write_entry isTable (Nat.mod_lt _ (by decide)) trivial)
  intro later _ _ _
  exact Fallible.twin_pure trivial

theorem twin_split_huge_page {table phys : Nat} (isTable : IsTable owners .kernel 1 table) :
    Fallible.Twin (TwinsOwned allocator) owners (splitHugePage table phys) fun _ _ => True := by
  apply Fallible.twin_for_range
  intro later i grown inside
  exact twin_write_entry (isTable.mono grown) inside trivial

theorem twin_try_alloc_kernel_table :
    Fallible.Twin (TwinsOwned allocator) owners (tryAllocPages allocator 1) fun later result =>
      ∀ table, result = some table → Allocated owners later 1 (.table .kernel 1) table := by
  intro first second twins
  unfold tryAllocPages
  rw [twins.store]
  cases allocated : allocator.alloc first.store 1 with
  | none =>
      refine ⟨rfl, owners, le_refl owners, twins, ?_⟩
      intro result same table found
      cases same
      cases found
  | some pair =>
      obtain ⟨address, after⟩ := pair
      have fills : Fills image (.table .kernel 1) address 1 id := by
        refine ⟨fun _ _ _ => rfl, ?_⟩
        intro tree level isTable memory later i index inside within
        cases isTable
        trivial
      obtain ⟨later, grown, kept, taken⟩ := twins_adopt twins allocated fills nofun
      refine ⟨rfl, later, grown, kept, ?_⟩
      intro result same table found
      cases same
      cases found
      exact taken

theorem pd_table (tables : KernelTables image owners) (phys : Nat) :
    IsTable owners .kernel 2 (image.pd + phys / 2 ^ 30 % 4 * pageSize) := by
  have aligned := image.aligned.2.2
  have owned := tables.pd (phys / 2 ^ 30 % 4) (Nat.mod_lt _ (by decide))
  simp only [pageSize] at aligned owned ⊢
  constructor
  · simp only [pageSize]
    omega
  · simp only [pageSize]
    rw [show (image.pd + phys / 2 ^ 30 % 4 * 4096) / 4096 =
      image.pd / 4096 + phys / 2 ^ 30 % 4 by omega]
    exact owned

theorem twin_protect_guard_page (tables : KernelTables image owners) (phys : Nat) :
    Fallible.Twin (TwinsOwned allocator) owners (protectGuardPage allocator phys)
      fun _ _ => True := by
  have directory := pd_table tables phys
  have inside : phys / 2 ^ 21 % 512 < 512 := Nat.mod_lt _ (by decide)
  unfold protectGuardPage
  split_ifs
  · exact Fallible.twin_pure trivial
  · apply Fallible.twin_bind (twin_read_entry directory rfl inside)
    intro later pdEntry grown ok
    split_ifs with huge
    · apply Fallible.twin_bind twin_try_alloc_kernel_table
      intro afterAlloc result grownAlloc found
      cases result with
      | none => exact Fallible.twin_pure trivial
      | some table =>
          have allocated := found table rfl
          apply Fallible.twin_bind (twin_split_huge_page allocated.table)
          intro filled _ grownFilled _
          have linked := allocated.mono (by simp) grownFilled
          apply Fallible.twin_bind (twin_write_entry
            (((directory.mono grown).mono grownAlloc).mono grownFilled) inside
            (kernel_table_leads linked _))
          intro last _ grownLast _
          apply twin_clear_guard_entry
          unfold kernelTableEntry
          rw [allocated.page.entry_addr (by decide)]
          exact linked.table.mono grownLast
    · apply twin_clear_guard_entry
      exact ⟨entry_addr_aligned pdEntry, ok.2 (by simpa using huge)⟩

/-- The conclusion of `Fallible.Safe` for one final state. -/
def Ends {Value : Type} (allocator : PageAllocator image Store) (owners : Owners)
    (result : Option Value × PhysicalSpace Store) (Post : Owners → Value → Prop) : Prop :=
  ∃ later, owners ≤ later ∧ SpaceOwned allocator later result.2 ∧
    ∀ value, result.1 = some value → Post later value

/-- A frame taken by `alloc_pages` that has no owner yet. -/
structure FreshFrame (allocator : PageAllocator image Store) (owners : Owners) (store : Store)
    (address : Nat) : Prop where
  page : PageAddress address
  unowned : owners (address / pageSize) = .unowned
  used : allocator.InUse store (address / pageSize)

theorem ends_alloc_page {Value : Type} {space : PhysicalSpace Store}
    {next : Nat → Paging Store Value} {Post : Owners → Value → Prop}
    (owned : SpaceOwned allocator owners space)
    (success : ∀ address after, SpaceOwned allocator owners { space with store := after } →
      FreshFrame allocator owners after address →
      (∀ other, FreshFrame allocator owners space.store other →
        FreshFrame allocator owners after other ∧ other / pageSize ≠ address / pageSize) →
      Ends allocator owners (next address { space with store := after }) Post) :
    Ends allocator owners ((allocPages allocator 1 >>= next) space) Post := by
  simp only [bind, allocPages]
  cases allocated : allocator.alloc space.store 1 with
  | none =>
      refine ⟨owners, le_refl owners, owned, ?_⟩
      intro value same
      cases same
  | some pair =>
      obtain ⟨address, after⟩ := pair
      have bound := allocator.representable allocated
      simp only [pageSize] at bound
      refine success address after (alloc_owned owned allocated) ?_ ?_
      · exact ⟨⟨allocator.aligned allocated, by omega⟩, alloc_fresh owned allocated 0 (by decide),
          allocator.taken allocated 0 (by decide)⟩
      · intro other held
        refine ⟨⟨held.page, held.unowned, allocator.kept allocated _ held.used⟩, ?_⟩
        intro same
        apply (allocator.unused allocated 0 (by decide)).1
        rw [Nat.add_zero, ← same]
        exact held.used

theorem ends_of_safe {Value : Type} {later : Owners} {space : PhysicalSpace Store}
    {prog : Paging Store Value} {Mid Post : Owners → Value → Prop} (grown : owners ≤ later)
    (owned : SpaceOwned allocator later space)
    (safe : Fallible.Safe (SpaceOwned allocator) later prog Mid)
    (weaker : ∀ last value, later ≤ last → Mid last value → Post last value) :
    Ends allocator owners (prog space) Post := by
  obtain ⟨last, further, kept, post⟩ := safe space owned
  exact ⟨last, le_trans grown further, kept, fun value same => weaker last value further
    (post value same)⟩

theorem zero_block_stays {memory : WordMemory} {word : Nat} (zero : memory word = 0#64)
    (address size : Nat) : memory.zeroBlock address size word = 0#64 := by
  unfold WordMemory.zeroBlock
  split_ifs
  · rfl
  · exact zero

theorem adopt_other {first frame : Nat} {owner : Owner} (different : frame ≠ first) :
    adopt owners first 1 owner frame = owners frame := by
  unfold adopt
  rw [if_neg (by omega)]

theorem le_adopt_one {first : Nat} {owner : Owner} (fresh : owners first = .unowned) :
    owners ≤ adopt owners first 1 owner := by
  apply le_adopt
  intro i inside
  rw [show i = 0 by omega]
  exact fresh

theorem adopt_one (owners : Owners) (first : Nat) (owner : Owner) :
    adopt owners first 1 owner first = owner :=
  @adopt_inside owners first 1 owner 0 (by decide)

theorem owned_adopt_blank {space : PhysicalSpace Store} (owned : SpaceOwned allocator owners space)
    {frame name level : Nat} (below : level ≠ 4) (fresh : owners frame = .unowned)
    (used : allocator.InUse space.store frame)
    (zero : ∀ index, index < 512 → space.memory (frame * 512 + index) = 0#64) :
    SpaceOwned allocator (adopt owners frame 1 (.table (.process name) level)) space := by
  apply owned_adopt owned
  · intro i inside
    rw [show i = 0 by omega]
    exact fresh
  · intro i inside
    rw [show i = 0 by omega]
    exact used
  · intro tree other same i inside index within
    cases same
    rw [show i = 0 by omega, Nat.add_zero, zero index within]
    exact entry_ok_zero _ name below index

/-- The writes of `create_process_page_table` after entry 0 of the root. -/
theorem safe_link_process {name pml4 pdpt pd pt codePhys stackPhys : Nat}
    (root : IsTable owners (.process name) 4 pml4) (isPdpt : IsTable owners (.process name) 3 pdpt)
    (isPd : IsTable owners (.process name) 2 pd) (isPt : IsTable owners (.process name) 1 pt)
    (pdptPage : PageAddress pdpt) (pdPage : PageAddress pd) (ptPage : PageAddress pt)
    (codePage : PageAddress codePhys) (code : owners (codePhys / pageSize) = .leaf name)
    (stackPage : PageAddress stackPhys) (stack : owners (stackPhys / pageSize) = .leaf name) :
    Fallible.Safe (SpaceOwned allocator) owners
      (do
        writeEntry pml4 1 (tableEntry pdpt)
        writeEntry pdpt 0 (tableEntry pd)
        writeEntry pd 0 (tableEntry pt)
        writeEntry pt (userCodeVa / 2 ^ 12 % 512) (tableEntry codePhys)
        writeEntry pt ((userStackTop - pageSize) / 2 ^ 12 % 512) (tableEntry stackPhys)
        pure pml4)
      fun _ address => address = pml4 := by
  apply Fallible.safe_bind (safe_write_entry root (by decide)
    ((entry_ok_upper (by simp [isUpper]) (by simp)).mpr (table_entry_leads pdptPage isPdpt.owned)))
  intro world1 _ grown1 _
  apply Fallible.safe_bind (safe_write_entry (isPdpt.mono grown1) (by decide)
    (table_entry_leads pdPage (isPd.mono grown1).owned))
  intro world2 _ grown2 _
  have upTo2 := le_trans grown1 grown2
  apply Fallible.safe_bind (safe_write_entry (isPd.mono upTo2) (by decide)
    (table_entry_leads ptPage (isPt.mono upTo2).owned))
  intro world3 _ grown3 _
  have upTo3 := le_trans upTo2 grown3
  apply Fallible.safe_bind (safe_write_entry (isPt.mono upTo3) (by decide)
    fun present => (table_entry_leads codePage (owner_kept upTo3 code (by simp)) present).2)
  intro world4 _ grown4 _
  have upTo4 := le_trans upTo3 grown4
  apply Fallible.safe_bind (safe_write_entry (isPt.mono upTo4) (by decide)
    fun present => (table_entry_leads stackPage (owner_kept upTo4 stack (by simp)) present).2)
  intro _ _ _ _
  exact Fallible.safe_pure rfl

def zeroedTables (memory : WordMemory) (pml4 pdpt pd pt : Nat) : WordMemory :=
  (((memory.zeroBlock pml4 (1 * pageSize)).zeroBlock pdpt (1 * pageSize)).zeroBlock pd
    (1 * pageSize)).zeroBlock pt (1 * pageSize)

theorem owned_process_tables {space : PhysicalSpace Store} (name : Nat)
    (owned : SpaceOwned allocator owners space) {pml4 pdpt pd pt : Nat}
    (fresh4 : FreshFrame allocator owners space.store pml4)
    (fresh3 : FreshFrame allocator owners space.store pdpt)
    (fresh2 : FreshFrame allocator owners space.store pd)
    (fresh1 : FreshFrame allocator owners space.store pt)
    (distinct : [pml4, pdpt, pd, pt].Pairwise fun a b => a / pageSize ≠ b / pageSize) :
    ∃ later, owners ≤ later ∧
      SpaceOwned allocator later
        { space with
          memory := (zeroedTables space.memory pml4 pdpt pd pt).store (pml4 + 0 * 8)
            (kernelTableEntry image.pdpt) } ∧
      IsTable later (.process name) 4 pml4 ∧ IsTable later (.process name) 3 pdpt ∧
      IsTable later (.process name) 2 pd ∧ IsTable later (.process name) 1 pt := by
  simp only [List.pairwise_cons, List.mem_cons, List.not_mem_nil, or_false, forall_eq_or_imp,
    forall_eq, false_implies, implies_true, List.Pairwise.nil, and_true] at distinct
  obtain ⟨⟨apart43, apart42, apart41⟩, ⟨apart32, apart31⟩, apart21⟩ := distinct
  have zero4 := zero_block_owned owned fresh4.page.aligned fresh4.unowned
  have zero3 := zero_block_owned zero4 fresh3.page.aligned fresh3.unowned
  have zero2 := zero_block_owned zero3 fresh2.page.aligned fresh2.unowned
  have zero1 := zero_block_owned zero2 fresh1.page.aligned fresh1.unowned
  have entries4 (index : Nat) (within : index < 512) :=
    zero_block_stays (zero_block_stays (zero_block_stays
      (zero_block_entry space.memory fresh4.page.aligned within) pdpt (1 * pageSize))
      pd (1 * pageSize)) pt (1 * pageSize)
  have entries3 (index : Nat) (within : index < 512) :=
    zero_block_stays (zero_block_stays
      (zero_block_entry (space.memory.zeroBlock pml4 (1 * pageSize)) fresh3.page.aligned within)
      pd (1 * pageSize)) pt (1 * pageSize)
  have entries2 (index : Nat) (within : index < 512) :=
    zero_block_stays
      (zero_block_entry ((space.memory.zeroBlock pml4 (1 * pageSize)).zeroBlock pdpt
        (1 * pageSize)) fresh2.page.aligned within) pt (1 * pageSize)
  have entries1 (index : Nat) (within : index < 512) :=
    zero_block_entry (((space.memory.zeroBlock pml4 (1 * pageSize)).zeroBlock pdpt
      (1 * pageSize)).zeroBlock pd (1 * pageSize)) fresh1.page.aligned within
  have rooted := @owned_adopt_root _ _ _ _ _ zero1 pml4 name fresh4.page.aligned fresh4.unowned
    fresh4.used entries4
  have stored {frame index : Nat} (apart : pml4 / pageSize ≠ frame) (within : index < 512) :
      (zeroedTables space.memory pml4 pdpt pd pt).store (pml4 + 0 * 8)
        (kernelTableEntry image.pdpt) (frame * 512 + index) =
          zeroedTables space.memory pml4 pdpt pd pt (frame * 512 + index) := by
    unfold WordMemory.store
    rw [entry_word fresh4.page.aligned]
    exact Function.update_of_ne (by omega) _ _
  let world4 := adopt owners (pml4 / pageSize) 1 (.table (.process name) 4)
  let world3 := adopt world4 (pdpt / pageSize) 1 (.table (.process name) 3)
  let world2 := adopt world3 (pd / pageSize) 1 (.table (.process name) 2)
  let world1 := adopt world2 (pt / pageSize) 1 (.table (.process name) 1)
  have free3 : world4 (pdpt / pageSize) = .unowned :=
    (adopt_other apart43.symm).trans fresh3.unowned
  have free2 : world3 (pd / pageSize) = .unowned :=
    (adopt_other apart32.symm).trans ((adopt_other apart42.symm).trans fresh2.unowned)
  have free1 : world2 (pt / pageSize) = .unowned :=
    (adopt_other apart21.symm).trans
      ((adopt_other apart31.symm).trans ((adopt_other apart41.symm).trans fresh1.unowned))
  have grown4 : owners ≤ world4 := le_adopt_one fresh4.unowned
  have grown3 : world4 ≤ world3 := le_adopt_one free3
  have grown2 : world3 ≤ world2 := le_adopt_one free2
  have grown1 : world2 ≤ world1 := le_adopt_one free1
  have owned3 := @owned_adopt_blank _ _ _ world4 _ rooted (pdpt / pageSize) name 3 (by decide)
    free3 fresh3.used fun index within => (stored apart43 within).trans (entries3 index within)
  have owned2 := @owned_adopt_blank _ _ _ world3 _ owned3 (pd / pageSize) name 2 (by decide)
    free2 fresh2.used fun index within => (stored apart42 within).trans (entries2 index within)
  have owned1 := @owned_adopt_blank _ _ _ world2 _ owned2 (pt / pageSize) name 1 (by decide)
    free1 fresh1.used fun index within => (stored apart41 within).trans (entries1 index within)
  have table4 : IsTable world4 (.process name) 4 pml4 :=
    ⟨fresh4.page.aligned, adopt_one owners _ _⟩
  have table3 : IsTable world3 (.process name) 3 pdpt :=
    ⟨fresh3.page.aligned, adopt_one world4 _ _⟩
  have table2 : IsTable world2 (.process name) 2 pd := ⟨fresh2.page.aligned, adopt_one world3 _ _⟩
  have table1 : IsTable world1 (.process name) 1 pt := ⟨fresh1.page.aligned, adopt_one world2 _ _⟩
  refine ⟨world1, le_trans grown4 (le_trans grown3 (le_trans grown2 grown1)), owned1, ?_, ?_, ?_,
    table1⟩
  · exact ((table4.mono grown3).mono grown2).mono grown1
  · exact (table3.mono grown2).mono grown1
  · exact table2.mono grown1

theorem safe_create_process_page_table {name codePhys stackPhys : Nat}
    (codePage : PageAddress codePhys) (code : owners (codePhys / pageSize) = .leaf name)
    (stackPage : PageAddress stackPhys) (stack : owners (stackPhys / pageSize) = .leaf name) :
    Fallible.Safe (SpaceOwned allocator) owners
      (createProcessPageTable allocator codePhys stackPhys)
      fun later address => Allocated owners later 1 (.table (.process name) 4) address := by
  intro space owned
  apply ends_alloc_page owned
  intro pml4 store1 owned1 fresh4 _
  apply ends_alloc_page owned1
  intro pdpt store2 owned2 fresh3 carry2
  apply ends_alloc_page owned2
  intro pd store3 owned3 fresh2 carry3
  apply ends_alloc_page owned3
  intro pt store4 owned4 fresh1 carry4
  obtain ⟨fresh4, apart43⟩ := carry2 pml4 fresh4
  obtain ⟨fresh4, apart42⟩ := carry3 pml4 fresh4
  obtain ⟨fresh3, apart32⟩ := carry3 pdpt fresh3
  obtain ⟨fresh4, apart41⟩ := carry4 pml4 fresh4
  obtain ⟨fresh3, apart31⟩ := carry4 pdpt fresh3
  obtain ⟨fresh2, apart21⟩ := carry4 pd fresh2
  have kernelRoot : IsTable owners .kernel 4 image.pml4 := ⟨image.aligned.1, owned.kernel.pml4⟩
  have entry : (zeroedTables space.memory pml4 pdpt pd pt).load (image.pml4 + 0 * 8) =
      kernelTableEntry image.pdpt := by
    have zeroed := zero_block_owned (zero_block_owned (zero_block_owned (zero_block_owned owned4
      fresh4.page.aligned fresh4.unowned) fresh3.page.aligned fresh3.unowned)
      fresh2.page.aligned fresh2.unowned) fresh1.page.aligned fresh1.unowned
    have first := root_entry (zeroed.entries _ .kernel 4 kernelRoot.owned 0 (by decide))
    unfold WordMemory.load
    rw [entry_word kernelRoot.aligned]
    exact first
  obtain ⟨later, grown, adopted, table4, table3, table2, table1⟩ :=
    owned_process_tables name owned4 fresh4 fresh3 fresh2 fresh1
      (by simp [apart43, apart42, apart41, apart32, apart31, apart21])
  unfold zeroedTables at entry adopted
  simp only [zeroPages, changeMemory, readEntry, Fallible.bind_modify, Fallible.bind_read]
  rw [entry, kernel_entry_user image, show (writeEntry pml4 0 (kernelTableEntry image.pdpt) :
    Paging Store Unit) = Fallible.modify _ from rfl, Fallible.bind_modify]
  refine ends_of_safe grown adopted (safe_link_process table4 table3 table2 table1 fresh3.page
    fresh2.page fresh1.page codePage (owner_kept grown code (by simp)) stackPage
    (owner_kept grown stack (by simp))) ?_
  intro last address further same
  subst same
  have bound := fresh4.page.representable
  have aligned := fresh4.page.aligned
  simp only [pageSize] at aligned
  refine ⟨fresh4.page.aligned, by simp only [pageSize]; omega, ?_, ?_⟩
  · intro i inside
    rw [show i = 0 by omega]
    exact fresh4.unowned
  · intro i inside
    rw [show i = 0 by omega]
    exact (table4.mono further).owned

end Ferrugem.PagingSafety
