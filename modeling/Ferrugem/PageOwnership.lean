import Ferrugem.PagingModel
import Mathlib.Order.Lattice

/-!
# Frames of address spaces and their owners

Every frame in use by an address space has one owner: it is a table of one
tree at one level, a page of one space, or part of a kernel stack. Ownership
is a ghost assignment that only grows. The invariant is local: each entry of a
table of a process leads to a table of the same tree one level down, or to a
page of the same space, and entry 0 of a root is the kernel's entry. That no
two spaces share a frame follows from it by walking the tables.
-/

namespace Ferrugem.PageOwnership

open Ferrugem.PagingModel

set_option autoImplicit false

theorem low_bit_of_aligned {word : Entry} (aligned : word.toNat % 2 ^ 12 = 0) {i : Nat}
    (low : i < 12) : word.getLsbD i = false := by
  rw [BitVec.getLsbD, ← Nat.div_add_mod word.toNat (2 ^ 12), aligned, Nat.add_zero,
    Nat.testBit_two_pow_mul]
  simp [low]

theorem high_bit_of_small {word : Entry} (small : word.toNat < 2 ^ 12) {i : Nat}
    (high : 12 ≤ i) : word.getLsbD i = false := by
  apply Nat.testBit_lt_two_pow
  exact lt_of_lt_of_le small (Nat.pow_le_pow_right (by decide) high)

theorem flag_bits_bit (i : Nat) : flagBits.getLsbD i = decide (i < 12) := by
  by_cases low : i < 12
  · rw [decide_eq_true low]
    have bits : ∀ j : Fin 12, flagBits.getLsbD j.val = true := by decide
    exact bits ⟨i, low⟩
  · rw [decide_eq_false low]
    exact high_bit_of_small (by decide) (by omega)

theorem has_flag_or {base flags flag : Entry} (aligned : base.toNat % 2 ^ 12 = 0)
    (small : flag.toNat < 2 ^ 12) : hasFlag (base ||| flags) flag = hasFlag flags flag := by
  have same : (base ||| flags) &&& flag = flags &&& flag := by
    apply BitVec.eq_of_getLsbD_eq
    intro i _
    rw [BitVec.getLsbD_and, BitVec.getLsbD_or, BitVec.getLsbD_and]
    by_cases low : i < 12
    · rw [low_bit_of_aligned aligned low, Bool.false_or]
    · rw [@high_bit_of_small flag small i (by omega), Bool.and_false, Bool.and_false]
  unfold hasFlag
  rw [same]

theorem masked_or {base flags : Entry} (aligned : base.toNat % 2 ^ 12 = 0)
    (small : flags.toNat < 2 ^ 12) : (base ||| flags) &&& ~~~flagBits = base := by
  apply BitVec.eq_of_getLsbD_eq
  intro i inside
  rw [BitVec.getLsbD_and, BitVec.getLsbD_or, BitVec.getLsbD_not, flag_bits_bit]
  by_cases low : i < 12
  · rw [low_bit_of_aligned aligned low, decide_eq_true low]
    simp
  · rw [@high_bit_of_small flags small i (by omega), decide_eq_false low]
    simp [inside]

theorem masked_flags_small (entry : Entry) : (entry &&& flagBits).toNat < 2 ^ 12 := by
  rw [BitVec.toNat_and]
  exact Nat.lt_of_le_of_lt Nat.and_le_right (by decide)

/-- An address as `alloc_pages` returns it. -/
structure PageAddress (address : Nat) : Prop where
  aligned : address % pageSize = 0
  representable : address < 2 ^ 52

theorem PageAddress.word {address : Nat} (page : PageAddress address) :
    (BitVec.ofNat 64 address).toNat = address :=
  BitVec.toNat_ofNat address 64 ▸ Nat.mod_eq_of_lt
    (lt_of_lt_of_le page.representable (by decide))

theorem PageAddress.masked {address : Nat} (page : PageAddress address) :
    BitVec.ofNat 64 address &&& ~~~flagBits = BitVec.ofNat 64 address := by
  have kept := @masked_or (BitVec.ofNat 64 address) 0#64 (by rw [page.word]; exact page.aligned)
    (by decide)
  rwa [BitVec.or_zero] at kept

theorem PageAddress.flag {address : Nat} (page : PageAddress address) {flags flag : Entry}
    (small : flag.toNat < 2 ^ 12) :
    hasFlag (BitVec.ofNat 64 address ||| flags) flag = hasFlag flags flag :=
  has_flag_or (by rw [page.word]; exact page.aligned) small

theorem PageAddress.entry_addr {address : Nat} (page : PageAddress address) {flags : Entry}
    (small : flags.toNat < 2 ^ 12) : entryAddr (BitVec.ofNat 64 address ||| flags) = address := by
  unfold entryAddr
  rw [masked_or (by rw [page.word]; exact page.aligned) small, page.word]

theorem PageAddress.cloned_addr {address : Nat} (page : PageAddress address) (entry : Entry) :
    entryAddr (clonedEntry address entry) = address := by
  unfold clonedEntry
  rw [page.masked]
  exact page.entry_addr (masked_flags_small entry)

theorem PageAddress.cloned_flag {address : Nat} (page : PageAddress address) (entry : Entry)
    {flag : Entry} (small : flag.toNat < 2 ^ 12) :
    hasFlag (clonedEntry address entry) flag = hasFlag (entry &&& flagBits) flag := by
  unfold clonedEntry
  rw [page.masked]
  exact page.flag small

theorem entry_addr_aligned (entry : Entry) : entryAddr entry % pageSize = 0 := by
  have clear : (entry &&& ~~~flagBits) &&& flagBits = 0#64 := by
    apply BitVec.eq_of_getLsbD_eq
    intro i inside
    simp [inside]
  have low : entryAddr entry % 2 ^ 12 = (entryAddr entry) &&& (2 ^ 12 - 1) :=
    (Nat.and_two_pow_sub_one_eq_mod _ 12).symm
  have word := congrArg BitVec.toNat clear
  rw [BitVec.toNat_and] at word
  change entryAddr entry % 2 ^ 12 = 0
  rw [low]
  exact word

/-- The kernel's tree of tables, or the tree of one address space. A space is
named by a frame that was allocated for it. -/
inductive Tree where
  | kernel
  | process (space : Nat)
  deriving DecidableEq

inductive Owner where
  | unowned
  | stack
  | table (tree : Tree) (level : Nat)
  | leaf (space : Nat)
  deriving DecidableEq

instance : Preorder Owner where
  le before after := before = .unowned ∨ before = after
  le_refl _ := .inr rfl
  le_trans := by
    rintro first second third (rfl | rfl) later
    · exact .inl rfl
    · exact later

abbrev Owners := Nat → Owner

theorem owner_kept {owners later : Owners} (grown : owners ≤ later) {frame : Nat} {owner : Owner}
    (owned : owners frame = owner) (known : owner ≠ .unowned) : later frame = owner := by
  rcases grown frame with absent | same
  · rw [owned] at absent
    exact absurd absent known
  · rw [← same, owned]

def frameOf (entry : Entry) : Nat := entryAddr entry / pageSize

/-- An entry above the last level is absent or leads to a frame of the owner. -/
def LeadsTo (owners : Owners) (entry : Entry) (owner : Owner) : Prop :=
  hasFlag entry pagePresent = true →
    hasFlag entry pageHuge = false ∧ owners (frameOf entry) = owner

def EntryOk (image : KernelImage) (owners : Owners) (tree : Tree) (level index : Nat)
    (entry : Entry) : Prop :=
  match tree, level with
  | .kernel, 4 => entry = if index = 0 then kernelTableEntry image.pdpt else 0#64
  | .kernel, 3 => LeadsTo owners entry (.table .kernel 2)
  | .kernel, 2 => hasFlag entry pagePresent = true ∧
      (hasFlag entry pageHuge = false → owners (frameOf entry) = .table .kernel 1)
  | .kernel, _ => True
  | .process space, 4 =>
      if index = 0 then entry = kernelTableEntry image.pdpt
      else LeadsTo owners entry (.table (.process space) 3)
  | .process space, 3 => LeadsTo owners entry (.table (.process space) 2)
  | .process space, 2 => LeadsTo owners entry (.table (.process space) 1)
  | .process space, 1 => hasFlag entry pagePresent = true → owners (frameOf entry) = .leaf space
  | .process _, _ => True

theorem leads_to_mono {owners later : Owners} (grown : owners ≤ later) {entry : Entry}
    {owner : Owner} (known : owner ≠ .unowned) (leads : LeadsTo owners entry owner) :
    LeadsTo later entry owner := by
  intro present
  obtain ⟨small, owned⟩ := leads present
  exact ⟨small, owner_kept grown owned known⟩

theorem entry_ok_mono {image : KernelImage} {owners later : Owners} (grown : owners ≤ later)
    {tree : Tree} {level index : Nat} {entry : Entry}
    (ok : EntryOk image owners tree level index entry) :
    EntryOk image later tree level index entry := by
  unfold EntryOk at ok ⊢
  split at ok
  · exact ok
  · exact leads_to_mono grown (by simp) ok
  · exact ⟨ok.1, fun small => owner_kept grown (ok.2 small) (by simp)⟩
  · trivial
  · split_ifs at ok ⊢
    · exact ok
    · exact leads_to_mono grown (by simp) ok
  · exact leads_to_mono grown (by simp) ok
  · exact leads_to_mono grown (by simp) ok
  · exact fun present => owner_kept grown (ok present) (by simp)
  · trivial

theorem absent_zero : hasFlag 0#64 pagePresent = false := by decide

theorem leads_to_zero (owners : Owners) (owner : Owner) : LeadsTo owners 0#64 owner := by
  intro present
  rw [absent_zero] at present
  cases present

theorem entry_ok_zero {image : KernelImage} (owners : Owners) (space : Nat) {level : Nat}
    (below : level ≠ 4) (index : Nat) :
    EntryOk image owners (.process space) level index 0#64 := by
  unfold EntryOk
  split
  · rename_i same
    cases same
  · rename_i same
    cases same
  · rename_i same
    cases same
  · trivial
  · exact absurd rfl below
  · exact leads_to_zero owners _
  · exact leads_to_zero owners _
  · intro present
    rw [absent_zero] at present
    cases present
  · trivial

structure KernelTables (image : KernelImage) (owners : Owners) : Prop where
  pml4 : owners (image.pml4 / pageSize) = .table .kernel 4
  pdpt : owners (image.pdpt / pageSize) = .table .kernel 3
  pd : ∀ gib, gib < 4 → owners (image.pd / pageSize + gib) = .table .kernel 2

theorem kernel_tables_mono {image : KernelImage} {owners later : Owners} (grown : owners ≤ later)
    (tables : KernelTables image owners) : KernelTables image later where
  pml4 := owner_kept grown tables.pml4 (by simp)
  pdpt := owner_kept grown tables.pdpt (by simp)
  pd := fun gib small => owner_kept grown (tables.pd gib small) (by simp)

section

variable {image : KernelImage} {Store : Type} (allocator : PageAllocator image Store)

structure SpaceOwned (owners : Owners) (space : PhysicalSpace Store) : Prop where
  held : ∀ frame, owners frame ≠ .unowned →
    allocator.InUse space.store frame ∨ image.Has frame
  kernel : KernelTables image owners
  entries : ∀ frame tree level, owners frame = .table tree level → ∀ index, index < 512 →
    EntryOk image owners tree level index (space.memory (frame * 512 + index))

def OutsideTables (owners : Owners) (word : Nat) : Prop :=
  ∀ tree level, owners (word / 512) ≠ .table tree level

variable {allocator} {owners : Owners} {space : PhysicalSpace Store}

theorem owned_memory (owned : SpaceOwned allocator owners space) {memory : WordMemory}
    (changes : WordMemory.ChangesOnly (OutsideTables owners) space.memory memory) :
    SpaceOwned allocator owners { space with memory := memory } where
  held := owned.held
  kernel := owned.kernel
  entries := by
    intro frame tree level table index inside
    have same : memory (frame * 512 + index) = space.memory (frame * 512 + index) := by
      apply changes
      intro outside
      apply outside tree level
      rw [show (frame * 512 + index) / 512 = frame by omega]
      exact table
    dsimp only
    rw [same]
    exact owned.entries frame tree level table index inside

theorem owned_store (owned : SpaceOwned allocator owners space) {store : Store}
    (kept : ∀ frame, allocator.InUse space.store frame → allocator.InUse store frame) :
    SpaceOwned allocator owners { space with store := store } where
  held := fun frame known => (owned.held frame known).imp_left (kept frame)
  kernel := owned.kernel
  entries := owned.entries

theorem entry_word {table : Nat} (aligned : table % pageSize = 0) (index : Nat) :
    (table + index * 8) / 8 = table / pageSize * 512 + index := by
  simp only [pageSize] at aligned ⊢
  omega

theorem owned_write (owned : SpaceOwned allocator owners space) {table index level : Nat}
    {tree : Tree} {entry : Entry} (aligned : table % pageSize = 0)
    (isTable : owners (table / pageSize) = .table tree level) (inside : index < 512)
    (ok : EntryOk image owners tree level index entry) :
    SpaceOwned allocator owners
      { space with memory := space.memory.store (table + index * 8) entry } where
  held := owned.held
  kernel := owned.kernel
  entries := by
    intro frame other otherLevel otherTable position within
    simp only [WordMemory.store, entry_word aligned]
    by_cases here : frame * 512 + position = table / pageSize * 512 + index
    · have sameFrame : frame = table / pageSize := by omega
      have samePosition : position = index := by omega
      rw [here, Function.update_self]
      rw [sameFrame, isTable] at otherTable
      cases otherTable
      rw [samePosition]
      exact ok
    · rw [Function.update_of_ne here]
      exact owned.entries frame other otherLevel otherTable position within

def adopt (owners : Owners) (first count : Nat) (owner : Owner) : Owners := fun frame =>
  if first ≤ frame ∧ frame < first + count then owner else owners frame

theorem le_adopt {first count : Nat} {owner : Owner}
    (fresh : ∀ i, i < count → owners (first + i) = .unowned) :
    owners ≤ adopt owners first count owner := by
  intro frame
  unfold adopt
  split_ifs with within
  · have absent := fresh (frame - first) (by omega)
    rw [Nat.add_sub_cancel' within.1] at absent
    exact .inl absent
  · exact .inr rfl

theorem adopt_inside {first count : Nat} {owner : Owner} {i : Nat} (inside : i < count) :
    adopt owners first count owner (first + i) = owner := by
  unfold adopt
  rw [if_pos (by omega)]

theorem owned_adopt (owned : SpaceOwned allocator owners space) {first count : Nat}
    {owner : Owner} (fresh : ∀ i, i < count → owners (first + i) = .unowned)
    (used : ∀ i, i < count → allocator.InUse space.store (first + i))
    (entries : ∀ tree level, owner = .table tree level → ∀ i, i < count → ∀ index, index < 512 →
      EntryOk image (adopt owners first count owner) tree level index
        (space.memory ((first + i) * 512 + index))) :
    SpaceOwned allocator (adopt owners first count owner) space where
  held := by
    intro frame known
    unfold adopt at known
    split_ifs at known with within
    · have inUse := used (frame - first) (by omega)
      rw [Nat.add_sub_cancel' within.1] at inUse
      exact .inl inUse
    · exact owned.held frame known
  kernel := kernel_tables_mono (le_adopt fresh) owned.kernel
  entries := by
    intro frame tree level table index inside
    by_cases within : first ≤ frame ∧ frame < first + count
    · have new : owner = .table tree level := by
        unfold adopt at table
        rwa [if_pos within] at table
      have ok := entries tree level new (frame - first) (by omega) index inside
      rwa [Nat.add_sub_cancel' within.1] at ok
    · have old : owners frame = .table tree level := by
        unfold adopt at table
        rwa [if_neg within] at table
      exact entry_ok_mono (le_adopt fresh) (owned.entries frame tree level old index inside)

theorem unowned_of_unused (owned : SpaceOwned allocator owners space) {frame : Nat}
    (unused : ¬allocator.InUse space.store frame) (outside : ¬image.Has frame) :
    owners frame = .unowned := by
  by_contra known
  rcases owned.held frame known with used | inImage
  · exact unused used
  · exact outside inImage

/-- Frames that user code sees or that decide where the kernel maps: pages and
tables. The kernel never reads the tables that it split for guard pages. -/
def Owner.shared : Owner → Bool
  | .unowned => false
  | .stack => false
  | .table .kernel level => level != 1
  | .table (.process _) _ => true
  | .leaf _ => true

structure TwinsOwned (allocator : PageAllocator image Store) (owners : Owners)
    (first second : PhysicalSpace Store) : Prop where
  owned : SpaceOwned allocator owners first
  store : second.store = first.store
  agree : ∀ word, (owners (word / 512)).shared = true → second.memory word = first.memory word

theorem twins_alike (owned : SpaceOwned allocator owners space) :
    TwinsOwned allocator owners space space where
  owned := owned
  store := rfl
  agree := fun _ _ => rfl

variable {first second : PhysicalSpace Store}

theorem twins_memory (twins : TwinsOwned allocator owners first second)
    {change : WordMemory → WordMemory} (pointwise : WordMemory.Pointwise change)
    (owned : SpaceOwned allocator owners { first with memory := change first.memory }) :
    TwinsOwned allocator owners { first with memory := change first.memory }
      { second with memory := change second.memory } where
  owned := owned
  store := twins.store
  agree := fun word shared => pointwise first.memory second.memory word (twins.agree word shared)

theorem twins_owned (twins : TwinsOwned allocator owners first second) :
    SpaceOwned allocator owners second where
  held := by
    rw [twins.store]
    exact twins.owned.held
  kernel := twins.owned.kernel
  entries := by
    intro frame tree level table index inside
    have ok := twins.owned.entries frame tree level table index inside
    by_cases shared : (Owner.table tree level).shared = true
    · rw [twins.agree]
      · exact ok
      · rw [show (frame * 512 + index) / 512 = frame by omega, table]
        exact shared
    · cases tree with
      | process name => exact absurd rfl shared
      | kernel =>
          have split : level = 1 := by simpa [Owner.shared] using shared
          subst split
          trivial

end

end Ferrugem.PageOwnership
