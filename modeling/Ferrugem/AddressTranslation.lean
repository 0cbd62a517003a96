import Ferrugem.PagingSafety

/-!
# Address translation

What the x86_64 memory management unit makes of the tables in physical memory:
the translation of an access from user mode, and the tables that a walk from a
root visits. In a memory whose frames are owned consistently, a user access of
a process ends in a page of its own space, and every table that any walk visits
is owned as a table.
-/

namespace Ferrugem.AddressTranslation

open Ferrugem.PagingModel Ferrugem.PageOwnership Ferrugem.PagingSafety

set_option autoImplicit false

def entryAt (memory : WordMemory) (table index : Nat) : Entry := memory.load (table + index * 8)

def levelIndex (va level : Nat) : Nat := va / 2 ^ (3 + 9 * level) % 512

def userEntry (entry : Entry) : Bool := hasFlag entry pagePresent && hasFlag entry pageUser

/-- The page that a leaf entry maps, at the level of the table it stands in. -/
def leafAddress (entry : Entry) (va level : Nat) : Nat :=
  entryAddr entry / 2 ^ (3 + 9 * level) * 2 ^ (3 + 9 * level) + va % 2 ^ (3 + 9 * level)

/-- The walk from a table of a level down; each entry on the way must be present
and accessible to the user. -/
def userWalk (memory : WordMemory) (va : Nat) : Nat → Nat → Option Nat
  | 0, _ => none
  | level + 1, table =>
      let entry := entryAt memory table (levelIndex va (level + 1))
      if userEntry entry then
        if level = 0 ∨ (level < 3 ∧ hasFlag entry pageHuge) then
          some (leafAddress entry va (level + 1))
        else userWalk memory va level (entryAddr entry)
      else none

def userTranslate (memory : WordMemory) (root va : Nat) : Option Nat := userWalk memory va 4 root

def UserMaps (memory : WordMemory) (root frame : Nat) : Prop :=
  ∃ va address, userTranslate memory root va = some address ∧ address / pageSize = frame

inductive TableOf (memory : WordMemory) (root : Nat) : Nat → Nat → Prop where
  | root : TableOf memory root 4 root
  | next {level table index : Nat} (above : TableOf memory root (level + 1) table)
      (inside : index < 512) (upper : isUpper level)
      (present : hasFlag (entryAt memory table index) pagePresent = true)
      (link : level = 3 ∨ hasFlag (entryAt memory table index) pageHuge = false) :
      TableOf memory root level (entryAddr (entryAt memory table index))

theorem level_index_lt (va level : Nat) : levelIndex va level < 512 := Nat.mod_lt _ (by decide)

theorem leaf_address_frame (entry : Entry) (va : Nat) :
    leafAddress entry va 1 / pageSize = frameOf entry := by
  have aligned := entry_addr_aligned entry
  unfold leafAddress frameOf
  simp only [pageSize] at aligned ⊢
  omega

variable {image : KernelImage} {Store : Type} {allocator : PageAllocator image Store}
variable {owners : Owners} {space : PhysicalSpace Store}

theorem entry_at_ok (owned : SpaceOwned allocator owners space) {tree : Tree}
    {level table index : Nat} (isTable : IsTable owners tree level table) (inside : index < 512) :
    EntryOk image owners tree level index (entryAt space.memory table index) := by
  unfold entryAt WordMemory.load
  rw [entry_word isTable.aligned]
  exact owned.entries _ tree level isTable.owned index inside

theorem kernel_entry_not_user (image : KernelImage) :
    hasFlag (kernelTableEntry image.pdpt) pageUser = false := by
  unfold kernelTableEntry
  rw [(pdpt_page image).flag (by decide)]
  decide

theorem user_entry_present {entry : Entry} (user : userEntry entry = true) :
    hasFlag entry pagePresent = true := by
  unfold userEntry at user
  rw [Bool.and_eq_true] at user
  exact user.1

theorem user_next_table (owned : SpaceOwned allocator owners space) {name va level table : Nat}
    (bound : level + 1 ≤ 4) (isTable : IsTable owners (.process name) (level + 1) table)
    (user : userEntry (entryAt space.memory table (levelIndex va (level + 1))) = true)
    (above : level ≠ 0) :
    IsTable owners (.process name) level
      (entryAddr (entryAt space.memory table (levelIndex va (level + 1)))) := by
  have ok := entry_at_ok owned isTable (level_index_lt va (level + 1))
  have upper : isUpper level := by
    unfold isUpper
    omega
  by_cases first : level = 3 ∧ levelIndex va (level + 1) = 0
  · obtain ⟨rfl, index⟩ := first
    rw [index] at ok
    have entry := root_entry ok
    rw [index, entry, userEntry, kernel_entry_not_user, Bool.and_false] at user
    cases user
  · rw [entry_ok_upper upper (fun top same => first ⟨top, same⟩)] at ok
    exact LeadsTo.table ok (user_entry_present user)

theorem user_walk_owner (owned : SpaceOwned allocator owners space) {name va address : Nat} :
    ∀ {level table : Nat}, level ≤ 4 → IsTable owners (.process name) level table →
      userWalk space.memory va level table = some address →
      owners (address / pageSize) = .leaf name := by
  intro level
  induction level with
  | zero =>
      intro table _ _ walked
      cases walked
  | succ level ih =>
      intro table bound isTable walked
      have ok := entry_at_ok owned isTable (level_index_lt va (level + 1))
      unfold userWalk at walked
      dsimp only at walked
      split_ifs at walked with user last
      · have present := user_entry_present user
        by_cases zero : level = 0
        · subst zero
          cases walked
          rw [leaf_address_frame]
          exact ok present
        · obtain ⟨low, huge⟩ := last.resolve_left zero
          have upper : isUpper level := by
            unfold isUpper
            omega
          rw [entry_ok_upper upper (by omega)] at ok
          rw [(ok present).1] at huge
          cases huge
      · exact ih (by omega) (user_next_table owned bound isTable user fun zero => last (.inl zero))
          walked

theorem user_walk_twins {first second : PhysicalSpace Store}
    (twins : TwinsOwned allocator owners first second) {name va : Nat} :
    ∀ {level table : Nat}, level ≤ 4 → IsTable owners (.process name) level table →
      userWalk second.memory va level table = userWalk first.memory va level table := by
  intro level
  induction level with
  | zero => exact fun _ _ => rfl
  | succ level ih =>
      intro table bound isTable
      have inside := level_index_lt va (level + 1)
      have same : entryAt second.memory table (levelIndex va (level + 1)) =
          entryAt first.memory table (levelIndex va (level + 1)) := by
        unfold entryAt WordMemory.load
        rw [entry_word isTable.aligned]
        apply twins.agree
        rw [show (table / pageSize * 512 + levelIndex va (level + 1)) / 512 = table / pageSize by
          omega, isTable.owned]
        rfl
      unfold userWalk
      dsimp only
      rw [same]
      split_ifs with user last
      · rfl
      · exact ih (by omega)
          (user_next_table twins.owned bound isTable user fun zero => last (.inl zero))
      · rfl

theorem user_maps_owner (owned : SpaceOwned allocator owners space) {name root frame : Nat}
    (isRoot : IsTable owners (.process name) 4 root) (maps : UserMaps space.memory root frame) :
    owners frame = .leaf name := by
  obtain ⟨va, address, translated, rfl⟩ := maps
  exact user_walk_owner owned (le_refl 4) isRoot translated

theorem kernel_root_table (image : KernelImage) (tables : KernelTables image owners) :
    IsTable owners .kernel 4 image.pml4 := ⟨image.aligned.1, tables.pml4⟩

theorem kernel_translates_nothing (owned : SpaceOwned allocator owners space) (va : Nat) :
    userTranslate space.memory image.pml4 va = none := by
  have ok := entry_at_ok owned (kernel_root_table image owned.kernel) (level_index_lt va 4)
  have closed : userEntry (entryAt space.memory image.pml4 (levelIndex va 4)) = false := by
    simp only [EntryOk] at ok
    rw [ok]
    split_ifs
    · rw [userEntry, kernel_entry_not_user, Bool.and_false]
    · rw [userEntry, absent_zero, Bool.false_and]
  unfold userTranslate userWalk
  dsimp only
  rw [closed]
  rfl

theorem kernel_maps_nothing (owned : SpaceOwned allocator owners space) (frame : Nat) :
    ¬UserMaps space.memory image.pml4 frame := by
  rintro ⟨va, address, translated, _⟩
  rw [kernel_translates_nothing owned va] at translated
  cases translated

theorem pdpt_entry_addr (image : KernelImage) :
    entryAddr (kernelTableEntry image.pdpt) = image.pdpt :=
  (pdpt_page image).entry_addr (by decide)

theorem next_table_owner (owned : SpaceOwned allocator owners space) {tree : Tree}
    {level table index : Nat} (isTable : IsTable owners tree (level + 1) table)
    (inside : index < 512) (upper : isUpper level)
    (present : hasFlag (entryAt space.memory table index) pagePresent = true)
    (link : level = 3 ∨ hasFlag (entryAt space.memory table index) pageHuge = false) :
    ∃ other, IsTable owners other level (entryAddr (entryAt space.memory table index)) := by
  have ok := entry_at_ok owned isTable inside
  by_cases first : level = 3 ∧ index = 0
  · obtain ⟨rfl, rfl⟩ := first
    rw [root_entry ok, pdpt_entry_addr]
    exact ⟨.kernel, image.aligned.2.1, owned.kernel.pdpt⟩
  · cases tree with
    | process name =>
        rw [entry_ok_upper upper fun top same => first ⟨top, same⟩] at ok
        exact ⟨.process name, LeadsTo.table ok present⟩
    | kernel =>
        rcases upper with rfl | rfl | rfl
        · obtain small := link.resolve_left (by decide)
          exact ⟨.kernel, entry_addr_aligned _, ok.2 small⟩
        · exact ⟨.kernel, LeadsTo.table ok present⟩
        · simp only [EntryOk, if_neg fun same => first ⟨rfl, same⟩] at ok
          rw [ok, absent_zero] at present
          cases present

theorem table_of_owner (owned : SpaceOwned allocator owners space) {tree : Tree}
    {root level table : Nat} (isRoot : IsTable owners tree 4 root)
    (visited : TableOf space.memory root level table) :
    ∃ other, IsTable owners other level table := by
  induction visited with
  | root => exact ⟨tree, isRoot⟩
  | next above inside upper present link ih =>
      obtain ⟨other, isTable⟩ := ih
      exact next_table_owner owned isTable inside upper present link

end Ferrugem.AddressTranslation
