import Ferrugem.AddressTranslation
import Ferrugem.KernelTablesBoot

/-!
# Guard pages are holes in the identity map

`paging::init` maps the first 4 GiB to themselves by 2 MiB pages, and
`protect_guard_page` takes single 4 KiB pages out of that map. The first guard in
a 2 MiB page replaces it by a table of 512 entries; the later ones clear an entry
of that table. What the processor makes of an address is a walk over the tables in
memory, with the rights that the entries on the way leave.
-/

namespace Ferrugem.GuardPages

open Ferrugem.PagingModel Ferrugem.PageOwnership Ferrugem.PagingSafety
open Ferrugem.AddressTranslation Ferrugem.KernelTablesBoot

set_option autoImplicit false

structure Translation where
  address : Nat
  writable : Bool
  user : Bool
  deriving DecidableEq

/-- An access is writable, or open to the user, if every entry on the way is. -/
def Translation.through (entry : Entry) (below : Translation) : Translation :=
  { below with
    writable := hasFlag entry pageWritable && below.writable
    user := hasFlag entry pageUser && below.user }

def walk (memory : WordMemory) (va : Nat) : Nat → Nat → Option Translation
  | 0, _ => none
  | level + 1, table =>
      let entry := entryAt memory table (levelIndex va (level + 1))
      if hasFlag entry pagePresent then
        if level = 0 ∨ (level < 3 ∧ hasFlag entry pageHuge) then
          some
            { address := leafAddress entry va (level + 1)
              writable := hasFlag entry pageWritable
              user := hasFlag entry pageUser }
        else (walk memory va level (entryAddr entry)).map (Translation.through entry)
      else none

def translate (memory : WordMemory) (root va : Nat) : Option Translation := walk memory va 4 root

/-- Present, writable, supervisor, and the address itself. -/
def identity (va : Nat) : Translation where
  address := va
  writable := true
  user := false

def mappedBytes : Nat := 4 * 1024 * 1024 * 1024

variable {image : KernelImage} {Store : Type} (allocator : PageAllocator image Store)

/-- The guards of a sequence of calls for which `protect_guard_page` returned true. -/
def protectGuardPages : List Nat → Paging Store (List Nat)
  | [] => pure []
  | phys :: rest => do
      let punched ← protectGuardPage allocator phys
      let later ← protectGuardPages rest
      pure (if punched then phys :: later else later)

/-- The page directory of a 2 MiB page; the page is entry `region % 512` of it. -/
def directory (image : KernelImage) (region : Nat) : Nat := image.pd + region / 512 * pageSize

def pdEntry (image : KernelImage) (memory : WordMemory) (region : Nat) : Entry :=
  entryAt memory (directory image region) (region % 512)

def regions : Nat := 4 * 512

def smallEntry (page : Nat) : Entry :=
  BitVec.ofNat 64 (page * pageSize) ||| (pagePresent ||| pageWritable)

structure PageTableOf (allocator : PageAllocator image Store) (holes : List Nat)
    (space : PhysicalSpace Store) (region table : Nat) : Prop where
  page : PageAddress table
  inUse : allocator.InUse space.store (table / pageSize)
  outside : ¬image.Has (table / pageSize)
  linked : pdEntry image space.memory region = kernelTableEntry table
  entries : ∀ i, i < 512 → entryAt space.memory table i =
    if region * 512 + i ∈ holes then 0#64 else smallEntry (region * 512 + i)

/-- The identity map without the pages of `holes`; `tables` says which 2 MiB pages
have been split. -/
structure Punched (allocator : PageAllocator image Store) (tables : Nat → Option Nat)
    (holes : List Nat) (space : PhysicalSpace Store) : Prop where
  pml4 : entryAt space.memory image.pml4 0 = kernelTableEntry image.pdpt
  pdpt : ∀ gib, gib < 4 →
    entryAt space.memory image.pdpt gib = kernelTableEntry (image.pd + gib * pageSize)
  whole : ∀ region, region < regions → tables region = none →
    pdEntry image space.memory region = identityEntry (region / 512) (region % 512) ∧
      ∀ i, i < 512 → region * 512 + i ∉ holes
  split : ∀ region table, region < regions → tables region = some table →
    PageTableOf allocator holes space region table
  apart : ∀ first second table, first < regions → second < regions →
    tables first = some table → tables second = some table → first = second

section

variable {memory : WordMemory} {table other index position : Nat}

theorem entry_at_eq (aligned : table % pageSize = 0) :
    entryAt memory table index = memory (table / pageSize * 512 + index) := by
  rw [entryAt, WordMemory.load, entry_word aligned]

theorem entry_store_same (entry : Entry) :
    entryAt (memory.store (table + index * 8) entry) table index = entry := by
  rw [entryAt, WordMemory.load, WordMemory.store, Function.update_self]

theorem entry_store_other (entry : Entry) (aligned : table % pageSize = 0)
    (alignedOther : other % pageSize = 0) (inside : index < 512) (insideOther : position < 512)
    (different : table / pageSize ≠ other / pageSize ∨ index ≠ position) :
    entryAt (memory.store (table + index * 8) entry) other position =
      entryAt memory other position := by
  rw [entry_at_eq alignedOther, entry_at_eq alignedOther, WordMemory.store, entry_word aligned]
  apply Function.update_of_ne
  omega

theorem entry_fill_same (entry : Nat → Entry) (aligned : table % pageSize = 0)
    (inside : index < 512) :
    entryAt (fillTable table 512 entry memory) table index = entry index := by
  have start : table / pageSize * 512 = table / 8 := by
    simp only [pageSize] at aligned ⊢
    omega
  rw [entry_at_eq aligned, start]
  exact fill_table_inside memory inside

theorem entry_fill_other (entry : Nat → Entry) (aligned : table % pageSize = 0)
    (alignedOther : other % pageSize = 0) (inside : position < 512)
    (different : table / pageSize ≠ other / pageSize) :
    entryAt (fillTable table 512 entry memory) other position = entryAt memory other position := by
  rw [entry_at_eq alignedOther, entry_at_eq alignedOther]
  apply fill_table_other
  simp only [pageSize] at aligned alignedOther different ⊢
  omega

end

theorem split_huge_page_eq {table : Nat} (aligned : table % pageSize = 0) (phys : Nat) :
    (splitHugePage table phys : Paging Store Unit) =
      changeMemory (fillTable table 512 fun i => smallEntry (phys / 2 ^ 21 * 512 + i)) := by
  have same (i : Nat) :
      phys / 2 ^ 21 * 2 ^ 21 + i * pageSize = (phys / 2 ^ 21 * 512 + i) * pageSize := by
    simp only [pageSize]
    omega
  rw [← for_range_write_entries aligned]
  unfold splitHugePage smallEntry
  simp only [same]

def splitMemory (image : KernelImage) (table phys : Nat) (memory : WordMemory) : WordMemory :=
  (fillTable table 512 (fun i => smallEntry (phys / 2 ^ 21 * 512 + i)) memory).store
    (directory image (phys / 2 ^ 21) + phys / 2 ^ 21 % 512 * 8) (kernelTableEntry table)

def clearedMemory (table phys : Nat) (memory : WordMemory) : WordMemory :=
  memory.store (table + phys / 2 ^ 12 % 512 * 8) 0#64

inductive GuardCall (allocator : PageAllocator image Store) (phys : Nat)
    (space : PhysicalSpace Store) : Bool → PhysicalSpace Store → Prop where
  | above (high : mappedBytes ≤ phys) : GuardCall allocator phys space false space
  | exhausted (low : phys < mappedBytes) : GuardCall allocator phys space false space
  | small (low : phys < mappedBytes)
      (split : hasFlag (pdEntry image space.memory (phys / 2 ^ 21)) pageHuge = false) :
      GuardCall allocator phys space true
        { space with
          memory := clearedMemory (entryAddr (pdEntry image space.memory (phys / 2 ^ 21))) phys
            space.memory }
  | huge {table : Nat} {store : Store} (low : phys < mappedBytes)
      (whole : hasFlag (pdEntry image space.memory (phys / 2 ^ 21)) pageHuge = true)
      (allocated : allocator.alloc space.store 1 = some (table, store)) :
      GuardCall allocator phys space true
        { memory := clearedMemory (entryAddr (kernelTableEntry table)) phys
            (splitMemory image table phys space.memory)
          store := store }

theorem pd_entry_of_phys {phys : Nat} (low : phys < mappedBytes) (memory : WordMemory) :
    memory.load (image.pd + phys / 2 ^ 30 % 4 * pageSize + phys / 2 ^ 21 % 512 * 8) =
      pdEntry image memory (phys / 2 ^ 21) := by
  have gib : phys / 2 ^ 30 % 4 = phys / 2 ^ 21 / 512 := by
    simp only [mappedBytes] at low
    omega
  rw [gib]
  rfl

theorem protect_guard_page_call (phys : Nat) (space : PhysicalSpace Store) :
    ∃ punched later, protectGuardPage allocator phys space = (some punched, later) ∧
      GuardCall allocator phys space punched later := by
  unfold protectGuardPage
  by_cases high : 4 * 1024 * 1024 * 1024 ≤ phys
  · rw [if_pos high]
    exact ⟨false, space, rfl, .above high⟩
  · have low : phys < mappedBytes := Nat.lt_of_not_le high
    rw [if_neg high]
    simp only [readEntry, Fallible.bind_read, pd_entry_of_phys low]
    cases whole : hasFlag (pdEntry image space.memory (phys / 2 ^ 21)) pageHuge with
    | false =>
        rw [if_neg Bool.false_ne_true]
        exact ⟨true, _, rfl, .small low whole⟩
    | true =>
        rw [if_pos rfl]
        cases allocated : allocator.alloc space.store 1 with
        | none =>
            have failed : tryAllocPages allocator 1 space = (some none, space) := by
              rw [tryAllocPages, allocated]
            rw [Fallible.bind_some failed]
            exact ⟨false, space, rfl, .exhausted low⟩
        | some pair =>
            obtain ⟨table, store⟩ := pair
            have taken : tryAllocPages allocator 1 space =
                (some (some table), { space with store := store }) := by
              rw [tryAllocPages, allocated]
            have gib : phys / 2 ^ 30 % 4 = phys / 2 ^ 21 / 512 := by omega
            rw [Fallible.bind_some taken]
            simp only [split_huge_page_eq (allocator.aligned allocated), gib]
            exact ⟨true, _, rfl, .huge low whole allocated⟩

section

variable {tables : Nat → Option Nat} {holes : List Nat} {space : PhysicalSpace Store}
  {phys : Nat} {allocator}

theorem static_has {table : Nat} (low : image.start ≤ table)
    (high : table + pageSize ≤ image.stop) : image.Has (table / pageSize) := by
  simp only [KernelImage.Has, pageSize] at high ⊢
  omega

theorem directory_page_of {region : Nat} (mapped : region < regions) :
    PageAddress (directory image region) ∧ image.Has (directory image region / pageSize) := by
  have low : region / 512 < 4 := by
    simp only [regions] at mapped
    omega
  have inside := image.inside
  refine ⟨directory_page image low, static_has ?_ ?_⟩
  · unfold directory
    omega
  · simp only [directory, pageSize] at inside ⊢
    omega

theorem region_lt (low : phys < mappedBytes) : phys / 2 ^ 21 < regions := by
  simp only [mappedBytes, regions] at low ⊢
  omega

theorem page_of_phys (phys : Nat) :
    phys / 2 ^ 21 * 512 + phys / 2 ^ 12 % 512 = phys / pageSize := by
  simp only [pageSize]
  omega

theorem static_pages (image : KernelImage) : image.Has (image.pml4 / pageSize) ∧
    image.Has (image.pdpt / pageSize) :=
  ⟨static_has image.inside.1 image.inside.2.1,
    static_has image.inside.2.2.1 image.inside.2.2.2.1⟩

theorem frame_ne_of_has {table other : Nat} (outside : ¬image.Has (table / pageSize))
    (has : image.Has (other / pageSize)) : table / pageSize ≠ other / pageSize := by
  intro same
  rw [same] at outside
  exact outside has

theorem pd_positions {first second : Nat} (different : first ≠ second) :
    directory image first / pageSize ≠ directory image second / pageSize ∨
      first % 512 ≠ second % 512 := by
  have aligned := image.aligned.2.2
  simp only [directory, pageSize] at aligned ⊢
  omega

theorem Punched.clear {table : Nat} (punched : Punched allocator tables holes space)
    (low : phys < mappedBytes) (owner : tables (phys / 2 ^ 21) = some table) :
    Punched allocator tables (phys / pageSize :: holes)
      { space with memory := clearedMemory table phys space.memory } := by
  have mapped := region_lt low
  have own := punched.split _ table mapped owner
  have inside : phys / 2 ^ 12 % 512 < 512 := Nat.mod_lt _ (by decide)
  have elsewhere {other position : Nat} (aligned : other % pageSize = 0) (below : position < 512)
      (apart : table / pageSize ≠ other / pageSize) :
      entryAt (clearedMemory table phys space.memory) other position =
        entryAt space.memory other position :=
    entry_store_other _ own.page.aligned aligned inside below (.inl apart)
  have directories {region : Nat} (known : region < regions) :
      pdEntry image (clearedMemory table phys space.memory) region =
        pdEntry image space.memory region :=
    elsewhere (directory_page_of known).1.aligned (Nat.mod_lt _ (by decide))
      (frame_ne_of_has own.outside (directory_page_of known).2)
  constructor
  · rw [elsewhere image.aligned.1 (by decide) (frame_ne_of_has own.outside (static_pages image).1)]
    exact punched.pml4
  · intro gib below
    rw [elsewhere image.aligned.2.1 (by omega)
      (frame_ne_of_has own.outside (static_pages image).2)]
    exact punched.pdpt gib below
  · intro region known whole
    obtain ⟨entry, avoided⟩ := punched.whole region known whole
    rw [directories known]
    refine ⟨entry, fun i below hole => ?_⟩
    rcases List.mem_cons.mp hole with here | old
    · have same : region = phys / 2 ^ 21 := by
        simp only [pageSize] at here
        omega
      rw [same, owner] at whole
      cases whole
    · exact avoided i below old
  · intro region other known found
    have kept := punched.split region other known found
    refine ⟨kept.page, kept.inUse, kept.outside, ?_, ?_⟩
    · rw [directories known]
      exact kept.linked
    · intro i below
      by_cases same : region = phys / 2 ^ 21
      · subst same
        rw [owner] at found
        cases found
        by_cases cleared : i = phys / 2 ^ 12 % 512
        · subst cleared
          rw [if_pos (by rw [page_of_phys]; exact List.mem_cons_self)]
          exact entry_store_same _
        · have other : phys / 2 ^ 21 * 512 + i ≠ phys / pageSize := by
            rw [← page_of_phys]
            omega
          rw [clearedMemory, entry_store_other _ own.page.aligned own.page.aligned inside below
            (.inr (Ne.symm cleared)), own.entries i below]
          simp only [List.mem_cons, other, false_or]
      · have apart : table ≠ other := fun shared => same (punched.apart _ _ table known
          mapped (shared ▸ found) owner)
        have elsewherePage : region * 512 + i ≠ phys / pageSize := by
          simp only [pageSize]
          omega
        rw [elsewhere kept.page.aligned below (by
            have first := own.page.aligned
            have second := kept.page.aligned
            simp only [pageSize] at first second ⊢
            omega), kept.entries i below]
        simp only [List.mem_cons, elsewherePage, false_or]
  · exact punched.apart

theorem Punched.splitPage {table : Nat} {store : Store}
    (punched : Punched allocator tables holes space) (low : phys < mappedBytes)
    (whole : tables (phys / 2 ^ 21) = none)
    (allocated : allocator.alloc space.store 1 = some (table, store)) :
    Punched allocator (Function.update tables (phys / 2 ^ 21) (some table)) holes
      { memory := splitMemory image table phys space.memory, store := store } := by
  have mapped := region_lt low
  have page : PageAddress table := by
    have bound := allocator.representable allocated
    refine ⟨allocator.aligned allocated, ?_⟩
    simp only [pageSize] at bound
    omega
  have fresh := allocator.unused allocated 0 Nat.one_pos
  have outside : ¬image.Has (table / pageSize) := fresh.2
  have mine : PageAddress (directory image (phys / 2 ^ 21)) ∧
      image.Has (directory image (phys / 2 ^ 21) / pageSize) := directory_page_of mapped
  have inside : phys / 2 ^ 21 % 512 < 512 := Nat.mod_lt _ (by decide)
  -- a word outside the new table and the entry of the 2 MiB page keeps its value
  have elsewhere {other position : Nat} (aligned : other % pageSize = 0) (below : position < 512)
      (apart : table / pageSize ≠ other / pageSize)
      (different : directory image (phys / 2 ^ 21) / pageSize ≠ other / pageSize ∨
        phys / 2 ^ 21 % 512 ≠ position) :
      entryAt (splitMemory image table phys space.memory) other position =
        entryAt space.memory other position := by
    rw [splitMemory, entry_store_other _ mine.1.aligned aligned inside below different,
      entry_fill_other _ page.aligned aligned below apart]
  have directories {region : Nat} (known : region < regions) (other : phys / 2 ^ 21 ≠ region) :
      pdEntry image (splitMemory image table phys space.memory) region =
        pdEntry image space.memory region :=
    elsewhere (directory_page_of known).1.aligned (Nat.mod_lt _ (by decide))
      (frame_ne_of_has outside (directory_page_of known).2) (pd_positions other)
  have statics := image.distinct
  have aligned := image.aligned
  simp only [pageSize] at statics aligned
  constructor
  · rw [elsewhere image.aligned.1 (by decide) (frame_ne_of_has outside (static_pages image).1) (by
      simp only [directory, regions, pageSize] at mapped ⊢
      omega)]
    exact punched.pml4
  · intro gib below
    rw [elsewhere image.aligned.2.1 (by omega) (frame_ne_of_has outside (static_pages image).2) (by
      simp only [directory, regions, pageSize] at mapped ⊢
      omega)]
    exact punched.pdpt gib below
  · intro region known unsplit
    have other : phys / 2 ^ 21 ≠ region := by
      rintro rfl
      rw [Function.update_self] at unsplit
      cases unsplit
    rw [Function.update_of_ne other.symm] at unsplit
    rw [directories known other]
    exact punched.whole region known unsplit
  · intro region found known owner
    by_cases same : phys / 2 ^ 21 = region
    · subst same
      rw [Function.update_self] at owner
      cases owner
      refine ⟨page, allocator.taken allocated 0 Nat.one_pos, outside, entry_store_same _, ?_⟩
      intro i below
      rw [splitMemory, entry_store_other _ mine.1.aligned page.aligned inside below
        (.inl (frame_ne_of_has outside mine.2).symm), entry_fill_same _ page.aligned below,
        if_neg ((punched.whole _ mapped whole).2 i below)]
    · rw [Function.update_of_ne (Ne.symm same)] at owner
      have kept := punched.split region found known owner
      have apart : table / pageSize ≠ found / pageSize := by
        intro shared
        exact fresh.1 (by rw [Nat.add_zero, shared]; exact kept.inUse)
      refine ⟨kept.page, allocator.kept allocated _ kept.inUse, kept.outside, ?_, ?_⟩
      · rw [directories known same]
        exact kept.linked
      · intro i below
        rw [elsewhere kept.page.aligned below apart
          (.inl (frame_ne_of_has kept.outside mine.2).symm)]
        exact kept.entries i below
  · intro first second found knownFirst knownSecond ownFirst ownSecond
    have taken {region : Nat} (known : region < regions) (owner : tables region = some table) :
        False :=
      fresh.1 (by rw [Nat.add_zero]; exact (punched.split region table known owner).inUse)
    by_cases atFirst : first = phys / 2 ^ 21
    · by_cases atSecond : second = phys / 2 ^ 21
      · exact atFirst.trans atSecond.symm
      · rw [atFirst, Function.update_self] at ownFirst
        cases ownFirst
        rw [Function.update_of_ne atSecond] at ownSecond
        exact (taken knownSecond ownSecond).elim
    · rw [Function.update_of_ne atFirst] at ownFirst
      by_cases atSecond : second = phys / 2 ^ 21
      · rw [atSecond, Function.update_self] at ownSecond
        cases ownSecond
        exact (taken knownFirst ownFirst).elim
      · rw [Function.update_of_ne atSecond] at ownSecond
        exact punched.apart first second found knownFirst knownSecond ownFirst ownSecond

theorem kernel_table_entry {table : Nat} (page : PageAddress table) :
    entryAddr (kernelTableEntry table) = table ∧
      hasFlag (kernelTableEntry table) pagePresent = true ∧
      hasFlag (kernelTableEntry table) pageWritable = true ∧
      hasFlag (kernelTableEntry table) pageUser = false ∧
      hasFlag (kernelTableEntry table) pageHuge = false :=
  ⟨page.entry_addr (by decide), page.flag (by decide), page.flag (by decide),
    page.flag (by decide), page.flag (by decide)⟩

theorem Punched.huge_iff {region : Nat} (punched : Punched allocator tables holes space)
    (known : region < regions) :
    hasFlag (pdEntry image space.memory region) pageHuge = true ↔ tables region = none := by
  cases owner : tables region with
  | none =>
      rw [(punched.whole region known owner).1]
      have low : region / 512 < 4 := by
        simp only [regions] at known
        omega
      exact iff_of_true (identity_entry_flags low (Nat.mod_lt _ (by decide))).2 rfl
  | some table =>
      have own := punched.split region table known owner
      rw [own.linked, (kernel_table_entry own.page).2.2.2.2]
      exact iff_of_false Bool.false_ne_true (Option.some_ne_none table)

def holesAfter (holes : List Nat) (phys : Nat) (returned : Bool) : List Nat :=
  if returned then phys / pageSize :: holes else holes

theorem Punched.call {returned : Bool} {later : PhysicalSpace Store}
    (punched : Punched allocator tables holes space)
    (call : GuardCall allocator phys space returned later) :
    ∃ tables', Punched allocator tables' (holesAfter holes phys returned) later := by
  cases call with
  | above _ => exact ⟨tables, punched⟩
  | exhausted _ => exact ⟨tables, punched⟩
  | small low split =>
      cases owner : tables (phys / 2 ^ 21) with
      | none =>
          rw [(punched.huge_iff (region_lt low)).mpr owner] at split
          cases split
      | some table =>
          have own := punched.split _ table (region_lt low) owner
          refine ⟨tables, ?_⟩
          rw [own.linked, (kernel_table_entry own.page).1]
          exact punched.clear low owner
  | huge low whole allocated =>
      rename_i table store
      have divided := punched.splitPage low ((punched.huge_iff (region_lt low)).mp whole) allocated
      have own := divided.split _ table (region_lt low) (Function.update_self _ _ _)
      refine ⟨Function.update tables (phys / 2 ^ 21) (some table), ?_⟩
      rw [(kernel_table_entry own.page).1]
      exact divided.clear low (Function.update_self _ _ _)

theorem Punched.calls (guards : List Nat) (punched : Punched allocator tables holes space) :
    ∃ returned later tables' holes', protectGuardPages allocator guards space =
        (some returned, later) ∧
      Punched allocator tables' holes' later ∧
      ∀ page, page ∈ holes' ↔ page ∈ returned.map (· / pageSize) ∨ page ∈ holes := by
  induction guards generalizing tables holes space with
  | nil => exact ⟨[], space, tables, holes, rfl, punched, fun page => by simp⟩
  | cons phys rest ih =>
      obtain ⟨answer, next, outcome, call⟩ := protect_guard_page_call allocator phys space
      obtain ⟨nextTables, nextPunched⟩ := punched.call call
      obtain ⟨returned, later, tables', holes', others, kept, members⟩ := ih nextPunched
      refine ⟨if answer then phys :: returned else returned, later, tables', holes', ?_, kept,
        ?_⟩
      · rw [protectGuardPages, Fallible.bind_some outcome, Fallible.bind_some others]
        rfl
      · intro page
        rw [members]
        cases answer with
        | false => rfl
        | true =>
            simp only [holesAfter, if_true, List.map_cons, List.mem_cons]
            rw [or_assoc, or_left_comm]

theorem walk_kernel_table {memory : WordMemory} {va level table next : Nat} (upper : 0 < level)
    (page : PageAddress next)
    (linked : entryAt memory table (levelIndex va (level + 1)) = kernelTableEntry next) :
    walk memory va (level + 1) table =
      (walk memory va level next).map fun below => { below with user := false } := by
  obtain ⟨target, present, writable, user, huge⟩ := kernel_table_entry page
  have notLeaf :
      ¬(level = 0 ∨ (level < 3 ∧ hasFlag (kernelTableEntry next) pageHuge = true)) := by
    rw [huge]
    simp [Nat.ne_of_gt upper]
  rw [walk, linked, if_pos present, if_neg notLeaf, target]
  congr 1
  funext below
  simp [Translation.through, writable, user]

theorem walk_small {memory : WordMemory} {va table : Nat} (low : va < mappedBytes)
    (entry : entryAt memory table (levelIndex va 1) = smallEntry (va / pageSize)) :
    walk memory va 1 table = some (identity va) := by
  have page : PageAddress (va / pageSize * pageSize) := by
    simp only [mappedBytes] at low
    constructor
    · exact Nat.mul_mod_left _ _
    · simp only [pageSize]
      omega
  have present : hasFlag (smallEntry (va / pageSize)) pagePresent = true := page.flag (by decide)
  have writable : hasFlag (smallEntry (va / pageSize)) pageWritable = true := page.flag (by decide)
  have user : hasFlag (smallEntry (va / pageSize)) pageUser = false := page.flag (by decide)
  have target : entryAddr (smallEntry (va / pageSize)) = va / pageSize * pageSize :=
    page.entry_addr (by decide)
  have same : leafAddress (smallEntry (va / pageSize)) va 1 = va := by
    rw [leafAddress, target]
    simp only [pageSize]
    omega
  rw [walk, entry, if_pos present, if_pos (.inl rfl), same, writable, user]
  rfl

theorem walk_huge {memory : WordMemory} {va table : Nat} (low : va < mappedBytes)
    (entry : entryAt memory table (levelIndex va 2) =
      identityEntry (va / 2 ^ 21 / 512) (va / 2 ^ 21 % 512)) :
    walk memory va 2 table = some (identity va) := by
  have base : va / 2 ^ 21 / 512 * 2 ^ 30 + va / 2 ^ 21 % 512 * 2 ^ 21 = va / 2 ^ 21 * 2 ^ 21 := by
    omega
  have page : PageAddress (va / 2 ^ 21 * 2 ^ 21) := by
    simp only [mappedBytes] at low
    constructor
    · simp only [pageSize]
      omega
    · omega
  have same : identityEntry (va / 2 ^ 21 / 512) (va / 2 ^ 21 % 512) =
      BitVec.ofNat 64 (va / 2 ^ 21 * 2 ^ 21) ||| (pagePresent ||| pageWritable ||| pageHuge) := by
    rw [identityEntry, base]
  rw [same] at entry
  generalize hugeEntry : BitVec.ofNat 64 (va / 2 ^ 21 * 2 ^ 21) |||
    (pagePresent ||| pageWritable ||| pageHuge) = found at entry
  have present : hasFlag found pagePresent = true := hugeEntry ▸ page.flag (by decide)
  have writable : hasFlag found pageWritable = true := hugeEntry ▸ page.flag (by decide)
  have user : hasFlag found pageUser = false := hugeEntry ▸ page.flag (by decide)
  have huge : hasFlag found pageHuge = true := hugeEntry ▸ page.flag (by decide)
  have target : entryAddr found = va / 2 ^ 21 * 2 ^ 21 := hugeEntry ▸ page.entry_addr (by decide)
  have address : leafAddress found va 2 = va := by
    rw [leafAddress, target, show 3 + 9 * 2 = 21 from rfl, Nat.mul_div_cancel _ (by decide),
      Nat.div_add_mod']
  rw [walk, entry, if_pos present, if_pos (.inr ⟨by decide, huge⟩), address, writable, user]
  rfl

theorem Punched.translate_eq (punched : Punched allocator tables holes space) {va : Nat}
    (low : va < mappedBytes) : translate space.memory image.pml4 va =
      if va / pageSize ∈ holes then none else some (identity va) := by
  have known := region_lt low
  have gib : levelIndex va 3 < 4 ∧ levelIndex va 3 = va / 2 ^ 21 / 512 := by
    simp only [levelIndex, mappedBytes] at low ⊢
    omega
  have first : levelIndex va 4 = 0 := by
    simp only [levelIndex, mappedBytes] at low ⊢
    omega
  have inside : levelIndex va 2 = va / 2 ^ 21 % 512 := rfl
  have dir : image.pd + levelIndex va 3 * pageSize = directory image (va / 2 ^ 21) := by
    rw [gib.2, directory]
  have upper : translate space.memory image.pml4 va =
      (walk space.memory va 3 image.pdpt).map fun below => { below with user := false } :=
    walk_kernel_table (by decide) (pdpt_page image) (first ▸ punched.pml4)
  have middle : walk space.memory va 3 image.pdpt =
      (walk space.memory va 2 (directory image (va / 2 ^ 21))).map
        fun below => { below with user := false } := by
    rw [← dir]
    exact walk_kernel_table (by decide) (directory_page image gib.1) (punched.pdpt _ gib.1)
  rw [upper, middle]
  cases owner : tables (va / 2 ^ 21) with
  | none =>
      obtain ⟨entry, avoided⟩ := punched.whole _ known owner
      have outside := avoided (va / 2 ^ 12 % 512) (Nat.mod_lt _ (by decide))
      rw [page_of_phys] at outside
      rw [if_neg outside, walk_huge low (by rw [inside]; exact entry)]
      rfl
  | some table =>
      have own := punched.split _ table known owner
      have entry := own.entries (va / 2 ^ 12 % 512) (Nat.mod_lt _ (by decide))
      rw [page_of_phys] at entry
      rw [walk_kernel_table (by decide) own.page (by rw [inside]; exact own.linked)]
      by_cases hole : va / pageSize ∈ holes
      · rw [if_pos hole] at entry ⊢
        have absent : walk space.memory va 1 table = none := by
          rw [walk, levelIndex, entry, absent_zero]
          rfl
        rw [absent]
        rfl
      · rw [if_neg hole] at entry ⊢
        rw [walk_small low entry]
        rfl

/-- The map of `init`, with no holes. -/
theorem boot_punched (allocator : PageAllocator image Store) (ram : WordMemory) (store : Store) :
    Punched allocator (fun _ => none) [] (bootSpace image ram store) := by
  have booted : (bootSpace image ram store).memory =
      bootMemory image (zeroedStatics image ram) := by
    rw [bootSpace, init_memory]
  constructor
  · rw [booted, entry_at_eq image.aligned.1, boot_pml4_entry image ram (by decide)]
    rfl
  · intro gib low
    rw [booted, entry_at_eq image.aligned.2.1, boot_pdpt_entry image ram (by omega), if_pos low]
  · intro region known _
    have low : region / 512 < 4 := by
      simp only [regions] at known
      omega
    have place : directory image region / pageSize = image.pd / pageSize + region / 512 := by
      simp only [directory, pageSize]
      omega
    refine ⟨?_, fun _ _ => List.not_mem_nil⟩
    rw [booted, pdEntry, entry_at_eq (directory_page_of known).1.aligned, place,
      boot_pd_entry image ram low (Nat.mod_lt _ (by decide))]
  · intro region table _ owner
    cases owner
  · intro first second table _ _ owner
    cases owner

end

theorem refused_unchanged {allocator : PageAllocator image Store} {phys : Nat}
    {space later : PhysicalSpace Store}
    (outcome : protectGuardPage allocator phys space = (some false, later)) : later = space := by
  obtain ⟨returned, reached, same, call⟩ := protect_guard_page_call allocator phys space
  rw [outcome] at same
  cases same
  cases call <;> rfl

/-- After any guards the map of `init` is the identity on the first 4 GiB, without
the pages of the guards whose calls returned true; a call that returns false leaves
every translation as it is. -/
theorem guards_punch_exact_holes (allocator : PageAllocator image Store) (ram : WordMemory)
    (store : Store) (guards : List Nat) :
    ∃ returned space,
      protectGuardPages allocator guards (bootSpace image ram store) = (some returned, space) ∧
      (∀ va, va < mappedBytes → translate space.memory image.pml4 va =
        if va / pageSize ∈ returned.map (· / pageSize) then none else some (identity va)) ∧
      ∀ phys later, protectGuardPage allocator phys space = (some false, later) →
        ∀ root va, translate later.memory root va = translate space.memory root va := by
  obtain ⟨returned, space, tables, holes, outcome, punched, members⟩ :=
    (boot_punched allocator ram store).calls guards
  refine ⟨returned, space, outcome, ?_, ?_⟩
  · intro va low
    rw [punched.translate_eq low]
    simp only [members, List.not_mem_nil, or_false]
  · intro phys later refused root va
    rw [refused_unchanged refused]

end Ferrugem.GuardPages
