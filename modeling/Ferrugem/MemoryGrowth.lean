import Ferrugem.SegmentOverlays

/-!
# What `brk` and `mmap` map

The loops of `sys_brk` and `sys_mmap` map a count of pages, which comes from sums
that wrap and does not look at where in its page a hint address lies.
-/

namespace Ferrugem.MemoryGrowth

open Ferrugem.PagingModel Ferrugem.ElfLoaderModel Ferrugem.AddressSpaceModel
open Ferrugem.ProcessModel Ferrugem.SchedulerModel Ferrugem.PageMapping Ferrugem.SegmentOverlays
open Ferrugem.BitmapPages Ferrugem.HeapRegions RadixTables Fallible

set_option autoImplicit false

/-- The program reaches the page with the number, with the flags. -/
structure MappedWith (memory : WordMemory) (root page : Nat) (flags : Entry) : Prop where
  canonical : IsCanonical (page * pageSize)
  user : page / 2 ^ 27 % 512 ≠ 0
  translates : ∃ frame, x86Layout.translate memory root (page % 2 ^ 36) = some ⟨frame, flags⟩

def IsMapped (memory : WordMemory) (root page : Nat) : Prop :=
  ∃ flags, MappedWith memory root page flags

variable {image : KernelImage} {Store : Type} {allocator : PageAllocator image Store}

theorem low_page (page : Nat) : x86Layout.IsPage (page % 2 ^ 36) :=
  Nat.mod_lt page (by decide)

section

variable {pt va : Nat} {prot : BitVec 32} {space later : PhysicalSpace Store}

structure FreshMapped (allocator : PageAllocator image Store) (pt va : Nat) (prot : BitVec 32)
    (space later : PhysicalSpace Store) : Prop where
  formed : Formed allocator pt later
  user : va / 2 ^ 39 % 512 ≠ 0
  mapped : ∃ frame, x86Layout.translate later.memory pt (va % 2 ^ 48 / 4096) =
    some ⟨frame, leafFlags prot⟩
  others : ∀ page, x86Layout.IsPage page → page ≠ va % 2 ^ 48 / 4096 →
    x86Layout.translate later.memory pt page = x86Layout.translate space.memory pt page

theorem zeroed_page {page : Nat} {taken : PhysicalSpace Store} (formed : Formed allocator pt space)
    (outcome : (frameMachine (frames allocator)).alloc space = some (page, taken)) :
    let cleared := (frameMachine (frames allocator)).change
      (fun memory => memory.zeroBlock page 4096) taken
    Formed allocator pt cleared ∧ Untabled x86Layout cleared.memory pt (page / 4096) ∧
      (frameMachine (frames allocator)).InUse cleared (page / 4096) ∧
      ∀ other, x86Layout.IsPage other →
        x86Layout.translate cleared.memory pt other =
          x86Layout.translate space.memory pt other := by
  intro cleared
  have unused := (frameMachine (frames allocator)).unused outcome
  obtain ⟨kept, keeps, meets, _⟩ := TreeLayout.Formed.zero_fresh formed (by decide)
    ((frameMachine (frames allocator)).aligned outcome) unused
  have memory : cleared.memory =
      ((frameMachine (frames allocator)).memory space).zeroBlock page 4096 :=
    congrArg (fun before : WordMemory => before.zeroBlock page 4096)
      ((frameMachine (frames allocator)).memory_alloc outcome)
  have inUse := (frameMachine (frames allocator)).taken outcome
  refine ⟨?_, ?_, inUse, ?_⟩
  · have grown := TreeLayout.Formed.mono kept ((frameMachine (frames allocator)).kept outcome)
    rw [← memory] at grown
    exact grown
  · intro other level table isPage visited same
    rw [memory] at visited
    apply unused
    rw [same]
    exact formed.tables isPage ((meets isPage).mp visited)
  · intro other isPage
    rw [memory]
    exact keeps.walks other isPage

theorem fresh_mapped_ends (formed : Formed allocator pt space) :
    Ends (do
        let phys ← allocZeroedPage allocator
        mapUserPage allocator pt va phys prot) space
      (fun _ later => FreshMapped allocator pt va prot space later) (fun _ => True) := by
  rw [x86_alloc_zeroed_page_eq]
  apply ends_bind (@alloc_table_ends _ _ space (fun _ => True) trivial)
  rintro page _ ⟨taken, outcome, rfl⟩
  by_cases kernel : va / 2 ^ 39 % 512 = 0
  · unfold mapUserPage
    rw [if_pos kernel]
    exact ends_fail trivial
  · have bounded := (frameMachine (frames allocator)).bounded outcome
    obtain ⟨ready, untabled, inUse, walks⟩ := zeroed_page formed outcome
    rw [map_user_page_low]
    apply ends_mono (x86_realises_one_page allocator prot (Nat.mod_lt va (by decide))
      (by omega : page < 2 ^ 64) ready)
    · rintro _ later maps
      refine ⟨maps.formed inUse untabled, kernel, ⟨_, maps.mapped⟩, ?_⟩
      intro other isPage different
      exact (maps.others other isPage different).trans (walks other isPage)
    · exact fun _ _ => trivial

structure PagesGrown (allocator : PageAllocator image Store) (pt base : Nat) (prot : BitVec 32)
    (space : PhysicalSpace Store) (count : Nat) (later : PhysicalSpace Store) : Prop where
  formed : Formed allocator pt later
  user : ∀ i, i < count → (base / pageSize + i) / 2 ^ 27 % 512 ≠ 0
  mapped : ∀ i, i < count → ∃ frame,
    x86Layout.translate later.memory pt ((base / pageSize + i) % 2 ^ 36) =
      some ⟨frame, leafFlags prot⟩
  others : ∀ page, x86Layout.IsPage page →
    (∀ i, i < count → page ≠ (base / pageSize + i) % 2 ^ 36) →
    x86Layout.translate later.memory pt page = x86Layout.translate space.memory pt page

theorem map_fresh_pages_ends {base : Nat} (count : Nat) (formed : Formed allocator pt space) :
    Ends (mapFreshPages allocator pt base prot count) space
      (fun _ later => PagesGrown allocator pt base prot space count later) (fun _ => True) := by
  unfold mapFreshPages
  apply @ends_for_range _ space _ _ _ (PagesGrown allocator pt base prot space)
  · exact ⟨formed, nofun, nofun, fun _ _ _ => rfl⟩
  · intro count reached _ grown
    have number : (base + count * pageSize) % wordLimit % 2 ^ 48 / 4096 =
        (base / pageSize + count) % 2 ^ 36 := by
      unfold wordLimit pageSize
      omega
    apply ends_mono (fresh_mapped_ends grown.formed)
    · rintro _ later fresh
      have mapped := fresh.mapped
      have others := fresh.others
      have user := fresh.user
      rw [number] at mapped
      rw [number] at others
      refine ⟨fresh.formed, ?_, ?_, ?_⟩
      · intro i below
        rcases Nat.lt_succ_iff_lt_or_eq.mp below with earlier | rfl
        · exact grown.user i earlier
        · unfold wordLimit pageSize at *
          omega
      · intro i below
        rcases Nat.lt_succ_iff_lt_or_eq.mp below with earlier | rfl
        · by_cases same : (base / pageSize + i) % 2 ^ 36 = (base / pageSize + count) % 2 ^ 36
          · rw [same]
            exact mapped
          · rw [others _ (low_page _) same]
            exact grown.mapped i earlier
        · exact mapped
      · intro page isPage different
        rw [others page isPage (different count (Nat.lt_succ_self count))]
        exact grown.others page isPage fun i below => different i (by omega)
    · exact fun _ _ => trivial

/-- A run of `2^36` pages passes the kernel's part. -/
theorem PagesGrown.few {base count : Nat}
    (grown : PagesGrown allocator pt base prot space count later) : count < 2 ^ 36 := by
  by_contra many
  have passed := grown.user ((2 ^ 36 - base / pageSize % 2 ^ 36) % 2 ^ 36) (by omega)
  omega

theorem PagesGrown.hit {base count page : Nat}
    (grown : PagesGrown allocator pt base prot space count later)
    (canonical : IsCanonical (page * pageSize)) {i : Nat} (below : i < count)
    (same : page % 2 ^ 36 = (base / pageSize + i) % 2 ^ 36) :
    MappedWith later.memory pt page (leafFlags prot) where
  canonical := canonical
  user := by
    have user := grown.user i below
    omega
  translates := by
    rw [same]
    exact grown.mapped i below

theorem PagesGrown.miss {base count page : Nat} {flags : Entry}
    (grown : PagesGrown allocator pt base prot space count later)
    (apart : ∀ i, i < count → page % 2 ^ 36 ≠ (base / pageSize + i) % 2 ^ 36) :
    MappedWith later.memory pt page flags ↔ MappedWith space.memory pt page flags := by
  have same := grown.others _ (low_page page) apart
  constructor
  · rintro ⟨canonical, user, translates⟩
    rw [same] at translates
    exact ⟨canonical, user, translates⟩
  · rintro ⟨canonical, user, translates⟩
    rw [← same] at translates
    exact ⟨canonical, user, translates⟩

end

section

variable (allocator) (system : System Store)

def brkPages (addr : Nat) : Nat :=
  (System.roundUp addr - System.roundUp (currentHeapBrk system.kernel)) / pageSize

/-- The loop of `sys_brk`. -/
def brkLoop (addr : Nat) : Option Unit × PhysicalSpace Store :=
  mapFreshPages allocator (currentPageTable system.kernel)
    (System.roundUp (currentHeapBrk system.kernel)) (protRead ||| protWrite ||| protUser)
    (brkPages system addr) system.space

/-- `base_va`. -/
def mmapBase (addr : Nat) : Nat :=
  if addr ≠ 0 ∧ userBaseVa ≤ addr then addr
  else System.roundUp (currentHeapBrk system.kernel)

def mmapPages (len : Nat) : Nat := (len + 0xFFF) % wordLimit / pageSize

/-- The loop of `sys_mmap`. -/
def mmapLoop (addr len prot : Nat) : Option Unit × PhysicalSpace Store :=
  mapFreshPages allocator (currentPageTable system.kernel) (mmapBase system addr)
    (System.mmapProt prot) (mmapPages len) system.space

def MmapRefused (len flags : Nat) : Prop :=
  len = 0 ∨ flags.testBit System.mapAnonymousBit = false ∨ currentPageTable system.kernel = 0

inductive BrkCase (addr : Nat) : System Store × Int → Prop where
  | keeps (refused : addr = 0 ∨ currentPageTable system.kernel = 0) :
      BrkCase addr (system, System.asIsize (currentHeapBrk system.kernel))
  | lowers (below : addr ≤ currentHeapBrk system.kernel) :
      BrkCase addr
        ({ system with kernel := setHeapBrk system.kernel addr }, System.asIsize addr)
  | grows {space : PhysicalSpace Store} (above : currentHeapBrk system.kernel < addr)
      (has : currentPageTable system.kernel ≠ 0)
      (mapped : brkLoop allocator system addr = (some (), space)) :
      BrkCase addr
        ({ kernel := setHeapBrk system.kernel addr, space := space }, System.asIsize addr)
  | fails {space : PhysicalSpace Store} (above : currentHeapBrk system.kernel < addr)
      (has : currentPageTable system.kernel ≠ 0)
      (mapped : brkLoop allocator system addr = (none, space)) :
      BrkCase addr
        ({ system with space := space }, System.asIsize (currentHeapBrk system.kernel))

theorem brk_case (addr : Nat) : BrkCase allocator system addr (system.sysBrk allocator addr) := by
  unfold System.sysBrk
  dsimp only
  by_cases refused : addr = 0 ∨ currentPageTable system.kernel = 0
  · rw [if_pos refused]
    exact .keeps refused
  · rw [if_neg refused]
    by_cases below : addr ≤ currentHeapBrk system.kernel
    · rw [if_pos below]
      exact .lowers below
    · rw [if_neg below]
      rw [not_or] at refused
      split
      · rename_i outcome
        exact .grows (by omega) refused.2 outcome
      · rename_i outcome
        exact .fails (by omega) refused.2 outcome

/-- The break after a successful `sys_mmap`. -/
def mmapKernel (addr len : Nat) : Kernel :=
  let top := (mmapBase system addr + mmapPages len * pageSize) % wordLimit
  if currentHeapBrk system.kernel < top then setHeapBrk system.kernel top else system.kernel

inductive MmapCase (addr len prot flags : Nat) : System Store × Int → Prop where
  | refuses {code : Int} (refused : MmapRefused system len flags) (error : code < 0) :
      MmapCase addr len prot flags (system, code)
  | maps {space : PhysicalSpace Store} (allowed : ¬MmapRefused system len flags)
      (mapped : mmapLoop allocator system addr len prot = (some (), space)) :
      MmapCase addr len prot flags
        ({ kernel := mmapKernel system addr len, space := space },
          System.asIsize (mmapBase system addr))
  | fails {space : PhysicalSpace Store} (allowed : ¬MmapRefused system len flags)
      (mapped : mmapLoop allocator system addr len prot = (none, space)) :
      MmapCase addr len prot flags ({ system with space := space }, -12)

theorem mmap_case (addr len prot flags : Nat) :
    MmapCase allocator system addr len prot flags
      (system.sysMmap allocator addr len prot flags) := by
  unfold System.sysMmap
  dsimp only
  by_cases empty : len = 0
  · rw [if_pos empty]
    exact .refuses (.inl empty) (by decide)
  by_cases named : flags.testBit System.mapAnonymousBit = false
  · rw [if_neg empty, named, if_pos (by decide)]
    exact .refuses (.inr (.inl named)) (by decide)
  by_cases missing : currentPageTable system.kernel = 0
  · rw [if_neg empty, if_neg (by simpa using named), if_pos missing]
    exact .refuses (.inr (.inr missing)) (by decide)
  have allowed : ¬MmapRefused system len flags := by
    rintro (zero | other | none)
    · exact empty zero
    · exact named other
    · exact missing none
  rw [if_neg empty, if_neg (by simpa using named), if_neg missing]
  split
  · rename_i outcome
    exact .maps allowed outcome
  · rename_i outcome
    exact .fails allowed outcome

end

section

variable (system : System Store)

/-- The page lies between the rounded-up break and the rounded-up address. -/
def InGrowth (addr page : Nat) : Prop :=
  (currentHeapBrk system.kernel + 0xFFF) / pageSize ≤ page ∧ page < (addr + 0xFFF) / pageSize

def BrkCovered (addr : Nat) (after : System Store) : Prop :=
  ∀ page, InGrowth system addr page →
    IsMapped after.space.memory (currentPageTable system.kernel) page

/-- The growth has canonical addresses, and either `addr + 0xFFF` does not wrap
around or all of its pages were mapped before. -/
def BrkCovers (addr : Nat) : Prop :=
  ∀ page, InGrowth system addr page → IsCanonical (page * pageSize) ∧
    (addr + 0xFFF < wordLimit ∨
      IsMapped system.space.memory (currentPageTable system.kernel) page)

def InRange (base len page : Nat) : Prop :=
  base < (page + 1) * pageSize ∧ page * pageSize < base + len

def MmapCovered (addr len prot : Nat) (after : System Store) : Prop :=
  ∀ page, InRange (mmapBase system addr) len page →
    MappedWith after.space.memory (currentPageTable system.kernel) page
      (leafFlags (System.mmapProt prot))

/-- The range has canonical addresses, and its pages are among those counted from
the page of `base` on or were mapped with the same flags before. -/
def MmapCovers (addr len prot : Nat) : Prop :=
  ∀ page, InRange (mmapBase system addr) len page → IsCanonical (page * pageSize) ∧
    (page < mmapBase system addr / pageSize + mmapPages len ∨
      MappedWith system.space.memory (currentPageTable system.kernel) page
        (leafFlags (System.mmapProt prot)))

variable {system}

theorem brk_loop_covers_iff {addr : Nat} {space : PhysicalSpace Store}
    (formed : Formed allocator (currentPageTable system.kernel) system.space)
    (above : currentHeapBrk system.kernel < addr) (bounded : addr < wordLimit)
    (mapped : brkLoop allocator system addr = (some (), space)) :
    BrkCovered system addr { system with space := space } ↔ BrkCovers system addr := by
  have grown := (map_fresh_pages_ends (brkPages system addr) formed).1 () space mapped
  have first : System.roundUp (currentHeapBrk system.kernel) / pageSize =
      (currentHeapBrk system.kernel + 0xFFF) % wordLimit / pageSize := by
    unfold System.roundUp pageSize
    omega
  apply forall_congr'
  intro page
  apply imp_congr_right
  rintro ⟨after, before⟩
  by_cases fits : addr + 0xFFF < wordLimit
  · have counted : page - (currentHeapBrk system.kernel + 0xFFF) / pageSize <
        brkPages system addr := by
      unfold brkPages System.roundUp
      rw [Nat.mod_eq_of_lt fits, Nat.mod_eq_of_lt (by omega)]
      unfold pageSize at *
      omega
    rw [Nat.mod_eq_of_lt (by omega)] at first
    constructor
    · rintro ⟨flags, reached⟩
      exact ⟨reached.canonical, .inl fits⟩
    · rintro ⟨canonical, _⟩
      refine ⟨_, grown.hit canonical counted ?_⟩
      rw [first]
      unfold pageSize at *
      omega
  · have none : brkPages system addr = 0 := by
      unfold brkPages System.roundUp
      unfold wordLimit pageSize at *
      omega
    have same : ∀ flags, MappedWith space.memory (currentPageTable system.kernel) page flags ↔
        MappedWith system.space.memory (currentPageTable system.kernel) page flags := by
      intro flags
      apply grown.miss
      intro i below
      rw [none] at below
      omega
    constructor
    · rintro ⟨flags, reached⟩
      exact ⟨reached.canonical, .inr ⟨flags, (same flags).mp reached⟩⟩
    · rintro ⟨_, wraps | ⟨flags, reached⟩⟩
      · exact absurd wraps fits
      · exact ⟨flags, (same flags).mpr reached⟩

theorem mmap_loop_covers_iff {addr len prot : Nat} {space : PhysicalSpace Store}
    (formed : Formed allocator (currentPageTable system.kernel) system.space)
    (short : len < wordLimit)
    (mapped : mmapLoop allocator system addr len prot = (some (), space)) :
    MmapCovered system addr len prot { system with space := space } ↔
      MmapCovers system addr len prot := by
  have grown := (map_fresh_pages_ends (mmapPages len) formed).1 () space mapped
  have few := grown.few
  apply forall_congr'
  intro page
  apply imp_congr_right
  rintro ⟨after, before⟩
  have first : mmapBase system addr / pageSize ≤ page := by
    unfold pageSize at *
    omega
  by_cases counted : page < mmapBase system addr / pageSize + mmapPages len
  · constructor
    · exact fun reached => ⟨reached.canonical, .inl counted⟩
    · rintro ⟨canonical, _⟩
      apply grown.hit canonical (i := page - mmapBase system addr / pageSize) (by omega)
      congr 1
      omega
  · have apart : ∀ i, i < mmapPages len →
        page % 2 ^ 36 ≠ (mmapBase system addr / pageSize + i) % 2 ^ 36 := by
      intro i below
      -- only the page after the counted ones is left, and the run is short
      unfold mmapPages at *
      unfold wordLimit pageSize at *
      omega
    constructor
    · exact fun reached => ⟨reached.canonical, .inr ((grown.miss apart).mp reached)⟩
    · rintro ⟨_, inside | reached⟩
      · exact absurd inside counted
      · exact (grown.miss apart).mpr reached

/-- The call has mapped as many pages as it has counted. -/
def MmapSucceeds (allocator : PageAllocator image Store) (system : System Store)
    (addr len prot flags : Nat) : Prop :=
  ¬MmapRefused system len flags ∧ (mmapLoop allocator system addr len prot).1 = some ()

/-- For every task with a well-formed page table. -/
theorem growth_covers_request_iff
    (formed : Formed allocator (currentPageTable system.kernel) system.space) :
    (∀ addr, addr < wordLimit → currentHeapBrk system.kernel < addr →
      currentHeapBrk (system.sysBrk allocator addr).1.kernel = addr →
      (BrkCovered system addr (system.sysBrk allocator addr).1 ↔ BrkCovers system addr)) ∧
    ∀ addr len prot flags, len < wordLimit →
      MmapSucceeds allocator system addr len prot flags →
      (system.sysMmap allocator addr len prot flags).2 = System.asIsize (mmapBase system addr) ∧
        (MmapCovered system addr len prot (system.sysMmap allocator addr len prot flags).1 ↔
          MmapCovers system addr len prot) := by
  constructor
  · intro addr bounded above installed
    cases call : system.sysBrk allocator addr with
    | mk after result =>
        have outcome := brk_case allocator system addr
        rw [call] at outcome installed
        cases outcome with
        | keeps => exact absurd installed above.ne
        | lowers below => exact absurd below (by omega)
        | grows _ has mapped => exact brk_loop_covers_iff formed above bounded mapped
        | fails _ _ mapped => exact absurd installed above.ne
  · rintro addr len prot flags short ⟨allowed, succeeds⟩
    cases call : system.sysMmap allocator addr len prot flags with
    | mk after result =>
        have outcome := mmap_case allocator system addr len prot flags
        rw [call] at outcome
        cases outcome with
        | refuses refused => exact absurd refused allowed
        | maps _ mapped => exact ⟨rfl, mmap_loop_covers_iff formed short mapped⟩
        | fails _ mapped =>
            rw [mapped] at succeeds
            cases succeeds

end

/-- A task with an empty address space and its break at `userBaseVa`. -/
def emptySystem : System (PageSupply smallImage) where
  kernel :=
    { (boot.setTask firstSlot
        { Task.newUser 1 0x10F000 0x106000 0 with heapBrk := userBaseVa }) with
      current := firstSlot }
  space := emptyX86

/-- A page and a half by `brk`, and two pages at a hint address by `mmap`. -/
theorem small_growth_covered :
    (currentHeapBrk (emptySystem.sysBrk (PageSupply.pageAllocator smallImage)
        0x8000001800).1.kernel = 0x8000001800 ∧
      BrkCovered emptySystem 0x8000001800
        (emptySystem.sysBrk (PageSupply.pageAllocator smallImage) 0x8000001800).1) ∧
    (emptySystem.sysMmap (PageSupply.pageAllocator smallImage) 0x8000100000 0x1001 3 0x20).2 =
        0x8000100000 ∧
      MmapCovered emptySystem 0x8000100000 0x1001 3
        (emptySystem.sysMmap (PageSupply.pageAllocator smallImage) 0x8000100000 0x1001 3
          0x20).1 := by
  obtain ⟨brk, mmap⟩ := @growth_covers_request_iff _ _ (PageSupply.pageAllocator smallImage)
    emptySystem empty_x86_formed
  have current : currentHeapBrk emptySystem.kernel = 0x8000000000 := rfl
  have base : mmapBase emptySystem 0x8000100000 = 0x8000100000 := by decide
  constructor
  · have installed : currentHeapBrk (emptySystem.sysBrk (PageSupply.pageAllocator smallImage)
        0x8000001800).1.kernel = 0x8000001800 := by decide +kernel
    refine ⟨installed, (brk _ (by decide) (by decide) installed).mpr ?_⟩
    rintro page ⟨_, below⟩
    unfold pageSize at below
    refine ⟨.inl ?_, .inl (by decide)⟩
    unfold pageSize
    omega
  · obtain ⟨returned, covered⟩ := mmap 0x8000100000 0x1001 3 0x20 (by decide)
      ⟨by unfold MmapRefused; decide, by decide +kernel⟩
    refine ⟨by rw [returned, base]; decide, covered.mpr ?_⟩
    rintro page ⟨_, below⟩
    rw [base] at below ⊢
    have counted : mmapPages 0x1001 = 2 := by decide
    unfold pageSize at below ⊢
    refine ⟨.inl ?_, .inl ?_⟩ <;> omega

theorem not_mapped_with {memory : WordMemory} {root page : Nat} {flags : Entry}
    (absent : (x86Layout.translate memory root (page % 2 ^ 36)).isNone = true) :
    ¬MappedWith memory root page flags := by
  rintro ⟨_, _, frame, found⟩
  rw [found] at absent
  cases absent

/-- The process of the first run asks for the whole address space, and for 4096
bytes from the middle of a page. -/
theorem growth_leaves_pages_out :
    (currentHeapBrk (smallExec.1.sysBrk (PageSupply.pageAllocator smallImage)
        (2 ^ 64 - 1)).1.kernel = 2 ^ 64 - 1 ∧
      ¬BrkCovered smallExec.1 (2 ^ 64 - 1)
        (smallExec.1.sysBrk (PageSupply.pageAllocator smallImage) (2 ^ 64 - 1)).1) ∧
    (smallExec.1.sysMmap (PageSupply.pageAllocator smallImage) 0x8000800800 4096 3 0x20).2 =
        0x8000800800 ∧
      ¬MmapCovered smallExec.1 0x8000800800 4096 3
        (smallExec.1.sysMmap (PageSupply.pageAllocator smallImage) 0x8000800800 4096 3 0x20).1 := by
  have current : currentHeapBrk smallExec.1.kernel = 0x8000001000 := by decide +kernel
  have base : mmapBase smallExec.1 0x8000800800 = 0x8000800800 := by decide +kernel
  refine ⟨⟨by decide +kernel, ?_⟩, by decide +kernel, ?_⟩
  · intro covered
    have inside : InGrowth smallExec.1 (2 ^ 64 - 1) 0x8000001 := by
      unfold InGrowth
      rw [current]
      decide
    obtain ⟨flags, reached⟩ := covered 0x8000001 inside
    exact not_mapped_with (by decide +kernel) reached
  · intro covered
    have inside : InRange (mmapBase smallExec.1 0x8000800800) 4096 0x8000801 := by
      unfold InRange
      rw [base]
      decide
    exact not_mapped_with (by decide +kernel) (covered 0x8000801 inside)

end Ferrugem.MemoryGrowth
