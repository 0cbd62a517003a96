import Ferrugem.PagingSafety
import Ferrugem.AddressSpaceModel

/-!
# Building address spaces keeps the owners

The loader, the initial stack, the kernel stacks and the creation paths are
sequences of the accesses of `Ferrugem.PagingSafety`. What they write lies in
frames they have just allocated, or in tables of the tree they build.
-/

namespace Ferrugem.AddressSpaceSafety

open Ferrugem.PagingModel Ferrugem.ElfLoaderModel Ferrugem.AddressSpaceModel
open Ferrugem.PageOwnership Ferrugem.PagingSafety

set_option autoImplicit false

variable {image : KernelImage} {Store : Type} {allocator : PageAllocator image Store}
variable {owners : Owners}

/-- `pages` frames of one owner. -/
structure IsRegion (owners : Owners) (owner : Owner) (address pages : Nat) : Prop where
  aligned : address % pageSize = 0
  owned : ∀ i, i < pages → owners (address / pageSize + i) = owner
  known : owner ≠ .unowned
  plain : ∀ tree level, owner ≠ .table tree level

theorem IsRegion.mono {later : Owners} {owner : Owner} {address pages : Nat}
    (region : IsRegion owners owner address pages) (grown : owners ≤ later) :
    IsRegion later owner address pages where
  aligned := region.aligned
  owned := fun i inside => owner_kept grown (region.owned i inside) region.known
  known := region.known
  plain := region.plain

theorem IsRegion.is_plain {owner : Owner} {address pages : Nat}
    (region : IsRegion owners owner address pages) : IsPlain owners address pages where
  aligned := region.aligned
  plain := by
    intro i inside
    rw [region.owned i inside]
    exact region.plain

theorem Allocated.leaf_region {before : Owners} {pages address name : Nat}
    (allocated : Allocated before owners pages (.leaf name) address) :
    IsRegion owners (.leaf name) address pages where
  aligned := allocated.aligned
  owned := allocated.owned
  known := by simp
  plain := leaf_plain name

theorem stack_plain (tree : Tree) (level : Nat) : Owner.stack ≠ .table tree level := by
  simp

theorem Allocated.stack_region {before : Owners} {pages address : Nat}
    (allocated : Allocated before owners pages .stack address) :
    IsRegion owners .stack address pages where
  aligned := allocated.aligned
  owned := allocated.owned
  known := by simp
  plain := stack_plain

theorem unowned_before {later : Owners} (grown : owners ≤ later) {frame : Nat}
    (fresh : later frame = .unowned) : owners frame = .unowned := by
  rcases grown frame with absent | same
  · exact absent
  · rw [same, fresh]

theorem twin_with_tables {Value : Type} {prog : Paging Store Value}
    {Post : Owners → Value → Prop}
    (twin : KernelTables image owners → Fallible.Twin (TwinsOwned allocator) owners prog Post) :
    Fallible.Twin (TwinsOwned allocator) owners prog Post :=
  fun first second twins => twin twins.owned.kernel first second twins

-- The rules of this part hold for every invariant that writes inside the region
-- keep, and for every relation of two states that such writes keep if they carry
-- nothing from one word to another.

section

variable {World : Type} [Preorder World] {Inv : World → PhysicalSpace Store → Prop}
variable {Rel : World → PhysicalSpace Store → PhysicalSpace Store → Prop} {world : World}

def Writable (Inv : World → PhysicalSpace Store → Prop) (world : World) (address pages : Nat) :
    Prop :=
  ∀ later, world ≤ later → ∀ change : WordMemory → WordMemory,
    (∀ memory, WordMemory.ChangesOnly (WordMemory.inBlock address (pages * pageSize)) memory
      (change memory)) →
    Fallible.Safe Inv later (changeMemory change) fun _ _ => True

def TwinWritable (Rel : World → PhysicalSpace Store → PhysicalSpace Store → Prop) (world : World)
    (address pages : Nat) : Prop :=
  ∀ later, world ≤ later → ∀ change : WordMemory → WordMemory, WordMemory.Pointwise change →
    (∀ memory, WordMemory.ChangesOnly (WordMemory.inBlock address (pages * pageSize)) memory
      (change memory)) →
    Fallible.Twin Rel later (changeMemory change) fun _ _ => True

variable {address pages offset : Nat}

theorem Writable.twin (writable : Writable Inv world address pages) :
    TwinWritable (Fallible.Alone Inv) world address pages :=
  fun later grown change _ inside => Fallible.safe_iff_twin.mp (writable later grown change inside)

theorem TwinWritable.mono {later : World} (writable : TwinWritable Rel world address pages)
    (grown : world ≤ later) : TwinWritable Rel later address pages :=
  fun last further => writable last (le_trans grown further)

theorem twin_write_bytes_in {bytes : List (BitVec 8)}
    (writable : TwinWritable Rel world address pages) (aligned : address % pageSize = 0)
    (within : offset + bytes.length ≤ pages * pageSize) :
    Fallible.Twin Rel world (writeBytes (address + offset) bytes) fun _ _ => True := by
  apply writable world (le_refl world) _ (WordMemory.store_bytes_pointwise _ bytes)
  intro memory word elsewhere
  apply WordMemory.store_bytes_changes
  rintro ⟨low, high⟩
  apply elsewhere
  simp only [WordMemory.inBlock, pageSize] at aligned within ⊢
  omega

theorem twin_write_word_in {value : BitVec 64} (writable : TwinWritable Rel world address pages)
    (aligned : address % pageSize = 0) (within : offset + 8 ≤ pages * pageSize) :
    Fallible.Twin Rel world (writeWord (address + offset) value) fun _ _ => True := by
  apply writable world (le_refl world) _ (WordMemory.store_pointwise _ value)
  intro memory word elsewhere
  apply WordMemory.store_changes
  rintro rfl
  apply elsewhere
  simp only [WordMemory.inBlock, pageSize] at aligned within ⊢
  omega

theorem twin_write_words {words : List (BitVec 64)}
    (writable : TwinWritable Rel world address pages) (aligned : address % pageSize = 0)
    (within : offset + words.length * 8 ≤ pages * pageSize) :
    Fallible.Twin Rel world (writeWords (address + offset) words) fun _ _ => True := by
  induction words generalizing world offset with
  | nil => exact Fallible.twin_pure trivial
  | cons value rest ih =>
      simp only [List.length_cons] at within
      apply Fallible.twin_bind (twin_write_word_in writable aligned (by omega))
      intro later _ grown _
      rw [Nat.add_assoc]
      exact ih (writable.mono grown) (by omega)

end

theorem IsRegion.twin_writable {owner : Owner} {address pages : Nat}
    (region : IsRegion owners owner address pages) :
    TwinWritable (TwinsOwned allocator) owners address pages := by
  intro later grown change pointwise inside
  apply twin_change_memory pointwise
  intro memory word elsewhere
  apply inside
  rintro ⟨low, high⟩
  exact elsewhere (@block_outside later address pages 0 (pages * pageSize) word
    (region.mono grown).is_plain (by omega) low (by omega))

theorem twin_write_stack_frame {guardPhys : Nat} {frame : List (BitVec 64)}
    (region : IsRegion owners .stack guardPhys (1 + stackPages))
    (small : frame.length * 8 ≤ stackSize) :
    Fallible.Twin (TwinsOwned allocator) owners (writeStackFrame (guardPhys + guardSize) frame)
      fun _ _ => True := by
  unfold writeStackFrame
  rw [Nat.add_assoc]
  apply twin_write_words region.twin_writable region.aligned
  simp only [stackSize, guardSize, stackPages, pageSize] at small ⊢
  omega

theorem twin_alloc_kernel_stack :
    Fallible.Twin (TwinsOwned allocator) owners (allocKernelStack allocator)
      fun later guardPhys => Allocated owners later (1 + stackPages) .stack guardPhys := by
  apply Fallible.twin_bind (twin_alloc_stack (1 + stackPages))
  intro later frames grown allocated
  apply Fallible.twin_bind (twin_with_tables fun tables => twin_protect_guard_page tables frames)
  intro guarded _ grownGuarded _
  have stack := allocated.mono (by simp) grownGuarded
  apply Fallible.twin_bind (twin_write_word (Allocated.stack_region stack).is_plain
    (by decide) (by decide))
  intro last _ grownLast _
  exact Fallible.twin_pure (stack.mono (by simp) grownLast)

theorem Allocated.leaf_page {before : Owners} {pages address name : Nat}
    (allocated : Allocated before owners pages (.leaf name) address) {i : Nat}
    (inside : i < pages) :
    PageAddress (address + i * pageSize) ∧
      owners ((address + i * pageSize) / pageSize) = .leaf name := by
  have aligned := allocated.aligned
  have bound := allocated.representable
  have owned := allocated.owned i inside
  simp only [pageSize] at aligned bound owned ⊢
  refine ⟨⟨?_, ?_⟩, ?_⟩
  · simp only [pageSize]
    omega
  · omega
  · rw [show (address + i * 4096) / 4096 = address / 4096 + i by omega]
    exact owned

/-- Pages that an address space can be built of: what is allocated may be
written, and mapped under the root. -/
def PageSource (allocator : PageAllocator image Store) {World : Type} [Preorder World]
    (Inv : World → PhysicalSpace Store → Prop) (world : World) (root : Nat) : Prop :=
  ∀ later, world ≤ later → ∀ pages, Fallible.Safe Inv later (allocPages allocator pages)
    fun last address => address % pageSize = 0 ∧ Writable Inv last address pages ∧
      ∀ further, last ≤ further → ∀ i, i < pages → ∀ va prot,
        Fallible.Safe Inv further (mapUserPage allocator root va (address + i * pageSize) prot)
          fun _ _ => True

def TwinSource (allocator : PageAllocator image Store) {World : Type} [Preorder World]
    (Rel : World → PhysicalSpace Store → PhysicalSpace Store → Prop) (world : World)
    (root : Nat) : Prop :=
  ∀ later, world ≤ later → ∀ pages, Fallible.Twin Rel later
    (allocPages allocator pages >>= fun address => zeroPages address pages >>= fun _ =>
      pure address)
    fun last address => address % pageSize = 0 ∧ TwinWritable Rel last address pages ∧
      ∀ further, last ≤ further → ∀ i, i < pages → ∀ va prot,
        Fallible.Twin Rel further (mapUserPage allocator root va (address + i * pageSize) prot)
          fun _ _ => True

theorem twin_source_owned {name root : Nat} (isRoot : IsTable owners (.process name) 4 root) :
    TwinSource allocator (TwinsOwned allocator) owners root := by
  intro later grown pages
  apply Fallible.twin_mono (twin_alloc_zeroed_pages pages (leaf_blank name))
  intro last address grownLast allocated
  refine ⟨allocated.aligned, (Allocated.leaf_region allocated).twin_writable, ?_⟩
  intro further grownFurther i inside va prot
  obtain ⟨page, leaf⟩ := Allocated.leaf_page (allocated.mono (by simp) grownFurther) inside
  exact twin_map_user_page (((isRoot.mono grown).mono grownLast).mono grownFurther) page leaf

section

variable {World : Type} [Preorder World] {Inv : World → PhysicalSpace Store → Prop}
variable {Rel : World → PhysicalSpace Store → PhysicalSpace Store → Prop}
variable {world : World} {pt : Nat}

theorem PageSource.twin (source : PageSource allocator Inv world pt) :
    TwinSource allocator (Fallible.Alone Inv) world pt := by
  intro later grown pages
  apply Fallible.safe_iff_twin.mp
  apply Fallible.safe_bind (source later grown pages)
  rintro allocated address _ ⟨aligned, writable, maps⟩
  apply Fallible.safe_bind (writable allocated (le_refl allocated) _ fun memory =>
    WordMemory.zero_block_changes memory address (pages * pageSize))
  intro last _ grownLast _
  apply Fallible.safe_pure
  refine ⟨aligned, writable.twin.mono grownLast, ?_⟩
  intro further grownFurther i inside va prot
  exact Fallible.safe_iff_twin.mp (maps further (le_trans grownLast grownFurther) i inside va prot)

theorem TwinSource.mono {later : World} (source : TwinSource allocator Rel world pt)
    (grown : world ≤ later) : TwinSource allocator Rel later pt :=
  fun last further => source last (le_trans grown further)

theorem twin_map_user_init_stack {stackTop : Nat} (source : TwinSource allocator Rel world pt) :
    Fallible.Twin Rel world (mapUserInitStack allocator pt stackTop) fun later phys =>
      phys % pageSize = 0 ∧ TwinWritable Rel later phys userStackPages := by
  unfold mapUserInitStack
  rw [Fallible.bind_return]
  apply Fallible.twin_bind (source world (le_refl world) userStackPages)
  rintro later phys grown ⟨aligned, writable, maps⟩
  apply Fallible.twin_bind (Fallible.twin_for_range ?_)
  · intro last _ grownLast _
    exact Fallible.twin_pure ⟨aligned, writable.mono grownLast⟩
  · intro last i grownLast inside
    exact maps last grownLast i inside _ _

theorem twin_push_strings {regionPhys regionVa off : Nat} {strings : List Bytes}
    (writable : TwinWritable Rel world regionPhys userStackPages)
    (aligned : regionPhys % pageSize = 0) (within : off ≤ userStackPages * pageSize) :
    Fallible.Twin Rel world (pushStrings regionPhys regionVa strings off)
      fun _ pushed => pushed.2 ≤ off := by
  induction strings generalizing world off with
  | nil => exact Fallible.twin_pure (le_refl off)
  | cons bytes rest ih =>
      unfold pushStrings
      split_ifs with short
      · exact Fallible.twin_fail
      · have lower : (off - (bytes.length + 1)) / 8 * 8 + (bytes.length + 1) ≤ off := by omega
        apply Fallible.twin_bind (twin_write_bytes_in writable aligned (by
          rw [List.length_append, List.length_singleton]
          omega))
        intro later _ grown _
        apply Fallible.twin_bind (ih (writable.mono grown) (by omega))
        intro last pushed _ below
        exact Fallible.twin_pure (by dsimp only; omega)

theorem twin_setup_abi_stack {regionPhys stackTopVa : Nat} {argv0 : Bytes}
    {argv envp : List Bytes} {loaded : LoadedImage} {seed : BitVec 64}
    (writable : TwinWritable Rel world regionPhys userStackPages)
    (aligned : regionPhys % pageSize = 0) :
    Fallible.Twin Rel world
      (setupAbiStack regionPhys userStackSize stackTopVa argv0 argv envp loaded seed)
      fun _ _ => True := by
  apply Fallible.twin_bind (twin_write_word_in writable aligned (by decide))
  intro world1 _ grown1 _
  apply Fallible.twin_bind (twin_write_word_in (writable.mono grown1) aligned (by decide))
  intro world2 _ grown2 _
  have writable2 := (writable.mono grown1).mono grown2
  apply Fallible.twin_bind (twin_push_strings writable2 aligned (by decide))
  intro world3 pushedArgv grown3 belowArgv
  have writable3 := writable2.mono grown3
  have top : userStackSize - 16 ≤ userStackPages * pageSize := by decide
  apply Fallible.twin_bind (twin_push_strings writable3 aligned (le_trans belowArgv top))
  intro world4 pushedEnvp grown4 belowEnvp
  dsimp only
  split_ifs with short
  · exact Fallible.twin_fail
  · apply Fallible.twin_bind (twin_write_words (writable3.mono grown4) aligned (by omega))
    intro _ _ _ _
    exact Fallible.twin_pure trivial

theorem fill_within {segment : Segment} {data bytes : Bytes} {pageVa offset : Nat}
    (filled : segment.fill data pageVa = some (offset, bytes)) :
    offset + bytes.length ≤ 1 * pageSize := by
  unfold Segment.fill at filled
  dsimp only at filled
  split_ifs at filled with some
  cases filled
  have high := Nat.mod_le (pageVa + pageSize) wordLimit
  rw [List.length_take]
  omega

theorem twin_zeroed_page (source : TwinSource allocator Rel world pt) :
    Fallible.Twin Rel world (allocZeroedPage allocator) fun later phys =>
      phys % pageSize = 0 ∧ TwinWritable Rel later phys 1 ∧
        ∀ further, later ≤ further → ∀ va prot,
          Fallible.Twin Rel further (mapUserPage allocator pt va phys prot) fun _ _ => True := by
  apply Fallible.twin_mono (source world (le_refl world) 1)
  rintro later phys grown ⟨aligned, writable, maps⟩
  refine ⟨aligned, writable, ?_⟩
  intro further grownFurther va prot
  have mapped := maps further grownFurther 0 (by decide) va prot
  rw [Nat.zero_mul, Nat.add_zero] at mapped
  exact mapped

theorem twin_load_page {pi : Nat} {data : Bytes} {segment : Segment}
    (source : TwinSource allocator Rel world pt) :
    Fallible.Twin Rel world (loadPage allocator data pt segment pi) fun _ _ => True := by
  apply Fallible.twin_bind (twin_zeroed_page source)
  rintro later phys grown ⟨aligned, writable, maps⟩
  dsimp only
  split
  · rename_i offset bytes filled
    apply Fallible.twin_bind (twin_write_bytes_in writable aligned (fill_within filled))
    intro last _ further _
    exact maps last further _ _
  · exact maps later (le_refl later) _ _

theorem segment_end {data : Bytes} {bias : Nat} {ph : ProgramHeader} {segment : Segment}
    (made : segmentOf data bias ph = some segment) : segment.pageEnd < wordLimit := by
  unfold segmentOf at made
  dsimp only at made
  split_ifs at made with short overflow
  cases made
  have below := Nat.div_mul_le_self (biased bias ph.vaddr + ph.memsz + 0xFFF) pageSize
  dsimp only [pageStart]
  omega

theorem twin_load_segments {bias maxVa : Nat} {data : Bytes} {headers : List ProgramHeader}
    (source : TwinSource allocator Rel world pt) (bounded : maxVa < wordLimit) :
    Fallible.Twin Rel world (loadSegments allocator data pt bias headers maxVa)
      fun _ last => last < wordLimit := by
  induction headers generalizing world maxVa with
  | nil => exact Fallible.twin_pure bounded
  | cons ph rest ih =>
      unfold loadSegments
      split_ifs
      · exact ih source bounded
      · split
        · exact Fallible.twin_fail
        · rename_i segment made
          apply Fallible.twin_bind (Fallible.twin_for_range ?_)
          · intro later _ grown _
            exact ih (source.mono grown) (max_lt bounded (segment_end made))
          · intro later i grown _
            exact twin_load_page (source.mono grown)

theorem twin_load {data : Bytes} (source : TwinSource allocator Rel world pt) :
    Fallible.Twin Rel world (load allocator data pt) fun _ loaded =>
      loaded.heapStart < wordLimit := by
  unfold load
  split
  · exact Fallible.twin_fail
  · dsimp only
    split_ifs
    · exact Fallible.twin_fail
    · apply Fallible.twin_bind (twin_load_segments source (by decide))
      intro _ _ _ bounded
      exact Fallible.twin_pure bounded

theorem twin_fill_exec_image {data argv0 : Bytes} {argv envp : List Bytes} {seed : BitVec 64}
    (source : TwinSource allocator Rel world pt) :
    Fallible.Twin Rel world
      (do
        let loaded ← load allocator data pt
        let phys ← mapUserInitStack allocator pt userElfStackTop
        let rsp ← setupAbiStack phys userStackSize userElfStackTop argv0 argv envp loaded seed
        pure ({ pageTable := pt, entry := loaded.entry, rsp := rsp,
                heapStart := loaded.heapStart } : ExecImage))
      fun _ exec => exec.pageTable = pt ∧ exec.heapStart < wordLimit := by
  apply Fallible.twin_bind (twin_load source)
  intro filled loaded grownFilled bounded
  apply Fallible.twin_bind (twin_map_user_init_stack (source.mono grownFilled))
  rintro mapped phys grownMapped ⟨aligned, writable⟩
  apply Fallible.twin_bind (twin_setup_abi_stack writable aligned)
  intro last rsp grownLast _
  exact Fallible.twin_pure ⟨rfl, bounded⟩

end

structure NewSpace (before later : Owners) (name pageTable : Nat) : Prop where
  root : IsTable later (.process name) 4 pageTable
  fresh : before name = .unowned
  known : later name ≠ .unowned

theorem NewSpace.mono {before later last : Owners} {name pageTable : Nat}
    (new : NewSpace before later name pageTable) (grown : later ≤ last) :
    NewSpace before last name pageTable where
  root := new.root.mono grown
  fresh := new.fresh
  known := by
    rw [owner_kept grown rfl new.known]
    exact new.known

theorem NewSpace.of_root {before later : Owners} {pageTable : Nat}
    (allocated : Allocated before later 1 (.table (.process (pageTable / pageSize)) 4) pageTable) :
    NewSpace before later (pageTable / pageSize) pageTable where
  root := allocated.table
  fresh := allocated.fresh 0 (by decide)
  known := by
    rw [allocated.table.owned]
    simp

theorem twin_load_exec_image {data argv0 : Bytes} {argv envp : List Bytes} {seed : BitVec 64} :
    Fallible.Twin (TwinsOwned allocator) owners
      (loadExecImage allocator data argv0 argv envp seed)
      fun later exec => ∃ name, NewSpace owners later name exec.pageTable := by
  apply Fallible.twin_bind (twin_with_tables twin_create_empty)
  intro created pt grown allocated
  have new := NewSpace.of_root allocated
  apply Fallible.twin_mono (twin_fill_exec_image (twin_source_owned new.root))
  rintro later exec grownLater ⟨rfl, _⟩
  exact ⟨_, new.mono grownLater⟩

structure NewStack (later : Owners) (frames : TaskFrames) : Prop where
  aligned : frames.guardPhys % pageSize = 0
  owned : ∀ i, i < 1 + stackPages → later (frames.guardPhys / pageSize + i) = .stack

theorem NewStack.of_allocated {before later : Owners} {frames : TaskFrames}
    (allocated : Allocated before later (1 + stackPages) .stack frames.guardPhys) :
    NewStack later frames where
  aligned := allocated.aligned
  owned := allocated.owned

theorem twin_finish_task {before : Owners} {frames : TaskFrames} {frame : List (BitVec 64)}
    {Post : Owners → TaskFrames → Prop}
    (stack : Allocated before owners (1 + stackPages) .stack frames.guardPhys)
    (small : frame.length * 8 ≤ stackSize)
    (post : ∀ last, owners ≤ last → NewStack last frames → Post last frames) :
    Fallible.Twin (TwinsOwned allocator) owners
      (do
        writeStackFrame (frames.guardPhys + guardSize) frame
        pure frames) Post := by
  apply Fallible.twin_bind (twin_write_stack_frame (Allocated.stack_region stack) small)
  intro last _ grown _
  exact Fallible.twin_pure (post last grown (.of_allocated (stack.mono (by simp) grown)))

def TaskBuilt (before later : Owners) (frames : TaskFrames) : Prop :=
  NewStack later frames ∧ ∃ name, NewSpace before later name frames.pageTable

theorem safe_build_user_task {prog : Bytes} (small : prog.length ≤ pageSize) :
    Fallible.Safe (SpaceOwned allocator) owners (buildUserTask allocator prog)
      (TaskBuilt owners) := by
  apply Fallible.safe_bind (safe_of_twins twin_alloc_kernel_stack)
  intro world1 guardPhys grown1 stack
  let name := guardPhys / pageSize
  apply Fallible.safe_bind (safe_alloc_pages 1 (leaf_plain name))
  intro world2 codePhys grown2 code
  apply Fallible.safe_bind (safe_alloc_pages 1 (leaf_plain name))
  intro world3 ustackPhys grown3 ustack
  have code3 := code.mono (by simp) grown3
  have written : 0 + (prog ++ List.replicate (pageSize - prog.length) 0#8).length ≤
      1 * pageSize := by
    rw [List.length_append, List.length_replicate]
    omega
  apply Fallible.safe_bind
    (@safe_write_bytes _ _ _ _ codePhys 1 0 _ (Allocated.leaf_region code3).is_plain written)
  intro world4 _ grown4 _
  have codePage := (Allocated.leaf_page (code3.mono (by simp) grown4) Nat.zero_lt_one).2
  have ustackPage := (Allocated.leaf_page (ustack.mono (by simp) grown4) Nat.zero_lt_one).2
  rw [Nat.zero_mul, Nat.add_zero] at codePage ustackPage
  apply Fallible.safe_bind
    (safe_create_process_page_table code.page codePage ustack.page ustackPage)
  intro world5 pt grown5 root
  have upTo5 := le_trans grown2 (le_trans grown3 (le_trans grown4 grown5))
  have stack5 := stack.mono (by simp) upTo5
  apply safe_of_twins
  apply @twin_finish_task _ _ _ _ _ { guardPhys := guardPhys, pageTable := pt, heapBrk := 0 } _ _
    stack5
  · simp [userFrame, stackSize, stackPages, pageSize]
  · intro last grownLast newStack
    refine ⟨newStack, name, root.table.mono grownLast, ?_, ?_⟩
    · exact stack.fresh 0 (by decide)
    · have owned := newStack.owned 0 (by decide)
      dsimp only at owned
      rw [Nat.add_zero] at owned
      rw [owned]
      simp

theorem twin_build_elf_task {data argv0 : Bytes} {seed : BitVec 64} :
    Fallible.Twin (TwinsOwned allocator) owners (buildElfTask allocator data argv0 seed)
      (TaskBuilt owners) := by
  apply Fallible.twin_bind twin_alloc_kernel_stack
  intro world1 guardPhys grown1 stack
  apply Fallible.twin_bind twin_load_exec_image
  rintro world2 exec grown2 ⟨name, new⟩
  apply @twin_finish_task _ _ _ _ _
    { guardPhys := guardPhys, pageTable := exec.pageTable, heapBrk := exec.heapStart } _ _
    (stack.mono (by simp) grown2)
  · simp [userFrame, stackSize, stackPages, pageSize]
  · intro last grownLast newStack
    have kept := new.mono grownLast
    exact ⟨newStack, name, kept.root, unowned_before grown1 kept.fresh, kept.known⟩

theorem twin_build_fork_task {name parentPt rip rsp : Nat} {registers : ForkRegisters}
    (parent : IsTable owners (.process name) 4 parentPt) :
    Fallible.Twin (TwinsOwned allocator) owners
      (buildForkTask allocator parentPt rip rsp registers) (TaskBuilt owners) := by
  apply Fallible.twin_bind twin_alloc_kernel_stack
  intro world1 guardPhys grown1 stack
  apply Fallible.twin_bind (twin_clone_user_page_table (parent.mono grown1))
  intro world2 childPt grown2 allocated
  have new := NewSpace.of_root allocated
  apply @twin_finish_task _ _ _ _ _
    { guardPhys := guardPhys, pageTable := childPt, heapBrk := 0 } _ _
    (stack.mono (by simp) grown2)
  · simp [forkFrame, stackSize, stackPages, pageSize]
  · intro last grownLast newStack
    have kept := new.mono grownLast
    exact ⟨newStack, _, kept.root, unowned_before grown1 kept.fresh, kept.known⟩

theorem twin_build_kernel_task {entry : BitVec 64} :
    Fallible.Twin (TwinsOwned allocator) owners (buildKernelTask allocator entry)
      fun later frames => NewStack later frames ∧ frames.pageTable = 0 := by
  apply Fallible.twin_bind twin_alloc_kernel_stack
  intro world1 guardPhys grown1 stack
  apply @twin_finish_task _ _ _ _ _
    { guardPhys := guardPhys, pageTable := 0, heapBrk := 0 } _ _ stack
  · simp [kernelFrame, stackSize, stackPages, pageSize]
  · intro last _ newStack
    exact ⟨newStack, rfl⟩

theorem twin_map_fresh_page {name pt va : Nat} {prot : BitVec 32}
    (root : IsTable owners (.process name) 4 pt) :
    Fallible.Twin (TwinsOwned allocator) owners
      (do
        let phys ← allocZeroedPage allocator
        mapUserPage allocator pt va phys prot) fun _ _ => True := by
  apply Fallible.twin_bind (twin_zeroed_page (twin_source_owned root))
  rintro later phys grown ⟨_, _, maps⟩
  exact maps later (le_refl later) va prot

theorem twin_map_fresh_pages {name pt base count : Nat} {prot : BitVec 32}
    (root : IsTable owners (.process name) 4 pt) :
    Fallible.Twin (TwinsOwned allocator) owners (mapFreshPages allocator pt base prot count)
      fun _ _ => True := by
  apply Fallible.twin_for_range
  intro later i grown _
  exact twin_map_fresh_page (root.mono grown)

end Ferrugem.AddressSpaceSafety
