import Ferrugem.AddressSpaceModel
import Ferrugem.FirstFitFrames

/-!
# Programs only take frames

No function that builds an address space gives a frame back, whether it returns
or fails. So from the first frame on that a failing call takes, the number of
free frames is lower than before the call.
-/

namespace Ferrugem.FrameConsumption

open Ferrugem.PagingModel Ferrugem.ElfLoaderModel Ferrugem.AddressSpaceModel
open Ferrugem.BitmapPages Ferrugem.FirstFitFrames Fallible

set_option autoImplicit false

variable {image : KernelImage} {Store : Type} {allocator : PageAllocator image Store}

def Closed (allocator : PageAllocator image Store) (Inv : Store → Prop) : Prop :=
  ∀ {store pages address after}, allocator.alloc store pages = some (address, after) →
    Inv store → Inv after

/-- The program changes the allocator by allocations only. -/
abbrev Keeps {Value : Type} (Inv : Store → Prop) (prog : Paging Store Value) : Prop :=
  Preserves (fun space => Inv space.store) prog

section

variable {Inv : Store → Prop}

theorem keeps_change (change : WordMemory → WordMemory) : Keeps Inv (changeMemory change) :=
  preserves_modify fun _ inv => inv

theorem keeps_read (table index : Nat) : Keeps Inv (readEntry table index : Paging Store Entry) :=
  preserves_read _

theorem keeps_write_words (address : Nat) (values : List (BitVec 64)) :
    Keeps Inv (writeWords address values) := by
  induction values generalizing address with
  | nil => exact preserves_pure ()
  | cons value rest ih => exact preserves_bind (keeps_change _) fun _ => ih (address + 8)

theorem keeps_push_strings (regionPhys regionVa : Nat) (strings : List Bytes) (off : Nat) :
    Keeps Inv (pushStrings regionPhys regionVa strings off) := by
  induction strings generalizing off with
  | nil => exact preserves_pure _
  | cons bytes rest ih =>
      unfold pushStrings
      split_ifs
      · exact preserves_fail
      · apply preserves_bind (keeps_change _)
        intro _
        exact preserves_bind (ih _) fun _ => preserves_pure _

theorem keeps_setup_abi_stack (regionPhys regionSize stackTopVa : Nat) (argv0 : Bytes)
    (argv envp : List Bytes) (loaded : LoadedImage) (seed : BitVec 64) :
    Keeps Inv (setupAbiStack regionPhys regionSize stackTopVa argv0 argv envp loaded seed) := by
  unfold setupAbiStack
  apply preserves_bind (keeps_change _)
  intro _
  apply preserves_bind (keeps_change _)
  intro _
  apply preserves_bind (keeps_push_strings _ _ _ _)
  intro pushedArgv
  apply preserves_bind (keeps_push_strings _ _ _ _)
  intro pushedEnvp
  dsimp only
  split_ifs
  · exact preserves_fail
  · exact preserves_bind (keeps_write_words _ _) fun _ => preserves_pure _

variable (closed : Closed allocator Inv)

include closed

theorem keeps_alloc_pages (pages : Nat) : Keeps Inv (allocPages allocator pages) := by
  intro space inv
  unfold allocPages
  cases outcome : allocator.alloc space.store pages with
  | none => exact inv
  | some pair => exact closed outcome inv

theorem keeps_try_alloc_pages (pages : Nat) : Keeps Inv (tryAllocPages allocator pages) := by
  intro space inv
  unfold tryAllocPages
  cases outcome : allocator.alloc space.store pages with
  | none => exact inv
  | some pair => exact closed outcome inv

theorem keeps_alloc_zeroed_page : Keeps Inv (allocZeroedPage allocator) := by
  apply preserves_bind (keeps_alloc_pages closed 1)
  intro address
  exact preserves_bind (keeps_change _) fun _ => preserves_pure _

theorem keeps_protect_guard_page (phys : Nat) : Keeps Inv (protectGuardPage allocator phys) := by
  unfold protectGuardPage
  split_ifs
  · exact preserves_pure _
  · apply preserves_bind (keeps_read _ _)
    intro pdEntry
    split_ifs
    · apply preserves_bind (keeps_try_alloc_pages closed 1)
      rintro (_ | table)
      · exact preserves_pure _
      · apply preserves_bind (preserves_for_range fun _ => keeps_change _)
        intro _
        apply preserves_bind (keeps_change _)
        intro _
        exact preserves_bind (keeps_change _) fun _ => preserves_pure _
    · exact preserves_bind (keeps_change _) fun _ => preserves_pure _

theorem keeps_alloc_root (source : Nat) (change : Entry → Entry) :
    Keeps Inv (allocRoot allocator source change) := by
  apply preserves_bind (keeps_alloc_zeroed_page closed)
  intro pml4
  apply preserves_bind (keeps_read _ _)
  intro entry
  exact preserves_bind (keeps_change _) fun _ => preserves_pure _

theorem keeps_next_table (table index : Nat) (top : Bool) :
    Keeps Inv (nextTable allocator table index top) := by
  apply preserves_bind (keeps_read _ _)
  intro entry
  split_ifs
  · exact preserves_fail
  · exact preserves_pure _
  · apply preserves_bind (keeps_alloc_zeroed_page closed)
    intro new
    exact preserves_bind (keeps_change _) fun _ => preserves_pure _

theorem keeps_map_user_page (pml4 va pa : Nat) (prot : BitVec 32) :
    Keeps Inv (mapUserPage allocator pml4 va pa prot) := by
  unfold mapUserPage
  split_ifs
  · exact preserves_fail
  · apply preserves_bind (keeps_next_table closed _ _ _)
    intro pdpt
    apply preserves_bind (keeps_next_table closed _ _ _)
    intro pd
    exact preserves_bind (keeps_next_table closed _ _ _) fun _ => keeps_change _

theorem keeps_create_process_page_table (codePhys stackPhys : Nat) :
    Keeps Inv (createProcessPageTable allocator codePhys stackPhys) := by
  apply preserves_bind (keeps_alloc_pages closed 1)
  intro pml4
  apply preserves_bind (keeps_alloc_pages closed 1)
  intro pdpt
  apply preserves_bind (keeps_alloc_pages closed 1)
  intro pd
  apply preserves_bind (keeps_alloc_pages closed 1)
  intro pt
  iterate 4 refine preserves_bind (keeps_change _) fun _ => ?_
  apply preserves_bind (keeps_read _ _)
  intro kernelEntry
  iterate 6 refine preserves_bind (keeps_change _) fun _ => ?_
  exact preserves_pure _

theorem keeps_map_fresh_page (pt va : Nat) (prot : BitVec 32) :
    Keeps Inv (do
      let phys ← allocZeroedPage allocator
      mapUserPage allocator pt va phys prot) :=
  preserves_bind (keeps_alloc_zeroed_page closed) fun _ => keeps_map_user_page closed _ _ _ _

theorem keeps_clone_leaf (srcPt newPt l : Nat) : Keeps Inv (cloneLeaf allocator srcPt newPt l) := by
  apply preserves_bind (keeps_read _ _)
  intro e1
  split_ifs
  · apply preserves_bind (keeps_alloc_pages closed 1)
    intro newData
    exact preserves_bind (keeps_change _) fun _ => keeps_change _
  · exact preserves_pure _

theorem keeps_clone_pd (srcPd newPd k : Nat) : Keeps Inv (clonePd allocator srcPd newPd k) := by
  apply preserves_bind (keeps_read _ _)
  intro e2
  split_ifs
  · exact keeps_change _
  · apply preserves_bind (keeps_alloc_zeroed_page closed)
    intro newPt
    exact preserves_bind (preserves_for_range (keeps_clone_leaf closed _ _)) fun _ =>
      keeps_change _
  · exact preserves_pure _

theorem keeps_clone_pdpt (srcPdpt newPdpt j : Nat) :
    Keeps Inv (clonePdpt allocator srcPdpt newPdpt j) := by
  apply preserves_bind (keeps_read _ _)
  intro e3
  split_ifs
  · exact keeps_change _
  · apply preserves_bind (keeps_alloc_zeroed_page closed)
    intro newPd
    exact preserves_bind (preserves_for_range (keeps_clone_pd closed _ _)) fun _ =>
      keeps_change _
  · exact preserves_pure _

theorem keeps_clone_pml4 (srcPml4 newPml4 i : Nat) :
    Keeps Inv (clonePml4 allocator srcPml4 newPml4 i) := by
  apply preserves_bind (keeps_read _ _)
  intro e4
  split_ifs
  · apply preserves_bind (keeps_alloc_zeroed_page closed)
    intro newPdpt
    exact preserves_bind (preserves_for_range (keeps_clone_pdpt closed _ _)) fun _ =>
      keeps_change _
  · exact preserves_pure _

theorem keeps_clone_user_page_table (srcPml4 : Nat) :
    Keeps Inv (cloneUserPageTable allocator srcPml4) := by
  apply preserves_bind (keeps_alloc_root closed _ _)
  intro newPml4
  apply preserves_bind (preserves_for_range fun _ => keeps_clone_pml4 closed _ _ _)
  exact fun _ => preserves_pure _

theorem keeps_load_page (data : Bytes) (pt : Nat) (segment : Segment) (pi : Nat) :
    Keeps Inv (loadPage allocator data pt segment pi) := by
  apply preserves_bind (keeps_alloc_zeroed_page closed)
  intro pagePhys
  split
  · exact preserves_bind (keeps_change _) fun _ => keeps_map_user_page closed _ _ _ _
  · exact keeps_map_user_page closed _ _ _ _

theorem keeps_load_segments (data : Bytes) (pt bias : Nat) (headers : List ProgramHeader)
    (maxVa : Nat) : Keeps Inv (loadSegments allocator data pt bias headers maxVa) := by
  induction headers generalizing maxVa with
  | nil => exact preserves_pure _
  | cons ph rest ih =>
      unfold loadSegments
      split_ifs
      · exact ih maxVa
      · split
        · exact preserves_fail
        · apply preserves_bind (preserves_for_range fun _ => keeps_load_page closed _ _ _ _)
          exact fun _ => ih _

theorem keeps_load (data : Bytes) (pt : Nat) : Keeps Inv (load allocator data pt) := by
  unfold load
  split
  · exact preserves_fail
  · dsimp only
    split_ifs
    · exact preserves_fail
    · exact preserves_bind (keeps_load_segments closed _ _ _ _ _) fun _ => preserves_pure _

theorem keeps_map_user_init_stack (pt stackTop : Nat) :
    Keeps Inv (mapUserInitStack allocator pt stackTop) := by
  apply preserves_bind (keeps_alloc_pages closed _)
  intro phys
  apply preserves_bind (keeps_change _)
  intro _
  apply preserves_bind (preserves_for_range fun _ => keeps_map_user_page closed _ _ _ _)
  exact fun _ => preserves_pure _

theorem keeps_load_exec_image (data argv0 : Bytes) (argv envp : List Bytes) (seed : BitVec 64) :
    Keeps Inv (loadExecImage allocator data argv0 argv envp seed) := by
  apply preserves_bind (keeps_alloc_root closed _ _)
  intro pt
  apply preserves_bind (keeps_load closed _ _)
  intro loaded
  apply preserves_bind (keeps_map_user_init_stack closed _ _)
  intro phys
  exact preserves_bind (keeps_setup_abi_stack _ _ _ _ _ _ _ _) fun _ => preserves_pure _

end

section

variable {image : KernelImage}

def freeFrames (space : PhysicalSpace (PageSupply image)) : Nat := space.store.bitmap.clearFrames

theorem alloc_takes {supply after : PageSupply image} {pages address : Nat}
    (allocated : supply.allocPages pages = some (address, after)) :
    after.bitmap.clearFrames + pages = supply.bitmap.clearFrames := by
  obtain ⟨first, _, rfl, inside, free⟩ := PageSupply.alloc_pages_spec allocated
  exact mark_range_clear ⟨inside, free⟩

theorem closed_free_at_most (limit : Nat) :
    Closed (PageSupply.pageAllocator image) fun supply => supply.bitmap.clearFrames ≤ limit := by
  intro supply pages address after allocated bounded
  have takes := alloc_takes allocated
  omega

variable {Value : Type}

def OnlyTakes (prog : Paging (PageSupply image) Value) : Prop :=
  ∀ Inv : PageSupply image → Prop, Closed (PageSupply.pageAllocator image) Inv → Keeps Inv prog

theorem OnlyTakes.free_le {prog : Paging (PageSupply image) Value} (takes : OnlyTakes prog)
    (space : PhysicalSpace (PageSupply image)) : freeFrames (prog space).2 ≤ freeFrames space :=
  takes _ (closed_free_at_most (freeFrames space)) space le_rfl

theorem bind_free_le {Result : Type} {prog : Paging (PageSupply image) Value}
    {next : Value → Paging (PageSupply image) Result} (takes : ∀ value, OnlyTakes (next value))
    (space : PhysicalSpace (PageSupply image)) :
    freeFrames ((prog >>= next) space).2 ≤ freeFrames (prog space).2 := by
  cases outcome : prog space with
  | mk result later =>
      cases result with
      | none =>
          rw [bind_none outcome]
      | some value =>
          rw [bind_some outcome]
          exact (takes value).free_le later

theorem alloc_pages_fails {pages : Nat} {space : PhysicalSpace (PageSupply image)}
    (exhausted : space.store.allocPages pages = none) :
    allocPages (PageSupply.pageAllocator image) pages space = (none, space) := by
  unfold allocPages
  rw [show (PageSupply.pageAllocator image).alloc space.store pages = none from exhausted]

theorem alloc_pages_takes {pages : Nat} {space : PhysicalSpace (PageSupply image)}
    (nonempty : 0 < pages) (available : space.store.allocPages pages ≠ none) :
    freeFrames (allocPages (PageSupply.pageAllocator image) pages space).2 < freeFrames space := by
  cases allocated : space.store.allocPages pages with
  | none => exact absurd allocated available
  | some pair =>
      obtain ⟨address, after⟩ := pair
      have taken : after.bitmap.clearFrames + pages = freeFrames space := alloc_takes allocated
      unfold allocPages
      rw [show (PageSupply.pageAllocator image).alloc space.store pages = some (address, after)
        from allocated]
      change after.bitmap.clearFrames < _
      omega

structure BeginsWith (pages : Nat) (prog : Paging (PageSupply image) Value) : Prop where
  fails : ∀ space, space.store.allocPages pages = none → prog space = (none, space)
  takes : ∀ space, space.store.allocPages pages ≠ none →
    freeFrames (prog space).2 < freeFrames space

theorem begins_with_alloc {pages : Nat} (nonempty : 0 < pages) :
    BeginsWith pages (allocPages (PageSupply.pageAllocator image) pages) :=
  ⟨fun _ exhausted => alloc_pages_fails exhausted,
    fun _ available => alloc_pages_takes nonempty available⟩

theorem BeginsWith.bind {Result : Type} {pages : Nat} {prog : Paging (PageSupply image) Value}
    {next : Value → Paging (PageSupply image) Result} (begins : BeginsWith pages prog)
    (takes : ∀ value, OnlyTakes (next value)) : BeginsWith pages (prog >>= next) :=
  ⟨fun space exhausted => bind_none (begins.fails space exhausted) _,
    fun space available => (bind_free_le takes space).trans_lt (begins.takes space available)⟩

theorem BeginsWith.free_iff {pages : Nat} {prog : Paging (PageSupply image) Value}
    (begins : BeginsWith pages prog) (space : PhysicalSpace (PageSupply image)) :
    freeFrames (prog space).2 = freeFrames space ↔ space.store.allocPages pages = none := by
  constructor
  · intro same
    by_contra available
    exact absurd same (begins.takes space available).ne
  · intro exhausted
    rw [begins.fails space exhausted]

theorem alloc_zeroed_page_begins :
    BeginsWith 1 (allocZeroedPage (PageSupply.pageAllocator image)) :=
  (begins_with_alloc Nat.one_pos).bind fun _ _ _ =>
    preserves_bind (keeps_change _) fun _ => preserves_pure _

end

end Ferrugem.FrameConsumption
