import Ferrugem.HeapRegions
import Ferrugem.SpaceIsolation

/-!
# What a new page shows

Two systems that differ only in what their free frames hold are run on. Every
frame that user code gets to see is filled before it is mapped: `spawn_elf`,
`execve_current`, `sys_brk`, `sys_mmap` and a page fault zero it, the code page of
a raw program is written to its end, and `spawn_fork` copies a page that was the
same in both. Only the stack page of a raw program is mapped as it is, so that the
program finds there what the frame held before.
-/

namespace Ferrugem.FreshPages

open Ferrugem.PagingModel Ferrugem.PageOwnership Ferrugem.AddressTranslation
open Ferrugem.AddressSpaceModel Ferrugem.SpaceIsolation Ferrugem.BitmapPages
open Ferrugem.HeapRegions

set_option autoImplicit false

def userLoad (memory : WordMemory) (root va : Nat) : Option (BitVec 64) :=
  (userTranslate memory root va).map memory.load

section

variable {image : KernelImage} {Store : Type}

/-- User code of every task sees the same in both systems. -/
structure SameView (image : KernelImage) (first second : System Store) : Prop where
  kernel : second.kernel = first.kernel
  words : ∀ slot task, first.kernel.tasks slot = some task → ∀ va,
    userLoad second.space.memory (rootOf image task) va =
      userLoad first.space.memory (rootOf image task) va

/-- The systems differ in what free frames hold, and in nothing else. -/
structure FreeFramesDiffer (allocator : PageAllocator image Store)
    (first second : System Store) : Prop where
  kernel : second.kernel = first.kernel
  store : second.space.store = first.space.store
  memory : ∀ word, allocator.InUse first.space.store (word / 512) ∨ image.Has (word / 512) →
    second.space.memory word = first.space.memory word

variable {allocator : PageAllocator image Store} {first second : System Store}

theorem twins_of_free_frames (owned : SystemOwned allocator first)
    (differ : FreeFramesDiffer allocator first second) :
    SystemsRelated image (TwinsOwned allocator) first second := by
  obtain ⟨owners, names, owned⟩ := owned
  refine ⟨differ.kernel, owners, names, owned.booted, ⟨owned.space, differ.store, ?_⟩, owned.tasks⟩
  intro word shared
  apply differ.memory
  apply owned.space.held
  intro unowned
  rw [unowned] at shared
  cases shared

theorem same_view_of_twins (twins : SystemsRelated image (TwinsOwned allocator) first second) :
    SameView image first second := by
  obtain ⟨kernel, owners, names, related⟩ := twins
  refine ⟨kernel, ?_⟩
  intro slot task present va
  unfold userLoad
  rw [twins_translate related present va]
  cases translated : userTranslate first.space.memory (rootOf image task) va with
  | none => rfl
  | some address =>
      have owned : OwnedBy allocator owners names first :=
        ⟨related.booted, related.space.owned, related.tasks⟩
      have leaf := (user_maps_leaf owned present ⟨va, address, translated, rfl⟩).2
      apply congrArg some
      apply related.space.agree
      rw [show address / 8 / 512 = address / pageSize by
        rw [Nat.div_div_eq_div_mul]
        rfl, leaf]
      rfl

/-- From any state that the kernel reaches, two runs that differ in what free
frames hold show user code the same, as long as no call creates a task from a raw
program. -/
theorem fresh_pages_same (allocator : PageAllocator image Store) (ram : WordMemory) (store : Store)
    (before calls : List SpaceCall) {twin : System Store}
    (differ : FreeFramesDiffer allocator ((spaceSystem allocator ram store).runFrom
      (spaceSystem allocator ram store).init before) twin)
    (fills : (spaceSystem allocator ram store).StepsMeet (fun _ call => FillsPages call)
      ((spaceSystem allocator ram store).runFrom (spaceSystem allocator ram store).init before)
      calls) :
    SameView image
      ((spaceSystem allocator ram store).runFrom ((spaceSystem allocator ram store).runFrom
        (spaceSystem allocator ram store).init before) calls)
      ((spaceSystem allocator ram store).runFrom twin calls) := by
  apply same_view_of_twins
  apply EventSystem.runs_stay_related _ (twins_of_free_frames (reached_owned ram store before) differ)
    fills
  intro one two call twins filled
  exact twins_step call filled twins

def scribbled (system : System Store) (address : Nat) (value : BitVec 64) : System Store :=
  { system with
    space := { system.space with memory := system.space.memory.store address value } }

theorem scribbled_differs (system : System Store) {address : Nat}
    (free : ¬allocator.InUse system.space.store (address / pageSize))
    (outside : ¬image.Has (address / pageSize)) (value : BitVec 64) :
    FreeFramesDiffer allocator system (scribbled system address value) where
  kernel := rfl
  store := rfl
  memory := by
    intro word used
    apply WordMemory.store_changes
    rintro rfl
    rw [show address / 8 / 512 = address / pageSize by
      rw [Nat.div_div_eq_div_mul]
      rfl] at used
    rcases used with inUse | inImage
    · exact free inUse
    · exact outside inImage

end

def smallSystem : EventSystem (System (PageSupply smallImage)) SpaceCall Unit :=
  spaceSystem (PageSupply.pageAllocator smallImage) (fun _ => 0#64) smallSupply

/-- The frame that will be the stack page of the first raw program holds a word. -/
def scribbledBoot : System (PageSupply smallImage) := scribbled smallSystem.init 0x111FF8 1#64

theorem scribbled_boot_differs :
    FreeFramesDiffer (PageSupply.pageAllocator smallImage) smallSystem.init scribbledBoot := by
  apply scribbled_differs
  · rintro ⟨bit, _, same, used⟩
    have base : smallSystem.init.space.store.bitmap.memBase = 0x100000 := by decide +kernel
    rw [base] at same
    have place : bit = 17 := by
      simp only [pageSize] at same
      omega
    subst place
    revert used
    decide +kernel
  · unfold KernelImage.Has
    decide

theorem fresh_pages_same_elf :
    SameView smallImage
      (smallSystem.runFrom smallSystem.init
        [.spawnElf onePageElf [] 0#64, .elsewhere firstTaskRuns, .brk 0x8000003000])
      (smallSystem.runFrom scribbledBoot
        [.spawnElf onePageElf [] 0#64, .elsewhere firstTaskRuns, .brk 0x8000003000]) :=
  fresh_pages_same (PageSupply.pageAllocator smallImage) (fun _ => 0#64) smallSupply [] _
    scribbled_boot_differs ⟨trivial, trivial, trivial, trivial⟩

/-- The program reads the word that the frame held while it was free. -/
theorem raw_stack_page_leaks :
    FreeFramesDiffer (PageSupply.pageAllocator smallImage) smallSystem.init scribbledBoot ∧
      ¬SameView smallImage (smallSystem.runFrom smallSystem.init [.spawnUser [0xF4#8]])
        (smallSystem.runFrom scribbledBoot [.spawnUser [0xF4#8]]) := by
  refine ⟨scribbled_boot_differs, ?_⟩
  intro same
  have root : ((smallSystem.runFrom smallSystem.init [.spawnUser [0xF4#8]]).kernel.tasks
      ⟨1, by decide⟩).map (rootOf smallImage) = some 0x112000 := by
    decide +kernel
  obtain ⟨task, present, isRoot⟩ := Option.map_eq_some_iff.mp root
  have word := same.words _ task present 0x800000FFF8
  rw [isRoot] at word
  revert word
  decide +kernel

end Ferrugem.FreshPages
