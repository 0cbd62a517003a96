import Ferrugem.FrameConsumption
import Ferrugem.MemoryGrowth

/-!
# Failed growth of an address space

`sys_brk` and `sys_mmap` map one page after another and return at the first one
that fails. What was mapped before it stays.
-/

namespace Ferrugem.FailedGrowth

open Ferrugem.PagingModel Ferrugem.ElfLoaderModel Ferrugem.AddressSpaceModel
open Ferrugem.ProcessModel Ferrugem.SchedulerModel Ferrugem.PageMapping Ferrugem.BitmapPages
open Ferrugem.HeapRegions Ferrugem.MemoryGrowth Ferrugem.FrameConsumption RadixTables Fallible

set_option autoImplicit false

variable {image : KernelImage}

/-- The address space of the task, its break and the number of free frames are
what they were. -/
structure GrowthUndone (before after : System (PageSupply image)) : Prop where
  translation : ∀ page,
    x86Layout.translate after.space.memory (currentPageTable after.kernel) page =
      x86Layout.translate before.space.memory (currentPageTable before.kernel) page
  heapBrk : currentHeapBrk after.kernel = currentHeapBrk before.kernel
  frames : freeFrames after.space = freeFrames before.space

theorem GrowthUndone.refl (system : System (PageSupply image)) : GrowthUndone system system :=
  ⟨fun _ => rfl, rfl, rfl⟩

section

variable {space : PhysicalSpace (PageSupply image)} {pt base count : Nat} {prot : BitVec 32}

theorem map_fresh_pages_begins (pt base : Nat) (prot : BitVec 32) (some : count ≠ 0) :
    BeginsWith 1 (mapFreshPages (PageSupply.pageAllocator image) pt base prot count) := by
  unfold mapFreshPages
  cases count with
  | zero => exact absurd rfl some
  | succ count =>
      induction count with
      | zero =>
          rw [for_range_succ, for_range_zero]
          exact alloc_zeroed_page_begins.bind fun _ _ closed => keeps_map_user_page closed _ _ _ _
      | succ count ih =>
          rw [for_range_succ]
          exact (ih (Nat.succ_ne_zero count)).bind fun _ _ closed =>
            keeps_map_fresh_page closed _ _ _

theorem map_no_fresh_page :
    mapFreshPages (PageSupply.pageAllocator image) pt base prot 0 space = (some (), space) := by
  unfold mapFreshPages
  rw [for_range_zero]
  rfl

end

section

variable {system : System (PageSupply image)} {space : PhysicalSpace (PageSupply image)}

/-- A loop that fails has pages to map, and leaves nothing only if there is no
frame for the first of them. -/
theorem failed_loop_undone_iff {base count : Nat} {prot : BitVec 32}
    (failed : mapFreshPages (PageSupply.pageAllocator image) (currentPageTable system.kernel) base
      prot count system.space = (none, space)) :
    count ≠ 0 ∧ (GrowthUndone system { system with space := space } ↔
      system.space.store.allocPages 1 = none) := by
  have some : count ≠ 0 := by
    rintro rfl
    rw [map_no_fresh_page] at failed
    cases failed
  have begins : BeginsWith 1 (mapFreshPages (PageSupply.pageAllocator image)
      (currentPageTable system.kernel) base prot count) := map_fresh_pages_begins _ _ _ some
  have sameFree := begins.free_iff system.space
  rw [failed] at sameFree
  refine ⟨some, fun undone => sameFree.mp undone.frames, ?_⟩
  intro exhausted
  rw [begins.fails system.space exhausted] at failed
  cases failed
  exact GrowthUndone.refl system

theorem as_isize_injective {first second : Nat} (small : first < wordLimit)
    (alsoSmall : second < wordLimit) (same : System.asIsize first = System.asIsize second) :
    first = second := by
  have equal : BitVec.ofNat 64 first = BitVec.ofNat 64 second := BitVec.eq_of_toInt_eq same
  have values := congrArg BitVec.toNat equal
  rw [BitVec.toNat_ofNat, BitVec.toNat_ofNat] at values
  unfold wordLimit at *
  omega

theorem failed_brk_undone_iff {addr : Nat} (above : currentHeapBrk system.kernel < addr)
    (bounded : addr < wordLimit)
    (old : (system.sysBrk (PageSupply.pageAllocator image) addr).2 =
      System.asIsize (currentHeapBrk system.kernel)) :
    GrowthUndone system (system.sysBrk (PageSupply.pageAllocator image) addr).1 ↔
      currentPageTable system.kernel = 0 ∨ system.space.store.allocPages 1 = none := by
  cases call : system.sysBrk (PageSupply.pageAllocator image) addr with
  | mk after result =>
      have outcome := brk_case (PageSupply.pageAllocator image) system addr
      rw [call] at outcome old
      cases outcome with
      | keeps refused =>
          have missing : currentPageTable system.kernel = 0 := by omega
          exact ⟨fun _ => .inl missing, fun _ => GrowthUndone.refl system⟩
      | lowers below => exact absurd below (by omega)
      | grows => exact absurd (as_isize_injective bounded (above.trans bounded) old) above.ne'
      | fails _ has failed =>
          rw [(failed_loop_undone_iff failed).2]
          exact ⟨.inr, fun cases => cases.resolve_left has⟩

theorem mmap_base_bounded {addr : Nat} (bounded : addr < wordLimit) :
    mmapBase system addr < wordLimit := by
  unfold mmapBase
  split_ifs
  · exact bounded
  · exact round_up_bounded _

/-- A call that has mapped its pages leaves the system as it was only if they are
none, the sum for their count having wrapped around. -/
theorem mapped_loop_undone_iff {addr len prot : Nat} (bounded : addr < wordLimit)
    (has : currentPageTable system.kernel ≠ 0)
    (mapped : mmapLoop (PageSupply.pageAllocator image) system addr len prot =
      (some (), space)) :
    GrowthUndone system { kernel := mmapKernel system addr len, space := space } ↔
      mmapPages len = 0 ∧ mmapBase system addr ≤ currentHeapBrk system.kernel := by
  have inside : mmapBase system addr < wordLimit := mmap_base_bounded bounded
  unfold mmapLoop at mapped
  constructor
  · intro undone
    have none : mmapPages len = 0 := by
      by_contra some
      have begins : BeginsWith 1 (mapFreshPages (PageSupply.pageAllocator image)
          (currentPageTable system.kernel) (mmapBase system addr) (System.mmapProt prot)
          (mmapPages len)) := map_fresh_pages_begins _ _ _ some
      have exhausted := (begins.free_iff system.space).mp
      rw [mapped] at exhausted
      have failed := begins.fails system.space (exhausted undone.frames)
      rw [mapped] at failed
      cases failed
    refine ⟨none, ?_⟩
    by_contra above
    have raised := undone.heapBrk
    unfold mmapKernel at raised
    rw [none, Nat.zero_mul, Nat.add_zero, Nat.mod_eq_of_lt inside] at raised
    dsimp only at raised
    rw [if_pos (not_le.mp above), (set_heap_brk_current _ has).2] at raised
    omega
  · rintro ⟨none, below⟩
    rw [none, map_no_fresh_page] at mapped
    cases mapped
    have same : mmapKernel system addr len = system.kernel := by
      unfold mmapKernel
      rw [none, Nat.zero_mul, Nat.add_zero, Nat.mod_eq_of_lt inside]
      exact if_neg (not_lt.mpr below)
    rw [same]
    exact GrowthUndone.refl system

/-- No frame is taken: there is none for the first page, or there is no page. -/
def MmapTakesNothing (system : System (PageSupply image)) (addr len flags : Nat) : Prop :=
  MmapRefused system len flags ∨
    if mmapPages len = 0 then mmapBase system addr ≤ currentHeapBrk system.kernel
    else system.space.store.allocPages 1 = none

theorem negative_mmap_undone_iff {addr len prot flags : Nat} (bounded : addr < wordLimit)
    (negative : (system.sysMmap (PageSupply.pageAllocator image) addr len prot flags).2 < 0) :
    GrowthUndone system
        (system.sysMmap (PageSupply.pageAllocator image) addr len prot flags).1 ↔
      MmapTakesNothing system addr len flags := by
  unfold MmapTakesNothing
  cases call : system.sysMmap (PageSupply.pageAllocator image) addr len prot flags with
  | mk after result =>
      have outcome := mmap_case (PageSupply.pageAllocator image) system addr len prot flags
      rw [call] at outcome negative
      cases outcome with
      | refuses refused => exact ⟨fun _ => .inl refused, fun _ => GrowthUndone.refl system⟩
      | maps allowed mapped =>
          have has : currentPageTable system.kernel ≠ 0 := fun missing =>
            allowed (.inr (.inr missing))
          rw [or_iff_right allowed, mapped_loop_undone_iff bounded has mapped]
          by_cases none : mmapPages len = 0
          · rw [if_pos none]
            exact ⟨And.right, fun below => ⟨none, below⟩⟩
          · rw [if_neg none]
            constructor
            · exact fun nothing => absurd nothing.1 none
            · intro exhausted
              unfold mmapLoop at mapped
              rw [(map_fresh_pages_begins _ _ _ none).fails _ exhausted] at mapped
              cases mapped
      | fails allowed failed =>
          obtain ⟨some, undone⟩ := failed_loop_undone_iff failed
          rw [or_iff_right allowed, if_neg some]
          exact undone

/-- In every state, for every task and every request. -/
theorem failed_growth_undone_iff (system : System (PageSupply image)) :
    (∀ addr, addr < wordLimit → currentHeapBrk system.kernel < addr →
      (system.sysBrk (PageSupply.pageAllocator image) addr).2 =
        System.asIsize (currentHeapBrk system.kernel) →
      (GrowthUndone system (system.sysBrk (PageSupply.pageAllocator image) addr).1 ↔
        currentPageTable system.kernel = 0 ∨ system.space.store.allocPages 1 = none)) ∧
    ∀ addr len prot flags, addr < wordLimit →
      (system.sysMmap (PageSupply.pageAllocator image) addr len prot flags).2 < 0 →
      (GrowthUndone system
          (system.sysMmap (PageSupply.pageAllocator image) addr len prot flags).1 ↔
        MmapTakesNothing system addr len flags) :=
  ⟨fun _ bounded above old => failed_brk_undone_iff above bounded old,
    fun _ _ _ _ bounded negative => negative_mmap_undone_iff bounded negative⟩

end

/-- The frames from `0x107000` to `0x10A000` are free. -/
def scarceSupply : PageSupply smallImage where
  bitmap :=
    { smallSupply.bitmap with
      words := fun word => if word = 0 then ~~~0x780#64 else BitVec.allOnes 64 }
  aligned := smallSupply.aligned
  representable := smallSupply.representable
  imageMarked := by
    unfold KernelImage.Has
    decide +kernel

def fullSupply : PageSupply smallImage where
  bitmap := { smallSupply.bitmap with words := fun _ => BitVec.allOnes 64 }
  aligned := smallSupply.aligned
  representable := smallSupply.representable
  imageMarked := by
    unfold KernelImage.Has
    decide +kernel

def suppliedSystem (supply : PageSupply smallImage) : System (PageSupply smallImage) :=
  { emptySystem with space := { emptySystem.space with store := supply } }

/-- There is a frame for the first page and its tables, and none for the second. -/
theorem failed_growth_keeps_first_page :
    ((suppliedSystem scarceSupply).sysBrk (PageSupply.pageAllocator smallImage) 0x8000002000).2 =
        System.asIsize (currentHeapBrk (suppliedSystem scarceSupply).kernel) ∧
      ¬GrowthUndone (suppliedSystem scarceSupply)
        ((suppliedSystem scarceSupply).sysBrk (PageSupply.pageAllocator smallImage)
          0x8000002000).1 ∧
      ((suppliedSystem scarceSupply).sysMmap (PageSupply.pageAllocator smallImage) 0 0x2000 3
        0x20).2 = -12 ∧
      ¬GrowthUndone (suppliedSystem scarceSupply)
        ((suppliedSystem scarceSupply).sysMmap (PageSupply.pageAllocator smallImage) 0 0x2000 3
          0x20).1 := by
  refine ⟨by decide +kernel, ?_, by decide +kernel, ?_⟩
  · intro undone
    have frames := undone.frames
    revert frames
    decide +kernel
  · intro undone
    have frames := undone.frames
    revert frames
    decide +kernel

theorem exhausted_growth_undone :
    GrowthUndone (suppliedSystem fullSupply)
        ((suppliedSystem fullSupply).sysBrk (PageSupply.pageAllocator smallImage)
          0x8000002000).1 ∧
      GrowthUndone (suppliedSystem fullSupply)
        ((suppliedSystem fullSupply).sysMmap (PageSupply.pageAllocator smallImage) 0 0x2000 3
          0x20).1 := by
  obtain ⟨brk, mmap⟩ := failed_growth_undone_iff (suppliedSystem fullSupply)
  have exhausted : (fullSupply.allocPages 1).isNone = true := by decide +kernel
  have none : (suppliedSystem fullSupply).space.store.allocPages 1 = none :=
    Option.isNone_iff_eq_none.mp exhausted
  refine ⟨(brk 0x8000002000 (by decide) (by decide) (by decide +kernel)).mpr (.inr none),
    (mmap 0 0x2000 3 0x20 (by decide) (by decide +kernel)).mpr (.inr ?_)⟩
  rw [if_neg (by decide)]
  exact none

end Ferrugem.FailedGrowth
