import Ferrugem.BitmapPages
import Ferrugem.SpaceIsolation
import Ferrugem.TablePlaces

/-!
# The heap and the mapped regions of a task

`sys_brk` and `sys_mmap` place new pages at the same cursor, the program break.
Every region that `sys_mmap` returned stays below the cursor as long as
`sys_brk` does not lower it into a region and no sum of the two calls leaves
the range of a `usize`.
-/

namespace Ferrugem.HeapRegions

open Ferrugem.ProcessModel Ferrugem.SchedulerModel Ferrugem.PagingModel
open Ferrugem.ElfLoaderModel Ferrugem.AddressSpaceModel Ferrugem.AddressTranslation
open Ferrugem.SpaceIsolation Ferrugem.TablePlaces Ferrugem.FrameBitmapModel Ferrugem.BitmapPages

set_option autoImplicit false

/-- A range of pages that `sys_mmap` returned. -/
structure Region where
  base : Nat
  pages : Nat
  deriving DecidableEq

namespace Region

def stop (region : Region) : Nat := region.base + region.pages * pageSize

def Has (region : Region) (va : Nat) : Prop := region.base ≤ va ∧ va < region.stop

def Apart (region other : Region) : Prop := region.stop ≤ other.base ∨ other.stop ≤ region.base

instance decidableApart (region other : Region) : Decidable (region.Apart other) :=
  inferInstanceAs (Decidable (_ ∨ _))

end Region

/-- The pages that hold `len` bytes. -/
def pagesOf (len : Nat) : Nat := (len + 0xFFF) / pageSize

/-- `EINVAL`, `ENOSYS` and `ENOMEM`; no page address is one of these. -/
def mmapFailed (result : Int) : Bool := result == -22 || result == -38 || result == -12

structure HeapState (Store : Type) where
  system : System Store
  regions : List Region

inductive HeapCall where
  | brk (addr : BitVec 64)
  | mmap (len prot flags : BitVec 64)
  | munmap (addr len : BitVec 64)

section

variable {image : KernelImage} {Store : Type} (allocator : PageAllocator image Store)

def heapStep (state : HeapState Store) : HeapCall → HeapState Store
  | .brk addr => { state with system := (state.system.sysBrk allocator addr.toNat).1 }
  | .mmap len prot flags =>
      let result := state.system.sysMmap allocator 0 len.toNat prot.toNat flags.toNat
      { system := result.1
        regions :=
          if mmapFailed result.2 then state.regions
          else ⟨(BitVec.ofInt 64 result.2).toNat, pagesOf len.toNat⟩ :: state.regions }
  | .munmap _ _ => state

def heapSystem (start : System Store) : EventSystem (HeapState Store) HeapCall Unit where
  init := { system := start, regions := [] }
  step := fun state call => (heapStep allocator state call, none)

structure ExecCall where
  data : Bytes
  argv0 : Bytes
  argv : List Bytes
  envp : List Bytes
  seed : BitVec 64

/-- `execve` by the current task after any calls by any tasks. -/
def afterExec (ram : WordMemory) (store : Store) (calls : List SpaceCall) (exec : ExecCall) :
    System Store × Option (Nat × Nat × Nat) :=
  ((spaceSystem allocator ram store).runFrom
    (spaceSystem allocator ram store).init calls).execveCurrent allocator exec.data exec.argv0
      exec.argv exec.envp exec.seed

end

section

variable {Store : Type}

/-- The step translates every address of the regions as before. -/
def TranslationKept {image : KernelImage} (allocator : PageAllocator image Store)
    (state : HeapState Store) (call : HeapCall) : Prop :=
  ∀ region ∈ state.regions, ∀ va, region.Has va →
    userTranslate (heapStep allocator state call).system.space.memory
        (currentPageTable state.system.kernel) va =
      userTranslate state.system.space.memory (currentPageTable state.system.kernel) va

/-- All regions lie apart, and no call changes what is mapped in a region. -/
def RegionsDisjoint {image : KernelImage} (allocator : PageAllocator image Store)
    (start : System Store) (calls : List HeapCall) : Prop :=
  ((heapSystem allocator start).runFrom (heapSystem allocator start).init calls).regions.Pairwise
      Region.Apart ∧
    (heapSystem allocator start).StepsMeet (TranslationKept allocator)
      (heapSystem allocator start).init calls

def pageCeil (value : Nat) : Nat := pagesOf value * pageSize

/-- A lowered break stays at or above every region; a raised break, and the
length and the end of a new region, stay in the range of a `usize`. -/
def SparesRegions (state : HeapState Store) : HeapCall → Prop
  | .brk addr =>
      ∀ region ∈ state.regions, addr ≠ 0 →
        (addr.toNat ≤ currentHeapBrk state.system.kernel → region.stop ≤ pageCeil addr.toNat) ∧
          (currentHeapBrk state.system.kernel < addr.toNat → addr.toNat + 0xFFF < wordLimit)
  | .mmap len _ _ =>
      len.toNat + 0xFFF < wordLimit ∧
        System.roundUp (currentHeapBrk state.system.kernel) + pagesOf len.toNat * pageSize ≠
          wordLimit
  | .munmap _ _ => True

instance decidableSparesRegions (state : HeapState Store) (call : HeapCall) :
    Decidable (SparesRegions state call) :=
  match call with
  | .brk _ => inferInstanceAs (Decidable (∀ region ∈ state.regions, _ → (_ → _) ∧ (_ → _)))
  | .mmap _ _ _ => inferInstanceAs (Decidable (_ ∧ _))
  | .munmap _ _ => isTrue trivial

end

theorem page_ceil_mono {low high : Nat} (order : low ≤ high) : pageCeil low ≤ pageCeil high :=
  Nat.mul_le_mul_right pageSize (Nat.div_le_div_right (Nat.add_le_add_right order 0xFFF))

theorem round_up_small {value : Nat} (ranged : value + 0xFFF < wordLimit) :
    System.roundUp value = pageCeil value := by
  unfold System.roundUp
  rw [Nat.mod_eq_of_lt ranged]
  rfl

theorem round_up_bounded (value : Nat) : System.roundUp value < wordLimit := by
  have limit := Nat.mod_lt (value + 0xFFF) (by decide : 0 < wordLimit)
  have floor := Nat.div_mul_le_self ((value + 0xFFF) % wordLimit) pageSize
  unfold System.roundUp
  omega

theorem round_up_cases {value : Nat} (bounded : value < wordLimit) :
    System.roundUp value = 0 ∨ System.roundUp value = pageCeil value := by
  unfold System.roundUp pageCeil pagesOf
  simp only [wordLimit, pageSize] at *
  omega

/-- Pages that are mapped one after the other stay in one range of 48 bits: its
first 512 GiB are refused. -/
theorem fresh_in_window {base i : Nat} (aligned : base % pageSize = 0) (bounded : base < wordLimit)
    (mapped : ∀ j, j ≤ i → levelIndex (freshVa base j) 4 ≠ 0) :
    base + i * pageSize < (base / 2 ^ 48 + 1) * 2 ^ 48 ∧
      base / 2 ^ 48 * 2 ^ 48 + 2 ^ 39 ≤ base := by
  have first := mapped 0 (Nat.zero_le i)
  constructor
  · by_contra beyond
    have crossing := mapped (((base / 2 ^ 48 + 1) * 2 ^ 48 - base) / pageSize)
    unfold levelIndex freshVa at crossing
    simp only [wordLimit, pageSize] at *
    omega
  · unfold levelIndex freshVa at first
    simp only [wordLimit, pageSize] at *
    omega

theorem mapped_from_break {brk i : Nat} (bounded : brk < wordLimit)
    (mapped : ∀ j, j ≤ i → levelIndex (freshVa (System.roundUp brk) j) 4 ≠ 0) :
    System.roundUp brk = pageCeil brk ∧
      pageCeil brk + i * pageSize < (pageCeil brk / 2 ^ 48 + 1) * 2 ^ 48 ∧
      pageCeil brk / 2 ^ 48 * 2 ^ 48 + 2 ^ 39 ≤ pageCeil brk := by
  have aligned : System.roundUp brk % pageSize = 0 := Nat.mul_mod_left _ _
  have window := fresh_in_window aligned (round_up_bounded brk) mapped
  rcases round_up_cases bounded with wrapped | same
  · have refused := mapped 0 (Nat.zero_le i)
    rw [wrapped] at refused
    exact absurd (by decide) refused
  · rw [same] at window
    exact ⟨same, window⟩

/-- The region lies below the break, in the range number `window` of 48 bits. -/
structure InWindow (window brk : Nat) (region : Region) : Prop where
  low : window * 2 ^ 48 + 2 ^ 39 ≤ region.base
  some : 0 < region.pages
  below : region.stop ≤ pageCeil brk
  high : pageCeil brk ≤ (window + 1) * 2 ^ 48

def InRegions (regions : List Region) (va : Nat) : Prop := ∃ region ∈ regions, region.Has va

theorem in_window_user {window brk va : Nat} {region : Region}
    (inside : InWindow window brk region) (has : region.Has va) : levelIndex va 4 ≠ 0 := by
  obtain ⟨low, _, below, high⟩ := inside
  obtain ⟨first, last⟩ := has
  unfold levelIndex
  omega

theorem fresh_apart {window brk : Nat} {regions : List Region} (bounded : brk < wordLimit)
    (inside : ∀ region ∈ regions, InWindow window brk region) (i : Nat)
    (mapped : ∀ j, j < i → levelIndex (freshVa (System.roundUp brk) j) 4 ≠ 0) :
    TablePlaces.Apart (InRegions regions) (freshVa (System.roundUp brk) i) := by
  rintro user other ⟨region, member, first, last⟩
  obtain ⟨low, _, below, high⟩ := inside region member
  have all : ∀ j, j ≤ i → levelIndex (freshVa (System.roundUp brk) j) 4 ≠ 0 := by
    intro j within
    rcases Nat.lt_or_eq_of_le within with earlier | rfl
    · exact mapped j earlier
    · exact user
  obtain ⟨start, top, bottom⟩ := mapped_from_break bounded all
  have aligned : pageCeil brk % pageSize = 0 := Nat.mul_mod_left _ _
  unfold placeOf freshVa
  simp only [wordLimit, pageSize] at *
  omega

theorem mapped_in_window {window brk count : Nat} {region : Region} (bounded : brk < wordLimit)
    (inside : InWindow window brk region)
    (mapped : ∀ i, i < count → levelIndex (freshVa (System.roundUp brk) i) 4 ≠ 0) :
    pageCeil brk + count * pageSize ≤ (window + 1) * 2 ^ 48 := by
  obtain ⟨low, some, below, high⟩ := inside
  cases count with
  | zero => simpa using high
  | succ last =>
      obtain ⟨_, top, bottom⟩ := @mapped_from_break brk last bounded
        fun j within => mapped j (by omega)
      have aligned : pageCeil brk % pageSize = 0 := Nat.mul_mod_left _ _
      unfold Region.stop at below
      simp only [pageSize] at *
      omega

theorem raised_in_window {window brk addr : Nat} {region : Region} (bounded : brk < wordLimit)
    (inside : InWindow window brk region) (above : brk < addr) (ranged : addr + 0xFFF < wordLimit)
    (mapped : ∀ i, i < (System.roundUp addr - System.roundUp brk) / pageSize →
      levelIndex (freshVa (System.roundUp brk) i) 4 ≠ 0) : InWindow window addr region := by
  have high := mapped_in_window bounded inside mapped
  obtain ⟨low, some, below, _⟩ := inside
  refine ⟨low, some, le_trans below (page_ceil_mono (le_of_lt above)), ?_⟩
  rw [round_up_small ranged, round_up_small (by omega : brk + 0xFFF < wordLimit)] at high
  have order := page_ceil_mono (le_of_lt above)
  have aligned : pageCeil brk % pageSize = 0 := Nat.mul_mod_left _ _
  have alignedAddr : pageCeil addr % pageSize = 0 := Nat.mul_mod_left _ _
  simp only [pageSize] at aligned alignedAddr high
  omega

theorem mapped_region {brk pages : Nat} (bounded : brk < wordLimit) (some : 0 < pages)
    (mapped : ∀ i, i < pages → levelIndex (freshVa (System.roundUp brk) i) 4 ≠ 0) :
    System.roundUp brk = pageCeil brk ∧
      pageCeil brk + pages * pageSize ≤ (pageCeil brk / 2 ^ 48 + 1) * 2 ^ 48 ∧
      pageCeil brk / 2 ^ 48 * 2 ^ 48 + 2 ^ 39 ≤ pageCeil brk := by
  obtain ⟨start, top, bottom⟩ := @mapped_from_break brk (pages - 1) bounded
    fun j within => mapped j (by omega)
  have aligned : pageCeil brk % pageSize = 0 := Nat.mul_mod_left _ _
  simp only [pageSize] at *
  refine ⟨start, ?_, bottom⟩
  omega

theorem window_of_break {window brk : Nat} {region : Region} (inside : InWindow window brk region)
    (bottom : pageCeil brk / 2 ^ 48 * 2 ^ 48 + 2 ^ 39 ≤ pageCeil brk) :
    window = pageCeil brk / 2 ^ 48 := by
  obtain ⟨low, some, below, high⟩ := inside
  unfold Region.stop at below
  simp only [pageSize] at below
  omega

theorem raised_to_end {brk pages : Nat} (some : 0 < pages)
    (ranged : System.roundUp brk = pageCeil brk)
    (top : pageCeil brk + pages * pageSize ≤ (pageCeil brk / 2 ^ 48 + 1) * 2 ^ 48)
    (inside : System.roundUp brk + pages * pageSize ≠ wordLimit) :
    pageCeil brk + pages * pageSize < wordLimit ∧ brk < pageCeil brk + pages * pageSize ∧
      pageCeil (pageCeil brk + pages * pageSize) = pageCeil brk + pages * pageSize := by
  have bounded := round_up_bounded brk
  rw [ranged] at bounded inside
  have above : brk ≤ pageCeil brk := by
    unfold pageCeil pagesOf
    simp only [pageSize]
    omega
  have aligned : pageCeil brk % pageSize = 0 := Nat.mul_mod_left _ _
  have rounded : pageCeil (pageCeil brk + pages * pageSize) =
      (pageCeil brk + pages * pageSize + 0xFFF) / pageSize * pageSize := rfl
  rw [rounded]
  simp only [wordLimit, pageSize] at *
  omega

section

variable {image : KernelImage} {Store : Type} {allocator : PageAllocator image Store}
variable {root : Nat} {state : HeapState Store}

def HasPlaces (allocator : PageAllocator image Store) (root : Nat) (space : PhysicalSpace Store) :
    Prop :=
  ∃ name layout, Placed allocator name root (fun _ => False) (fun _ => none) layout space

structure RegionsKept (allocator : PageAllocator image Store) (root : Nat)
    (state : HeapState Store) : Prop where
  places : HasPlaces allocator root state.system.space
  isRoot : currentPageTable state.system.kernel = root
  bounded : currentHeapBrk state.system.kernel < wordLimit
  window : ∃ window, ∀ region ∈ state.regions,
    InWindow window (currentHeapBrk state.system.kernel) region
  apart : state.regions.Pairwise Region.Apart

/-- The loop of `sys_brk` and `sys_mmap` at the break, whether it succeeds or
gives up: the regions are translated as before. -/
theorem regions_kept_map {prot : BitVec 32} {count : Nat} {result : Option Unit}
    {after : PhysicalSpace Store} (kept : RegionsKept allocator root state)
    (mapped : mapFreshPages allocator root
      (System.roundUp (currentHeapBrk state.system.kernel)) prot count state.system.space =
        (result, after)) :
    HasPlaces allocator root after ∧
      (∀ va, InRegions state.regions va → userTranslate after.memory root va =
        userTranslate state.system.space.memory root va) ∧
      (result = some () → ∀ i, i < count → levelIndex
        (freshVa (System.roundUp (currentHeapBrk state.system.kernel)) i) 4 ≠ 0) := by
  obtain ⟨name, layout, placed⟩ := kept.places
  obtain ⟨window, inside⟩ := kept.window
  have keeping : Placed allocator name root (InRegions state.regions)
      (userTranslate state.system.space.memory root) layout state.system.space := by
    refine ⟨placed.owned, placed.isRoot, placed.tables, placed.links, ?_, fun _ _ => rfl⟩
    rintro va ⟨region, member, has⟩
    exact in_window_user (inside region member) has
  obtain ⟨later, _, placedAfter, done⟩ := @placed_map_fresh_pages _ _ allocator name root
    (InRegions state.regions) _ layout _ count prot placed.isRoot
    (fun i _ => fresh_apart kept.bounded inside i) state.system.space keeping
  rw [mapped] at placedAfter done
  refine ⟨⟨name, later, placedAfter.owned, placedAfter.isRoot, placedAfter.tables,
    placedAfter.links, fun _ => False.elim, fun _ => False.elim⟩, placedAfter.kept, ?_⟩
  rintro rfl
  exact done () rfl

theorem set_heap_brk_current {kernel : Kernel} (value : Nat) (has : currentPageTable kernel ≠ 0) :
    currentPageTable (setHeapBrk kernel value) = currentPageTable kernel ∧
      currentHeapBrk (setHeapBrk kernel value) = value := by
  unfold currentPageTable currentHeapBrk setHeapBrk Kernel.modifyCurrent at *
  cases current : kernel.currentTask with
  | none =>
      rw [current] at has
      exact absurd rfl has
  | some task => simp [Kernel.currentTask, Kernel.setTask]

def StepKept (allocator : PageAllocator image Store) (root : Nat) (state after : HeapState Store) :
    Prop :=
  RegionsKept allocator root after ∧ ∀ va, InRegions state.regions va →
    userTranslate after.system.space.memory root va =
      userTranslate state.system.space.memory root va

theorem regions_kept_brk {addr : BitVec 64} (kept : RegionsKept allocator root state)
    (spares : SparesRegions state (.brk addr)) :
    StepKept allocator root state (heapStep allocator state (.brk addr)) := by
  obtain ⟨window, inside⟩ := kept.window
  have small : addr.toNat < wordLimit := addr.isLt
  unfold heapStep System.sysBrk
  dsimp only
  split_ifs with query below
  · exact ⟨kept, fun _ _ => rfl⟩
  · obtain ⟨nonzero, has⟩ := not_or.mp query
    obtain ⟨isRoot, brk⟩ := set_heap_brk_current addr.toNat has
    refine ⟨⟨kept.places, isRoot.trans kept.isRoot, ?_, ⟨window, ?_⟩, kept.apart⟩,
      fun _ _ => rfl⟩
    · rw [brk]
      exact small
    · intro region member
      have lowered := (spares region member fun zero => nonzero (by simp [zero])).1 below
      obtain ⟨low, some, _, high⟩ := inside region member
      rw [brk]
      exact ⟨low, some, lowered, le_trans (page_ceil_mono below) high⟩
  · obtain ⟨nonzero, has⟩ := not_or.mp query
    rw [kept.isRoot]
    split
    · rename_i space outcome
      obtain ⟨places, same, mapped⟩ := regions_kept_map kept outcome
      obtain ⟨isRoot, brk⟩ := set_heap_brk_current addr.toNat has
      refine ⟨⟨places, isRoot.trans kept.isRoot, ?_, ⟨window, ?_⟩, kept.apart⟩, same⟩
      · rw [brk]
        exact small
      · intro region member
        have ranged := (spares region member fun zero => nonzero (by simp [zero])).2 (by omega)
        rw [brk]
        exact raised_in_window kept.bounded (inside region member) (by omega) ranged (mapped rfl)
    · rename_i space outcome
      obtain ⟨places, same, _⟩ := regions_kept_map kept outcome
      exact ⟨⟨places, kept.isRoot, kept.bounded, kept.window, kept.apart⟩, same⟩

/-- The cases of `sys_mmap(0, ..)`. -/
inductive MmapCase (allocator : PageAllocator image Store) (system : System Store)
    (len prot : Nat) : System Store × Int → Prop where
  | refuses {code : Int} (error : mmapFailed code = true) :
      MmapCase allocator system len prot (system, code)
  | fails {space : PhysicalSpace Store}
      (mapped : mapFreshPages allocator (currentPageTable system.kernel)
        (System.roundUp (currentHeapBrk system.kernel)) (System.mmapProt prot)
        ((len + 0xFFF) % wordLimit / pageSize) system.space = (none, space)) :
      MmapCase allocator system len prot ({ system with space := space }, -12)
  | maps {space : PhysicalSpace Store} (nonempty : len ≠ 0)
      (has : currentPageTable system.kernel ≠ 0)
      (mapped : mapFreshPages allocator (currentPageTable system.kernel)
        (System.roundUp (currentHeapBrk system.kernel)) (System.mmapProt prot)
        ((len + 0xFFF) % wordLimit / pageSize) system.space = (some (), space)) :
      MmapCase allocator system len prot
        ({ kernel :=
             if currentHeapBrk system.kernel <
                 (System.roundUp (currentHeapBrk system.kernel) +
                   (len + 0xFFF) % wordLimit / pageSize * pageSize) % wordLimit then
               setHeapBrk system.kernel
                 ((System.roundUp (currentHeapBrk system.kernel) +
                   (len + 0xFFF) % wordLimit / pageSize * pageSize) % wordLimit)
             else system.kernel
           space := space }, System.asIsize (System.roundUp (currentHeapBrk system.kernel)))

theorem mmap_case (system : System Store) (len prot flags : Nat) :
    MmapCase allocator system len prot (system.sysMmap allocator 0 len prot flags) := by
  unfold System.sysMmap
  dsimp only
  by_cases empty : len = 0
  · rw [if_pos empty]
    exact .refuses rfl
  by_cases anonymous : (!flags.testBit System.mapAnonymousBit) = true
  · rw [if_neg empty, if_pos anonymous]
    exact .refuses rfl
  by_cases has : currentPageTable system.kernel = 0
  · rw [if_neg empty, if_neg anonymous, if_pos has]
    exact .refuses rfl
  rw [if_neg empty, if_neg anonymous, if_neg has, if_neg (fun chosen => chosen.1 rfl)]
  split
  · rename_i outcome
    exact .maps empty has outcome
  · rename_i outcome
    exact .fails outcome

theorem as_isize_base (value : Nat) :
    mmapFailed (System.asIsize (System.roundUp value)) = false ∧
      (BitVec.ofInt 64 (System.asIsize (System.roundUp value))).toNat = System.roundUp value := by
  have bounded := round_up_bounded value
  have aligned : System.roundUp value % pageSize = 0 := Nat.mul_mod_left _ _
  generalize System.roundUp value = base at *
  unfold mmapFailed System.asIsize
  constructor
  · rw [BitVec.toInt_eq_toNat_cond, BitVec.toNat_ofNat]
    simp only [wordLimit, pageSize] at bounded aligned
    rw [Nat.mod_eq_of_lt bounded]
    simp only [Bool.or_eq_false_iff, beq_eq_false_iff_ne]
    split_ifs <;> omega
  · rw [BitVec.ofInt_toInt, BitVec.toNat_ofNat]
    exact Nat.mod_eq_of_lt bounded

theorem pages_of_pos {len : Nat} (nonempty : len ≠ 0) : 0 < pagesOf len := by
  unfold pagesOf
  simp only [pageSize]
  omega

/-- The state after a region of `pages` pages was mapped at the break. -/
theorem regions_kept_new {pages : Nat} {space : PhysicalSpace Store} {kernel : Kernel}
    (kept : RegionsKept allocator root state) (some : 0 < pages)
    (places : HasPlaces allocator root space)
    (mapped : ∀ i, i < pages → levelIndex
      (freshVa (System.roundUp (currentHeapBrk state.system.kernel)) i) 4 ≠ 0)
    (isRoot : currentPageTable kernel = root)
    (brk : currentHeapBrk kernel = pageCeil (currentHeapBrk state.system.kernel) + pages * pageSize)
    (inside : System.roundUp (currentHeapBrk state.system.kernel) + pages * pageSize ≠ wordLimit) :
    RegionsKept allocator root
      { system := { kernel := kernel, space := space }
        regions := ⟨System.roundUp (currentHeapBrk state.system.kernel), pages⟩ ::
          state.regions } := by
  obtain ⟨window, below⟩ := kept.window
  obtain ⟨start, top, bottom⟩ := mapped_region kept.bounded some mapped
  obtain ⟨ranged, _, rounded⟩ := raised_to_end some start top inside
  rw [start]
  refine ⟨places, isRoot, ?_, ⟨pageCeil (currentHeapBrk state.system.kernel) / 2 ^ 48, ?_⟩, ?_⟩
  · rw [brk]
    exact ranged
  · rw [brk]
    intro region member
    rcases List.mem_cons.mp member with rfl | earlier
    · exact ⟨bottom, some, le_of_eq rounded.symm, by rw [rounded]; exact top⟩
    · obtain ⟨low, nonempty, under, _⟩ := below region earlier
      have same := window_of_break (below region earlier) bottom
      rw [same] at low
      exact ⟨low, nonempty, by rw [rounded]; omega, by rw [rounded]; exact top⟩
  · exact List.pairwise_cons.mpr ⟨fun region member => .inr (below region member).below, kept.apart⟩

theorem regions_kept_mmap {len prot flags : BitVec 64} (kept : RegionsKept allocator root state)
    (spares : SparesRegions state (.mmap len prot flags)) :
    StepKept allocator root state (heapStep allocator state (.mmap len prot flags)) := by
  obtain ⟨short, inside⟩ := spares
  unfold heapStep
  dsimp only
  have split := @mmap_case _ _ allocator state.system len.toNat prot.toNat flags.toNat
  generalize state.system.sysMmap allocator 0 len.toNat prot.toNat flags.toNat = result at split
  cases split with
  | refuses error =>
      rw [if_pos error]
      exact ⟨kept, fun _ _ => rfl⟩
  | fails mapped =>
      rw [kept.isRoot] at mapped
      obtain ⟨places, same, _⟩ := regions_kept_map kept mapped
      dsimp only
      rw [if_pos (by decide : mmapFailed (-12) = true)]
      exact ⟨⟨places, kept.isRoot, kept.bounded, kept.window, kept.apart⟩, same⟩
  | maps nonempty has mapped =>
      obtain ⟨succeeds, base⟩ := as_isize_base (currentHeapBrk state.system.kernel)
      have some := pages_of_pos nonempty
      have pages : (len.toNat + 0xFFF) % wordLimit / pageSize = pagesOf len.toNat := by
        rw [Nat.mod_eq_of_lt short]
        rfl
      rw [pages, kept.isRoot] at mapped
      obtain ⟨places, same, allMapped⟩ := regions_kept_map kept mapped
      obtain ⟨start, top, _⟩ := mapped_region kept.bounded some (allMapped rfl)
      obtain ⟨ranged, raised, _⟩ := raised_to_end some start top inside
      obtain ⟨isRoot, brk⟩ := set_heap_brk_current
        (pageCeil (currentHeapBrk state.system.kernel) + pagesOf len.toNat * pageSize) has
      have stop : (System.roundUp (currentHeapBrk state.system.kernel) +
          pagesOf len.toNat * pageSize) % wordLimit =
          pageCeil (currentHeapBrk state.system.kernel) + pagesOf len.toNat * pageSize := by
        rw [start, Nat.mod_eq_of_lt ranged]
      rw [pages, stop, if_pos raised, succeeds, base]
      exact ⟨regions_kept_new kept some places (allMapped rfl) (isRoot.trans kept.isRoot) brk
        inside, same⟩

theorem regions_kept_step (call : HeapCall) (kept : RegionsKept allocator root state)
    (spares : SparesRegions state call) :
    StepKept allocator root state (heapStep allocator state call) := by
  cases call with
  | brk addr => exact regions_kept_brk kept spares
  | mmap len prot flags => exact regions_kept_mmap kept spares
  | munmap addr len => exact ⟨kept, fun _ _ => rfl⟩

theorem regions_kept_exec {system : System Store} {exec : ExecCall} {target : Nat × Nat × Nat}
    (owned : SystemOwned allocator system)
    (executes : (system.execveCurrent allocator exec.data exec.argv0 exec.argv exec.envp
      exec.seed).2 = some target) :
    ∃ root, RegionsKept allocator root
      { system := (system.execveCurrent allocator exec.data exec.argv0 exec.argv exec.envp
          exec.seed).1
        regions := [] } := by
  obtain ⟨owners, names, owned⟩ := owned
  unfold System.execveCurrent at executes ⊢
  cases loads : loadExecImage allocator exec.data exec.argv0 exec.argv exec.envp exec.seed
      system.space with
  | mk result space =>
      rw [loads] at executes
      cases result with
      | none => cases executes
      | some loaded =>
          obtain ⟨places, bounded⟩ := exec_image_placed owned.space loads
          dsimp only at executes ⊢
          cases present : system.kernel.currentTask with
          | none =>
              rw [present] at executes
              cases executes
          | some task =>
              have current : currentPageTable
                    (system.kernel.execveTask loaded.pageTable loaded.heapStart) =
                      loaded.pageTable ∧
                  currentHeapBrk (system.kernel.execveTask loaded.pageTable loaded.heapStart) =
                    loaded.heapStart := by
                unfold currentPageTable currentHeapBrk Kernel.execveTask Kernel.modifyCurrent
                rw [present]
                simp [Kernel.currentTask, Kernel.setTask]
              refine ⟨loaded.pageTable, places, current.1, ?_, ⟨0, ?_⟩, List.Pairwise.nil⟩
              · dsimp only
                rw [current.2]
                exact bounded
              · nofun

/-- After `execve`, as long as the calls spare the regions, no two regions that
`sys_mmap(0, ..)` returned overlap and no call replaces a page of one. -/
theorem mapped_regions_disjoint (allocator : PageAllocator image Store) (ram : WordMemory)
    (store : Store) (calls : List SpaceCall) (exec : ExecCall) {target : Nat × Nat × Nat}
    (executes : (afterExec allocator ram store calls exec).2 = some target)
    (heapCalls : List HeapCall)
    (spares : (heapSystem allocator (afterExec allocator ram store calls exec).1).StepsMeet
      SparesRegions (heapSystem allocator (afterExec allocator ram store calls exec).1).init
      heapCalls) :
    RegionsDisjoint allocator (afterExec allocator ram store calls exec).1 heapCalls := by
  obtain ⟨root, initial⟩ := regions_kept_exec (reached_owned ram store calls) executes
  have step : ∀ state call, RegionsKept allocator root state → SparesRegions state call →
      StepKept allocator root state (heapStep allocator state call) :=
    fun _ call => regions_kept_step call
  constructor
  · exact (EventSystem.run_preserves (RegionsKept allocator root)
      (fun state call kept spared => (step state call kept spared).1) initial spares).apart
  · apply EventSystem.steps_satisfy (RegionsKept allocator root)
      (fun state call kept spared => (step state call kept spared).1) _ initial spares
    intro state call kept spared region member va has
    rw [kept.isRoot]
    exact (step state call kept spared).2 va ⟨region, member, has⟩

end

def smallImage : KernelImage where
  start := 0x100000
  stop := 0x106000
  pml4 := 0x100000
  pdpt := 0x101000
  pd := 0x102000
  userEnterTrampoline := 0x100000#64
  forkEnterTrampoline := 0x100000#64
  aligned := by decide
  inside := by decide
  distinct := by decide
  representable := by decide

/-- 128 frames from 1 MiB on, of which the image takes the first six. -/
def smallSupply : PageSupply smallImage where
  bitmap :=
    { words := fun word => if word = 0 then 0x3F#64 else 0#64
      memBase := 0x100000
      totalFrames := 128
      freeFrames := 122
      bounded := by decide }
  aligned := by decide
  representable := by decide
  imageMarked := by
    unfold KernelImage.Has
    decide +kernel

/-- An executable with one segment: a zeroed page at `userBaseVa`. -/
def onePageElf : Bytes :=
  [0x7F, 0x45, 0x4C, 0x46, 2, 1, 1, 0, 0, 0, 0, 0, 0, 0, 0, 0,
    2, 0, 0x3E, 0, 1, 0, 0, 0, 0, 0, 0, 0, 0x80, 0, 0, 0,
    64, 0, 0, 0, 0, 0, 0, 0, 0, 0, 0, 0, 0, 0, 0, 0,
    0, 0, 0, 0, 64, 0, 56, 0, 1, 0, 0, 0, 0, 0, 0, 0,
    1, 0, 0, 0, 7, 0, 0, 0, 0, 0, 0, 0, 0, 0, 0, 0,
    0, 0, 0, 0, 0x80, 0, 0, 0, 0, 0, 0, 0, 0x80, 0, 0, 0,
    0, 0, 0, 0, 0, 0, 0, 0, 1, 0, 0, 0, 0, 0, 0, 0,
    0, 0x10, 0, 0, 0, 0, 0, 0]

def firstTaskRuns : KernelChange where
  apply := fun kernel => { kernel with current := firstSlot }
  keeps := fun _ _ task present => ⟨task, present, rfl, rfl, rfl⟩

def smallExec : System (PageSupply smallImage) × Option (Nat × Nat × Nat) :=
  afterExec (PageSupply.pageAllocator smallImage) (fun _ => 0#64) smallSupply
    [.spawnElf onePageElf [] 0#64, .elsewhere firstTaskRuns] ⟨onePageElf, [], [], [], 0#64⟩

def growAndMap : List HeapCall :=
  [.brk 0x8000003000, .mmap 1 3 0x20, .brk 0x8000006000, .brk 0x8000005000, .mmap 1 3 0x20]

theorem mapped_regions_disjoint_grown :
    ((heapSystem (PageSupply.pageAllocator smallImage) smallExec.1).runFrom
        (heapSystem (PageSupply.pageAllocator smallImage) smallExec.1).init growAndMap).regions =
      [⟨0x8000005000, 1⟩, ⟨0x8000003000, 1⟩] ∧
      RegionsDisjoint (PageSupply.pageAllocator smallImage) smallExec.1 growAndMap := by
  refine ⟨by decide +kernel, ?_⟩
  apply mapped_regions_disjoint
  · exact (by decide +kernel : smallExec.2 = some (0x8000000000, 0x800FFFFF10, 0x11E000))
  · decide +kernel

def mapThenLower : List HeapCall := [.mmap 1 3 0x20, .brk 0x8000001000, .mmap 1 3 0x20]

/-- The break goes back to its start below the mapped page: the next region
takes the same page and replaces its frame. -/
theorem lowered_break_reuses_region :
    smallExec.2.isSome = true ∧
      ¬RegionsDisjoint (PageSupply.pageAllocator smallImage) smallExec.1 mapThenLower ∧
      ¬(heapSystem (PageSupply.pageAllocator smallImage) smallExec.1).StepsMeet
        (TranslationKept (PageSupply.pageAllocator smallImage))
        (heapSystem (PageSupply.pageAllocator smallImage) smallExec.1).init mapThenLower := by
  refine ⟨by decide +kernel, ?_, ?_⟩
  · rintro ⟨apart, _⟩
    revert apart
    decide +kernel
  · rintro ⟨_, _, third, _⟩
    have replaced := third ⟨0x8000001000, 1⟩ (by decide +kernel) 0x8000001000
      ⟨by decide, by decide⟩
    revert replaced
    decide +kernel

end Ferrugem.HeapRegions
